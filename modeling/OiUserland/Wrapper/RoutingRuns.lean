import OiUserland.Wrapper.BusLists
import OiUserland.Wrapper.FastPath

namespace OiUserland.Wrapper.RoutingRuns

open Lib.Chains Lib.Runs Plugins FindBusses Searches BusLists Startup Selection FastPath Routing

variable {s t : WrapperState} {x y : Session} {device dev i j : Nat} {found : Nat → Search}

def Share (s : WrapperState) (i j : Nat) : Prop := ∃ a ∈ s.own i, ∃ b ∈ s.own j, ∃ d ∈ devicesOf s a, d ∈ devicesOf s b

/-- No two plug-ins have a device in common. -/
def DevicesApart (s : WrapperState) : Prop := ∀ i, i < s.ploaded → ∀ j, j < s.ploaded → Share s i j → i = j

def OnFirstBus (s : WrapperState) (i device : Nat) : Prop :=
  ∃ busp rest, s.own i = busp :: rest ∧ device ∈ devicesOf s busp

/-- What plug-ins and applications keep to: a plug-in extends its own list, has its own
devices and returns handles that are not in use, and a call is made for a device that is
listed or for a handle that is open. -/
def Promised : Op → Session → Prop
  | .usbInit _, _ => True
  | .usbFindBusses found, x => Extends x.state found ∧
      ∀ r s, usbFindBusses found x.state = some (r, s) → DevicesApart s
  | .usbFindDevices devices, x => DevicesApart (usbFindDevices devices x.state)
  | .usbOpen device dev _, x => (∃ i, Holds x.state i device) ∧ (dev ≠ 0 → x.owner dev = none)
  | .usbClose dev _, x => x.owner dev ≠ none
  | .lookupSymHdl dev _, x => x.owner dev ≠ none

/-- The answers to usb_init fit each other, no list has been spliced that is to be spliced
again, and a device that is looked up is on the first bus of its plug-in. -/
def Fitting : Op → Session → Prop
  | .usbInit dir, x => x.state.headBusp = 0 → Settled dir x.state
  | .usbFindBusses found, x => NotSpliced found x.state
  | .usbOpen device _ _, x => x.state.activeIndex = -1 → ∃ i, OnFirstBus x.state i device
  | _, _ => True

theorem devicesOf_of_lookup {bus : UsbBus} {busp : Nat} (h : s.busses.lookup busp = some bus) :
    devicesOf s busp = bus.devices := by
  rw [devicesOf, h]

theorem findDevice_chain {n a : Nat} {l : List Nat} (hl : IsChain s.link a l) (hn : l.length ≤ n)
    (honly : ∀ b ∈ l, device ∈ devicesOf s b → ∀ p, pluginOf s b = some p → p = i)
    (hfirst : ∃ b ∈ l, device ∈ devicesOf s b ∧ pluginOf s b = some i) : findDevice s device n a = some (i : Int) := by
  induction hl generalizing n with
  | nil => exact absurd hfirst (by simp)
  | @cons a b l ha hb ht ih =>
      obtain ⟨m, rfl⟩ : ∃ m, n = m + 1 := ⟨n - 1, by simp only [List.length_cons] at hn; omega⟩
      obtain ⟨bus, hbus, rfl⟩ := Option.map_eq_some_iff.mp hb
      rw [findDevice, if_neg ha, hbus, Option.bind_some, ← devicesOf_of_lookup hbus]
      have hrest : (∃ b ∈ l, device ∈ devicesOf s b ∧ pluginOf s b = some i) →
          findDevice s device m bus.next = some (i : Int) :=
        ih (by simpa using hn) fun c hc => honly c (List.mem_cons_of_mem _ hc)
      split
      · rename_i p hp
        split at hp
        · rename_i hdev
          rw [honly a (List.mem_cons_self ..) hdev p hp]
        · cases hp
      · rename_i hnone
        refine hrest ?_
        obtain ⟨c, hc, hdev, hplugin⟩ := hfirst
        rcases List.mem_cons.mp hc with rfl | hc
        · rw [if_pos hdev, hplugin] at hnone
          cases hnone
        · exact ⟨c, hc, hdev, hplugin⟩

structure Sound (x : Session) : Prop where
  tidy : Tidy x.state
  joined : Joined x.state
  heads : x.state.headBusp = x.state.usbBusses
  pointed : ∀ i, Pointed x.state i
  apart : DevicesApart x.state
  routes : Routes x.state
  owners : ∀ dev i, x.owner dev = some i → x.state.own i ≠ [] ∧ dev ≠ 0 ∧ ∃ h ∈ (x.state.pInfo i).devHandles, h.dev = dev
  handles : ∀ i, ∀ h ∈ (x.state.pInfo i).devHandles, h.dev ≠ 0 → x.owner h.dev = some i
  once : ∀ i, (x.state.pInfo i).devHandles.Pairwise fun h h' => h.dev ≠ 0 → h.dev ≠ h'.dev

theorem exports_of_own (hh : Hidden s) (hown : s.own i ≠ []) : Exports s i := by
  by_contra hno
  exact hown (hh.own i hno)

theorem own_of_holds (h : Holds s i device) : s.own i ≠ [] := by
  obtain ⟨b, hb, -⟩ := h
  exact List.ne_nil_of_mem hb

theorem pHandle_of_exports (h : Exports s i) : (s.pInfo i).pHandle = true := (Bool.and_eq_true_iff.mp h.2.1).1

theorem Sound.active (hx : Sound x) (hown : x.state.own i ≠ []) : x.state.activeIndex = -1 ∨ x.state.activeIndex = i := by
  have hexp := exports_of_own hx.tidy.hidden hown
  exact hx.routes i hexp.1 (pHandle_of_exports hexp)

theorem Sound.holder_unique (hx : Sound x) (hi : Holds x.state i device) (hj : Holds x.state j device) : i = j := by
  have hei := exports_of_own hx.tidy.hidden (own_of_holds hi)
  have hej := exports_of_own hx.tidy.hidden (own_of_holds hj)
  obtain ⟨a, ha, hda⟩ := hi
  obtain ⟨b, hb, hdb⟩ := hj
  exact hx.apart i hei.1 j hej.1 ⟨a, ha, b, hb, device, hda, hdb⟩

theorem Sound.holder_eq (hx : Sound x) (hi : Holds x.state i device) : holder x.state device = some i := by
  rw [holder]
  cases h : (List.range x.state.ploaded).find? fun i => Holds x.state i device with
  | none =>
      have hnone := List.find?_eq_none.mp h i (List.mem_range.mpr (exports_of_own hx.tidy.hidden (own_of_holds hi)).1)
      exact absurd (decide_eq_true hi) hnone
  | some j =>
      have hj : Holds x.state j device := of_decide_eq_true (List.find?_some (p := fun i => decide (Holds x.state i device)) h)
      rw [hx.holder_unique hi hj]

theorem mem_allBusses (hh : Hidden s) {b : Nat} (hb : b ∈ s.own i) : b ∈ allBusses s :=
  List.mem_flatMap.mpr ⟨i, List.mem_range.mpr (exports_of_own hh (List.ne_nil_of_mem hb)).1, hb⟩

theorem Sound.pluginOf_eq (hx : Sound x) {b : Nat} (hb : b ≠ 0) (h : pluginOf x.state b = some i) :
    ∃ rest, x.state.own i = b :: rest := by
  have hbusp : (x.state.pInfo i).busp = b :=
    of_decide_eq_true (List.find?_some (p := fun i => decide ((x.state.pInfo i).busp = b)) h)
  rw [hx.pointed i] at hbusp
  cases hown : x.state.own i with
  | nil =>
      rw [hown] at hbusp
      exact absurd hbusp.symm hb
  | cons c rest =>
      rw [hown, List.headD_cons] at hbusp
      exact ⟨rest, by rw [hbusp]⟩

theorem Sound.pluginOf_first (hx : Sound x) {b : Nat} {rest : List Nat} (hown : x.state.own i = b :: rest) :
    pluginOf x.state b = some i := by
  have hmem : b ∈ x.state.own i := hown ▸ List.mem_cons_self ..
  have hb : b ≠ 0 := fun hb => hx.tidy.kept.nonzero i (hb ▸ hmem)
  cases h : pluginOf x.state b with
  | none =>
      have hlt := (exports_of_own hx.tidy.hidden (List.ne_nil_of_mem hmem)).1
      refine absurd (decide_eq_true ?_) (List.find?_eq_none.mp h i (List.mem_range.mpr hlt))
      rw [hx.pointed i, hown, List.headD_cons]
  | some j =>
      obtain ⟨rest', hj⟩ := hx.pluginOf_eq hb h
      rw [hx.tidy.kept.apart j i b (hj ▸ List.mem_cons_self ..) hmem]

theorem Sound.openIndex_eq (hx : Sound x) (hi : Holds x.state i device)
    (hfirst : x.state.activeIndex = -1 → ∃ j, OnFirstBus x.state j device) : openIndex x.state device = some (i : Int) := by
  rw [openIndex]
  split
  · rename_i hactive
    obtain ⟨j, b, rest, hown, hdev⟩ := hfirst hactive
    have hmem : b ∈ x.state.own j := hown ▸ List.mem_cons_self ..
    obtain rfl := hx.holder_unique hi ⟨b, hmem, hdev⟩
    refine findDevice_chain hx.joined.1 hx.joined.1.length_le (fun c hc hd p hp => ?_)
      ⟨b, mem_allBusses hx.tidy.hidden hmem, hdev, hx.pluginOf_first hown⟩
    obtain ⟨rest', hp⟩ := hx.pluginOf_eq (hx.joined.1.ne_zero hc) hp
    exact (hx.holder_unique hi ⟨c, hp ▸ List.mem_cons_self .., hd⟩).symm
  · rename_i hactive
    rw [(hx.active (own_of_holds hi)).resolve_left hactive]

theorem Sound.getPindex_eq (hx : Sound x) (ho : x.owner dev = some i) : getPindex x.state dev = i := by
  obtain ⟨hown, hdev, h, hh, rfl⟩ := hx.owners dev i ho
  rw [getPindex, if_neg hdev]
  split
  · have hlt := (exports_of_own hx.tidy.hidden hown).1
    have hindex : getIndexDevhdl x.state h.dev = i := by
      rw [getIndexDevhdl]
      cases hfind : (List.range x.state.ploaded).find? fun i => (x.state.pInfo i).devHandles.any fun h' => h'.dev = h.dev with
      | none =>
          refine absurd ?_ (List.find?_eq_none.mp hfind i (List.mem_range.mpr hlt))
          exact List.any_eq_true.mpr ⟨h, hh, decide_eq_true rfl⟩
      | some j =>
          obtain ⟨h', hh', heq⟩ := List.any_eq_true.mp (List.find?_some
            (p := fun i => (x.state.pInfo i).devHandles.any fun h' => h'.dev = h.dev) hfind)
          have hj := hx.handles j h' hh' (of_decide_eq_true heq ▸ hdev)
          rw [of_decide_eq_true heq, ho] at hj
          rw [Option.some.inj hj]
    rw [hindex, if_neg (by omega)]
  · rename_i hactive
    exact (hx.active hown).resolve_left hactive

structure Alike (s t : WrapperState) : Prop where
  ploaded : t.ploaded = s.ploaded
  activeIndex : t.activeIndex = s.activeIndex
  headBusp : t.headBusp = s.headBusp
  usbBusses : t.usbBusses = s.usbBusses
  own : t.own = s.own
  link : t.link = s.link
  pHandle : ∀ i, (t.pInfo i).pHandle = (s.pInfo i).pHandle
  symHdl : ∀ i, (t.pInfo i).symHdl = (s.pInfo i).symHdl
  busp : ∀ i, (t.pInfo i).busp = (s.pInfo i).busp

theorem Alike.exports (h : Alike s t) (i : Nat) : Exports t i ↔ Exports s i := by
  rw [Exports, Exports, checkSymHdl, checkSymHdl, checkSymHdl, checkSymHdl, h.ploaded, h.pHandle, h.symHdl]

theorem Alike.hidden (h : Alike s t) (hs : Hidden s) : Hidden t := by
  refine ⟨fun i hi => ?_, fun i hi => ?_⟩
  · rw [h.own]
    exact hs.own i fun hx => hi ((h.exports i).mpr hx)
  · rw [h.busp]
    rw [checkSymHdl, h.pHandle, h.symHdl] at hi
    exact hs.busp i hi

theorem Alike.tidy (h : Alike s t) (hs : Tidy s) : Tidy t := by
  obtain ⟨⟨hleads, halloc, hnodup, hnonzero, hapart⟩, hhidden, hempty, hends⟩ := hs
  refine ⟨⟨?_, ?_, ?_, ?_, ?_⟩, h.hidden hhidden, ?_, ?_⟩
  · rw [h.own, h.link]
    exact hleads
  · rw [h.own, h.link]
    exact halloc
  · rw [h.own]
    exact hnodup
  · rw [h.own]
    exact hnonzero
  · rw [h.own]
    exact hapart
  · rw [h.own, h.headBusp, h.usbBusses]
    exact hempty
  · rw [h.own, h.link]
    exact hends

theorem Alike.joined (h : Alike s t) (hs : Joined s) : Joined t := by
  rw [BusLists.Joined, allBusses, h.ploaded, h.own, h.link, h.usbBusses]
  exact hs

theorem Sound.alike (hx : Sound x) (h : Alike x.state y.state) (hapart : DevicesApart y.state)
    (howners : ∀ dev i, y.owner dev = some i →
      x.state.own i ≠ [] ∧ dev ≠ 0 ∧ ∃ h ∈ (y.state.pInfo i).devHandles, h.dev = dev)
    (hhandles : ∀ i, ∀ h ∈ (y.state.pInfo i).devHandles, h.dev ≠ 0 → y.owner h.dev = some i)
    (honce : ∀ i, (y.state.pInfo i).devHandles.Pairwise fun h h' => h.dev ≠ 0 → h.dev ≠ h'.dev) : Sound y := by
  refine ⟨h.tidy hx.tidy, h.joined hx.joined, ?_, fun i => ?_, hapart, fun i hi hl => ?_, ?_, hhandles, honce⟩
  · rw [h.headBusp, h.usbBusses]
    exact hx.heads
  · rw [Searches.Pointed, h.busp, h.own]
    exact hx.pointed i
  · rw [h.ploaded] at hi
    rw [h.pHandle] at hl
    rw [h.activeIndex]
    exact hx.routes i hi hl
  · rw [h.own]
    exact howners

theorem alike_putHandles (s : WrapperState) (i : Nat) (l : List DevHandle) :
    Alike s (s.putInfo i { s.pInfo i with devHandles := l }) := by
  have hsame {β : Type} (f : PluginInfo → β) (hf : f { s.pInfo i with devHandles := l } = f (s.pInfo i)) (j : Nat) :
      f ((s.putInfo i { s.pInfo i with devHandles := l }).pInfo j) = f (s.pInfo j) := by
    by_cases hj : j = i
    · subst hj
      rw [putInfo_self, hf]
    · rw [putInfo_of_ne s _ hj]
  exact ⟨rfl, rfl, rfl, rfl, rfl, rfl, hsame PluginInfo.pHandle rfl, hsame PluginInfo.symHdl rfl, hsame PluginInfo.busp rfl⟩

theorem devHandles_putHandles (s : WrapperState) (i : Nat) (l : List DevHandle) (j : Nat) :
    ((s.putInfo i { s.pInfo i with devHandles := l }).pInfo j).devHandles = if j = i then l else (s.pInfo j).devHandles := by
  by_cases hj : j = i
  · subst hj
    rw [putInfo_self, if_pos rfl]
  · rw [putInfo_of_ne s _ hj, if_neg hj]

theorem Sound.usbAddDev (hx : Sound x) (hi : Holds x.state i device) (hfree : dev ≠ 0 → x.owner dev = none) :
    Sound ⟨Routing.usbAddDev dev device i x.state,
      if dev = 0 then x.owner else Function.update x.owner dev (holder x.state device)⟩ := by
  have hout {j : Nat} {h : DevHandle} (hh : h ∈ (x.state.pInfo j).devHandles) (hdev : dev ≠ 0) : h.dev ≠ dev := by
    rintro rfl
    exact nomatch (hfree hdev).symm.trans (hx.handles j h hh hdev)
  have hmem {j : Nat} {h : DevHandle} (hh : h ∈ ((Routing.usbAddDev dev device i x.state).pInfo j).devHandles) :
      h ∈ (x.state.pInfo j).devHandles ∨ j = i ∧ h = ⟨dev, device⟩ := by
    rw [Routing.usbAddDev, devHandles_putHandles] at hh
    split at hh
    · rename_i hji
      subst hji
      exact (List.mem_append.mp hh).imp_right fun h => ⟨rfl, List.mem_singleton.mp h⟩
    · exact .inl hh
  have hkeep {j : Nat} {h : DevHandle} (hh : h ∈ (x.state.pInfo j).devHandles) :
      h ∈ ((Routing.usbAddDev dev device i x.state).pInfo j).devHandles := by
    rw [Routing.usbAddDev, devHandles_putHandles]
    split
    · rename_i hji
      subst hji
      exact List.mem_append_left _ hh
    · exact hh
  refine hx.alike (alike_putHandles ..) hx.apart (fun d j hd => ?_) (fun j h hh hne => ?_) fun j => ?_
  · simp only at hd
    by_cases hdev : d = dev ∧ dev ≠ 0
    · obtain ⟨rfl, hdev⟩ := hdev
      rw [if_neg hdev, Function.update_self, hx.holder_eq hi] at hd
      obtain rfl := Option.some.inj hd
      refine ⟨own_of_holds hi, hdev, ⟨d, device⟩, ?_, rfl⟩
      simp only [Routing.usbAddDev, devHandles_putHandles, if_true]
      exact List.mem_append_right _ (List.mem_singleton_self _)
    · have hold : x.owner d = some j := by
        split at hd
        · exact hd
        · rename_i hdev0
          rwa [Function.update_of_ne fun h => hdev ⟨h, hdev0⟩] at hd
      obtain ⟨hown, hne, h, hh, heq⟩ := hx.owners d j hold
      exact ⟨hown, hne, h, hkeep hh, heq⟩
  · simp only
    rcases hmem hh with hold | ⟨rfl, rfl⟩
    · have hother := hx.handles j h hold hne
      split
      · exact hother
      · rename_i hdev
        rw [Function.update_of_ne (hout hold hdev)]
        exact hother
    · rw [if_neg hne, Function.update_self, hx.holder_eq hi]
  · simp only [Routing.usbAddDev, devHandles_putHandles]
    split
    · rename_i hji
      subst hji
      refine List.pairwise_append.mpr ⟨hx.once j, List.pairwise_singleton _ _, fun h hh h' hh' hne => ?_⟩
      rw [List.mem_singleton.mp hh']
      intro heq
      exact hout hh (fun h0 => hne (heq.trans h0)) heq
    · exact hx.once j

theorem ne_of_mem_eraseP {l : List DevHandle} (honce : l.Pairwise fun h h' => h.dev ≠ 0 → h.dev ≠ h'.dev) (hdev : dev ≠ 0)
    {h : DevHandle} (hh : h ∈ l.eraseP fun h => h.dev = dev) : h.dev ≠ dev := by
  induction l with
  | nil => exact absurd hh List.not_mem_nil
  | cons g l ih =>
      obtain ⟨hg, hrest⟩ := List.pairwise_cons.mp honce
      by_cases hgd : g.dev = dev
      · rw [List.eraseP_cons_of_pos (by simpa using hgd)] at hh
        intro heq
        exact hg h hh (hgd ▸ hdev) (hgd.trans heq.symm)
      · rw [List.eraseP_cons_of_neg (by simpa using hgd)] at hh
        rcases List.mem_cons.mp hh with rfl | hh
        · exact hgd
        · exact ih hrest hh

theorem Sound.usbDelDev (hx : Sound x) (ho : x.owner dev = some i) :
    Sound ⟨Routing.usbDelDev dev i x.state, Function.update x.owner dev none⟩ := by
  obtain ⟨-, hdev, -⟩ := hx.owners dev i ho
  have hmem {j : Nat} {h : DevHandle} (hh : h ∈ ((Routing.usbDelDev dev i x.state).pInfo j).devHandles) :
      h ∈ (x.state.pInfo j).devHandles ∧ h.dev ≠ dev := by
    rw [Routing.usbDelDev, devHandles_putHandles] at hh
    split at hh
    · rename_i hji
      subst hji
      exact ⟨List.mem_of_mem_eraseP hh, ne_of_mem_eraseP (hx.once j) hdev hh⟩
    · rename_i hji
      refine ⟨hh, fun heq => hji ?_⟩
      have hj := hx.handles j h hh (heq ▸ hdev)
      rw [heq, ho] at hj
      exact (Option.some.inj hj).symm
  refine hx.alike (alike_putHandles ..) hx.apart (fun d j hd => ?_) (fun j h hh hne => ?_) fun j => ?_
  · have hne : d ≠ dev := by
      rintro rfl
      simp only [Function.update_self] at hd
      cases hd
    simp only [Function.update_of_ne hne] at hd
    obtain ⟨hown, hd0, h, hh, rfl⟩ := hx.owners d j hd
    refine ⟨hown, hd0, h, ?_, rfl⟩
    simp only [Routing.usbDelDev, devHandles_putHandles]
    split
    · rename_i hji
      subst hji
      exact (List.mem_eraseP_of_neg (by simpa using hne)).mpr hh
    · exact hh
  · obtain ⟨hold, hne'⟩ := hmem hh
    simp only [Function.update_of_ne hne']
    exact hx.handles j h hold hne
  · simp only [Routing.usbDelDev, devHandles_putHandles]
    split
    · rename_i hji
      subst hji
      exact (hx.once j).sublist (List.eraseP_sublist ..)
    · exact hx.once j

theorem link_setDevices (devices : Nat → List Nat) (l : List Nat) (h : Heap UsbBus) :
    linkOf UsbBus.next (setDevices devices l h) = linkOf UsbBus.next h := by
  induction l generalizing h with
  | nil => rfl
  | cons a l ih =>
      rw [setDevices]
      split
      · exact ih h
      · rename_i bus hbus
        rw [ih]
        funext c
        exact linkOf_insert_same hbus (rfl : UsbBus.next { bus with devices := devices a } = UsbBus.next bus) c

theorem alike_usbFindDevices (devices : Nat → List Nat) (s : WrapperState) : Alike s (usbFindDevices devices s) := by
  refine ⟨rfl, rfl, rfl, rfl, rfl, ?_, fun _ => rfl, fun _ => rfl, fun _ => rfl⟩
  have hfold (is : List Nat) (h : Heap UsbBus) :
      linkOf UsbBus.next (is.foldl (fun h i => setDevices devices (s.own i) h) h) = linkOf UsbBus.next h := by
    induction is generalizing h with
    | nil => rfl
    | cons i is ih => rw [List.foldl_cons, ih, link_setDevices]
  exact hfold _ _

/-- usb_init only does something while no bus is known. -/
theorem Sound.usbInit {dir : Directory} (hx : Sound x) (hfit : x.state.headBusp = 0 → Settled dir x.state)
    (h : Startup.usbInit dir x.state = some t) : Sound { x with state := t } := by
  rcases usbInit_routes h hx.routes hfit with ⟨-, rfl⟩ | ⟨hhead, hframe, hroutes⟩
  · exact hx
  · have hbusses : x.state.usbBusses = 0 := hx.heads.symm.trans hhead
    have hall : allBusses x.state = [] := by
      have hchain := hx.joined.1
      rw [hbusses] at hchain
      exact hchain.zero
    have hnil (i : Nat) : x.state.own i = [] := by
      by_contra hown
      obtain ⟨b, hb⟩ := List.exists_mem_of_ne_nil _ hown
      have := mem_allBusses hx.tidy.hidden hb
      rw [hall] at this
      cases this
    have hown (i : Nat) : t.own i = [] := by rw [hframe.own, hnil i]
    have hbusp (i : Nat) : (t.pInfo i).busp = 0 := by
      rw [hframe.busp, hx.pointed i, hnil i]
      rfl
    have hhead' : t.headBusp = 0 := hframe.headBusp.trans hhead
    have hbusses' : t.usbBusses = 0 := hframe.usbBusses.trans hbusses
    have hall' : allBusses t = [] := List.flatMap_eq_nil_iff.mpr fun i _ => hown i
    constructor
    · refine ⟨⟨fun i => ?_, fun i a ha => ?_, fun i => ?_, fun i => ?_, fun i j a ha _ => ?_⟩, ⟨fun i _ => hown i, fun i _ => hbusp i⟩,
        fun _ => ⟨hhead', hbusses'⟩, fun i e he _ => ?_⟩
      · rw [hown i]
        exact .nil
      · rw [hown i] at ha
        cases ha
      · rw [hown i]
        exact .nil
      · rw [hown i]
        exact List.not_mem_nil
      · rw [hown i] at ha
        cases ha
      · rw [hown i] at he
        cases he
    · rw [BusLists.Joined, hall', hbusses']
      exact ⟨.nil, .nil⟩
    · rw [hhead', hbusses']
    · intro i
      rw [Searches.Pointed, hbusp i, hown i]
      rfl
    · rintro i - j - ⟨a, ha, -⟩
      rw [hown i] at ha
      cases ha
    · exact hroutes
    · intro dev i ho
      exact absurd (hnil i) (hx.owners dev i ho).1
    · intro i h hh
      rw [hframe.devHandles] at hh
      exact hx.handles i h hh
    · intro i
      rw [hframe.devHandles]
      exact hx.once i

theorem findEach_frame (found : Nat → Search) (is : List Nat) (s : WrapperState) :
    (findEach found is s).2.2.activeIndex = s.activeIndex ∧
      ∀ i, ((findEach found is s).2.2.pInfo i).pHandle = (s.pInfo i).pHandle ∧
        ((findEach found is s).2.2.pInfo i).devHandles = (s.pInfo i).devHandles := by
  induction is generalizing s with
  | nil => exact ⟨rfl, fun _ => ⟨rfl, rfl⟩⟩
  | cons k is ih =>
      have hput (busp : Nat) (i : Nat) : ((s.putInfo k { s.pInfo k with busp }).pInfo i).pHandle = (s.pInfo i).pHandle ∧
          ((s.putInfo k { s.pInfo k with busp }).pInfo i).devHandles = (s.pInfo i).devHandles := by
        by_cases hi : i = k
        · subst hi
          rw [putInfo_self]
          exact ⟨rfl, rfl⟩
        · rw [putInfo_of_ne s _ hi]
          exact ⟨rfl, rfl⟩
      rw [findEach]
      split
      · split
        · obtain ⟨hactive, hinfo⟩ := ih (searched s found k)
          refine ⟨hactive, fun i => ?_⟩
          exact ⟨(hinfo i).1.trans (hput _ i).1, (hinfo i).2.trans (hput _ i).2⟩
        · obtain ⟨hactive, hinfo⟩ := ih (s.putInfo k { s.pInfo k with busp := 0 })
          refine ⟨hactive, fun i => ?_⟩
          exact ⟨(hinfo i).1.trans (hput 0 i).1, (hinfo i).2.trans (hput 0 i).2⟩
      · exact ih s

theorem usbFindBusses_frame {r : Int} (h : usbFindBusses found s = some (r, t)) :
    t.ploaded = (findEach found (List.range s.ploaded) s).2.2.ploaded ∧ t.activeIndex = s.activeIndex ∧
      ((findEach found (List.range s.ploaded) s).2.2.headBusp = (findEach found (List.range s.ploaded) s).2.2.usbBusses →
        t.headBusp = t.usbBusses) ∧
      ∀ i, (t.pInfo i).pHandle = (s.pInfo i).pHandle ∧ (t.pInfo i).devHandles = (s.pInfo i).devHandles := by
  obtain ⟨hactive, hinfo⟩ := findEach_frame found (List.range s.ploaded) s
  rw [usbFindBusses] at h
  rcases hfind : findEach found (List.range s.ploaded) s with ⟨any, ret, u⟩
  rw [hfind] at h hactive hinfo
  cases any with
  | false =>
      obtain ⟨-, rfl⟩ := Prod.mk.inj (Option.some.inj h)
      exact ⟨rfl, hactive, fun heads => heads, hinfo⟩
  | true =>
      simp only [Bool.not_true, Bool.false_eq_true, if_false, Option.bind_eq_bind, Option.bind_eq_some_iff] at h
      obtain ⟨⟨head, h'⟩, -, -, -, h⟩ := h
      obtain ⟨-, rfl⟩ := Prod.mk.inj (Option.some.inj h)
      exact ⟨rfl, hactive, fun _ => rfl, hinfo⟩

theorem Sound.usbFindBusses (hx : Sound x) (hext : Extends x.state found) (hs : NotSpliced found x.state) {r : Int}
    (h : FindBusses.usbFindBusses found x.state = some (r, t)) (hapart : DevicesApart t) : Sound { x with state := t } := by
  obtain ⟨r', t', h', hjoined, htidy, u, hfound, hinfo, hown⟩ := usbFindBusses_joins hx.tidy hext hs
  obtain ⟨-, rfl⟩ := Prod.mk.inj (Option.some.inj (h'.symm.trans h))
  obtain ⟨hploaded, hactive, hheads, hsame⟩ := usbFindBusses_frame h
  obtain ⟨hf, -⟩ := findEach_found (List.range x.state.ploaded) (fun i hi => List.mem_range.mp hi) hx.tidy.kept
    hx.tidy.hidden hext
  have hgrown (i : Nat) (hi : x.state.own i ≠ []) : t'.own i ≠ [] := by
    rw [hown]
    rcases hfound.grown.own i with heq | ⟨hexp, heq⟩
    · rwa [heq]
    · rw [heq]
      exact fun hnil => hi (List.sublist_nil.mp (hnil ▸ hext.sublist i hexp))
  refine ⟨htidy, hjoined, hheads ?_, fun i => ?_, hapart, fun i hi hl => ?_,
    fun dev i ho => ?_, fun i h hh => ?_, fun i => ?_⟩
  · rw [hf.grown.head, hf.grown.busses]
    exact hx.heads
  · have hp := hfound.pointed i (.inl (hx.pointed i))
    rw [Searches.Pointed] at hp ⊢
    simp only [hinfo, hown]
    exact hp
  · rw [hploaded, hf.grown.ploaded] at hi
    rw [(hsame i).1] at hl
    rw [hactive]
    exact hx.routes i hi hl
  · obtain ⟨hne, hdev, hh⟩ := hx.owners dev i ho
    refine ⟨hgrown i hne, hdev, ?_⟩
    simp only [(hsame i).2]
    exact hh
  · simp only [(hsame i).2] at hh
    exact hx.handles i h hh
  · simp only [(hsame i).2]
    exact hx.once i

theorem Sound.step (hx : Sound x) {o : Op} (hpromised : Promised o x) (hfit : Fitting o x) (h : step o x = some y) :
    Sound y := by
  cases o with
  | usbInit dir =>
      obtain ⟨t, ht, rfl⟩ := Option.map_eq_some_iff.mp h
      exact hx.usbInit hfit ht
  | usbFindBusses found =>
      obtain ⟨⟨r, t⟩, ht, rfl⟩ := Option.map_eq_some_iff.mp h
      exact hx.usbFindBusses hpromised.1 hfit ht (hpromised.2 r t ht)
  | usbFindDevices devices =>
      obtain rfl := Option.some.inj h
      exact hx.alike (alike_usbFindDevices devices x.state) hpromised hx.owners hx.handles hx.once
  | usbOpen device dev memory =>
      obtain ⟨⟨i, hi⟩, hfree⟩ := hpromised
      obtain ⟨⟨r, t⟩, ht, rfl⟩ := Option.map_eq_some_iff.mp h
      rw [Routing.usbOpen, hx.openIndex_eq hi hfit] at ht
      simp only [Option.bind_eq_bind, Option.bind_some, Int.toNat_natCast] at ht
      split at ht
      · omega
      · split at ht
        · obtain ⟨rfl, rfl⟩ := Prod.mk.inj (Option.some.inj ht)
          exact hx
        · split at ht
          · obtain ⟨rfl, rfl⟩ := Prod.mk.inj (Option.some.inj ht)
            exact hx.usbAddDev hi hfree
          · obtain ⟨rfl, rfl⟩ := Prod.mk.inj (Option.some.inj ht)
            exact hx
  | usbClose dev ret =>
      obtain ⟨i, ho⟩ := Option.ne_none_iff_exists'.mp hpromised
      have hindex := hx.getPindex_eq ho
      have hpos : ¬ (i : Int) < 0 := by omega
      have hclose : Routing.usbClose dev ret x.state = if !checkSymHdl (x.state.pInfo i) .usbClose then (failure, x.state)
          else (ret, Routing.usbDelDev dev i x.state) := by
        rw [Routing.usbClose, hindex, if_neg hpos, Int.toNat_natCast]
      have hy : y = ⟨(Routing.usbClose dev ret x.state).2,
          if 0 ≤ getPindex x.state dev && checkSymHdl (x.state.pInfo (getPindex x.state dev).toNat) .usbClose then
            Function.update x.owner dev none else x.owner⟩ := (Option.some.inj h).symm
      simp only [hclose, hindex, Int.toNat_natCast, Int.natCast_nonneg, decide_true, Bool.true_and] at hy
      subst hy
      cases checkSymHdl (x.state.pInfo i) .usbClose with
      | false => exact hx
      | true => exact hx.usbDelDev ho
  | lookupSymHdl dev sym =>
      have hy : y = { x with state := (Routing.lookupSymHdl dev sym x.state).2 } := (Option.some.inj h).symm
      subst hy
      rw [Routing.lookupSymHdl]
      split
      · exact hx
      · split
        · exact hx
        · exact hx.alike ⟨rfl, rfl, rfl, rfl, rfl, rfl, fun _ => rfl, fun _ => rfl, fun _ => rfl⟩ hx.apart hx.owners
            hx.handles hx.once

theorem sound_blank : Sound blankSession := by
  refine ⟨⟨⟨fun _ => .nil, fun _ _ h => absurd h List.not_mem_nil, fun _ => .nil, fun _ => List.not_mem_nil,
    fun _ _ _ h => absurd h List.not_mem_nil⟩, ⟨fun _ _ => rfl, fun _ _ => rfl⟩, fun _ => ⟨rfl, rfl⟩, fun _ _ h => nomatch h⟩,
    ⟨.nil, .nil⟩, rfl, fun _ => rfl, fun _ hi => absurd hi (Nat.not_lt_zero _), fun _ hi => absurd hi (Nat.not_lt_zero _),
    fun _ _ h => (nomatch h), fun _ _ h => absurd h List.not_mem_nil, fun _ => .nil⟩

theorem sound_run (h : Reachable step (fun o x => Promised o x ∧ Fitting o x) (· = blankSession) x) : Sound x := by
  refine h.invariant Sound ?_ fun o x y hx hok hs => hx.step hok.1 hok.2 hs
  rintro _ rfl
  exact sound_blank

/-- In runs whose steps fit, devices and handles are routed to the plug-in that the device
belongs to, and it is loaded. -/
theorem calls_routed (h : Reachable step (fun o x => Promised o x ∧ Fitting o x) (· = blankSession) x) :
    (∀ device i, Holds x.state i device → (x.state.activeIndex = -1 → ∃ j, OnFirstBus x.state j device) →
      openIndex x.state device = some (i : Int) ∧ (x.state.pInfo i).pHandle = true) ∧
    ∀ dev i, x.owner dev = some i → getPindex x.state dev = i ∧ (x.state.pInfo i).pHandle = true := by
  have hx := sound_run h
  have hloaded {i : Nat} (hown : x.state.own i ≠ []) : (x.state.pInfo i).pHandle = true :=
    pHandle_of_exports (exports_of_own hx.tidy.hidden hown)
  refine ⟨fun device i hi hfirst => ⟨hx.openIndex_eq hi hfirst, hloaded (own_of_holds hi)⟩, fun dev i ho => ?_⟩
  exact ⟨hx.getPindex_eq ho, hloaded (hx.owners dev i ho).1⟩

instance (s : WrapperState) (i j : Nat) : Decidable (Share s i j) :=
  inferInstanceAs (Decidable (∃ a ∈ s.own i, ∃ b ∈ s.own j, ∃ d ∈ devicesOf s a, d ∈ devicesOf s b))

instance (s : WrapperState) : Decidable (DevicesApart s) :=
  inferInstanceAs (Decidable (∀ i, i < s.ploaded → ∀ j, j < s.ploaded → Share s i j → i = j))

def twoModules (withInit : Nat → Bool) : Directory where
  readable := true
  entries := 2
  module := fun i => ⟨true, true, fun sym => sym ≠ .libusbInit || withInit i, success, none⟩

def oneDeviceEach (i : Nat) : Search where
  list := [i + 1]
  devices := fun b => [100 + b]
  ret := 1

def Unsearched (s : WrapperState) : Prop := s.ploaded = 2 ∧ ∀ i, i < 2 → s.own i = [] ∧ s.busses.lookup (i + 1) = none

instance (s : WrapperState) : Decidable (Unsearched s) :=
  inferInstanceAs (Decidable (s.ploaded = 2 ∧ ∀ i, i < 2 → s.own i = [] ∧ s.busses.lookup (i + 1) = none))

theorem extends_oneDeviceEach (h : Unsearched s) : Extends s oneDeviceEach := by
  have hx : Extends s oneBusEach :=
    extends_oneBusEach (fun i hi => .inl (h.2 i (h.1 ▸ hi.1)).1) fun i hi _ => (h.2 i (h.1 ▸ hi.1)).2
  exact ⟨hx.sublist, hx.nodup, hx.nonzero, hx.fresh, hx.apart⟩

theorem notSpliced_oneDeviceEach (h : Unsearched s) : NotSpliced oneDeviceEach s := by
  intro i j _ hi _ _ e _ he
  rw [(h.2 i (h.1 ▸ hi.1)).1] at he
  cases he

theorem promised_oneDeviceEach (h : Unsearched x.state) (hy : step (.usbFindBusses oneDeviceEach) x = some y)
    (hapart : DevicesApart y.state) : Promised (.usbFindBusses oneDeviceEach) x := by
  refine ⟨extends_oneDeviceEach h, fun r s hs => ?_⟩
  obtain ⟨⟨r', s'⟩, hs', rfl⟩ := Option.map_eq_some_iff.mp hy
  obtain ⟨-, rfl⟩ := Prod.mk.inj (Option.some.inj (hs'.symm.trans hs))
  exact hapart

theorem settled_twoModules : Settled (twoModules fun _ => true) blankState := by
  have hloads (i : Nat) (hi : i < 2) : Loads (twoModules fun _ => true) blankState i :=
    ⟨rfl, by decide, by rw [maxPlugins]; omega, fun j hj => .inl (Nat.lt_of_le_of_lt hj hi), rfl, rfl⟩
  refine ⟨fun _ a hfast => ?_, ?_⟩
  · -- with two successes neither of them is the only one
    have ha : a < 2 := (hfast.loads.2.2.2.1 a (Nat.le_refl a)).resolve_right Bool.false_ne_true
    obtain ⟨hquiet, -⟩ := hfast.others (1 - a) (by omega) (hloads _ (by omega)) (.inr (.inl ⟨rfl, rfl⟩))
    exact nomatch hquiet
  · rintro ⟨e, -, -, he⟩
    have hne : success ≠ pluginExclusive := by decide
    exact absurd he hne

theorem calls_routed_two : ∃ x : Session, x.owner 7 = some 1 ∧ getPindex x.state 7 = 1 ∧ (x.state.pInfo 1).pHandle = true := by
  have hrun : (step (.usbInit (twoModules fun _ => true)) blankSession).any (fun x => decide (Unsearched x.state ∧
      (step (.usbFindBusses oneDeviceEach) x).any (fun y => decide (DevicesApart y.state ∧ Holds y.state 1 102 ∧
        y.state.own 1 = [2] ∧ 102 ∈ devicesOf y.state 2 ∧ y.owner 7 = none ∧
        (step (.usbOpen 102 7 true) y).any (fun z => decide (z.owner 7 = some 1)) = true)) = true)) = true := by
    decide +kernel
  obtain ⟨x, hx, hdec⟩ := (Option.any_eq_true _ _).mp hrun
  obtain ⟨hblank, hrun⟩ := of_decide_eq_true hdec
  obtain ⟨y, hy, hdec⟩ := (Option.any_eq_true _ _).mp hrun
  obtain ⟨hapart, hholds, hown, hdev, hfree, hrun⟩ := of_decide_eq_true hdec
  obtain ⟨z, hz, hdec⟩ := (Option.any_eq_true _ _).mp hrun
  have howner := of_decide_eq_true hdec
  have hinit : Reachable step (fun o x => Promised o x ∧ Fitting o x) (· = blankSession) x :=
    .next (.usbInit (twoModules fun _ => true)) (.start rfl) ⟨trivial, fun _ => settled_twoModules⟩ hx
  have hfind : Reachable step (fun o x => Promised o x ∧ Fitting o x) (· = blankSession) y :=
    .next (.usbFindBusses oneDeviceEach) hinit ⟨promised_oneDeviceEach hblank hy hapart, notSpliced_oneDeviceEach hblank⟩ hy
  have hreach : Reachable step (fun o x => Promised o x ∧ Fitting o x) (· = blankSession) z :=
    .next (.usbOpen 102 7 true) hfind ⟨⟨⟨1, hholds⟩, fun _ => hfree⟩, fun _ => ⟨1, 2, [], hown, hdev⟩⟩ hz
  obtain ⟨hindex, hloaded⟩ := (calls_routed hreach).2 7 1 howner
  exact ⟨z, howner, hindex, hloaded⟩

/-- Behind a success, a plug-in without a libusb_init leaves the other one the active index. -/
theorem calls_not_routed : ¬ ∀ x, Reachable step Promised (· = blankSession) x →
    (∀ device i, Holds x.state i device → openIndex x.state device = some (i : Int) ∧ (x.state.pInfo i).pHandle = true) ∧
    ∀ dev i, x.owner dev = some i → getPindex x.state dev = i ∧ (x.state.pInfo i).pHandle = true := by
  intro hall
  have hrun : (step (.usbInit (twoModules fun i => i = 0)) blankSession).any (fun x => decide (Unsearched x.state ∧
      (step (.usbFindBusses oneDeviceEach) x).any (fun y => decide (DevicesApart y.state ∧ Holds y.state 1 102 ∧
        openIndex y.state 102 = some 0)) = true)) = true := by
    decide +kernel
  obtain ⟨x, hx, hdec⟩ := (Option.any_eq_true _ _).mp hrun
  obtain ⟨hblank, hrun⟩ := of_decide_eq_true hdec
  obtain ⟨y, hy, hdec⟩ := (Option.any_eq_true _ _).mp hrun
  obtain ⟨hapart, hholds, hindex⟩ := of_decide_eq_true hdec
  have hinit : Reachable step Promised (· = blankSession) x :=
    .next (.usbInit (twoModules fun i => i = 0)) (.start rfl) trivial hx
  have hreach : Reachable step Promised (· = blankSession) y :=
    .next (.usbFindBusses oneDeviceEach) hinit (promised_oneDeviceEach hblank hy hapart) hy
  have hright := ((hall y hreach).1 102 1 hholds).1
  rw [hindex] at hright
  exact absurd hright (by decide)

end OiUserland.Wrapper.RoutingRuns
