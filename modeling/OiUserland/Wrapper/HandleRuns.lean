import OiUserland.Wrapper.HandleLists

namespace OiUserland.Wrapper.HandleRuns

open Lib.DoubleLinks Lib.Runs HandleLists
open Plugins hiding setNext
open Routing hiding getIndexDevhdl getPindex usbAddDev usbDelDev usbOpen usbClose

variable {w : WrapperState} {x : Lists} {hs : Nat → List DevHandle} {lists : Nat → List Nat}
    {cells : Cells DevHandle} {l l₁ : List Nat}
  {dev device devh i n pindex : Nat} {ret : Int}

def withHandles (w : WrapperState) (hs : Nat → List DevHandle) : WrapperState :=
  { w with pInfo := fun i => { w.pInfo i with devHandles := hs i } }

theorem findDevice_withHandles (w : WrapperState) (hs : Nat → List DevHandle) (device n busp : Nat) :
    findDevice (withHandles w hs) device n busp = findDevice w device n busp := by
  induction n generalizing busp with
  | zero => rfl
  | succ n ih =>
      rw [findDevice, findDevice]
      simp only [ih]
      rfl

theorem openIndex_withHandles (w : WrapperState) (hs : Nat → List DevHandle) (device : Nat) :
    openIndex (withHandles w hs) device = openIndex w device := by
  rw [openIndex, openIndex, Routing.getIndexDevicep, Routing.getIndexDevicep, findDevice_withHandles]
  rfl

theorem putHandles_withHandles (w : WrapperState) (hs : Nat → List DevHandle) (pindex : Nat) (g : List DevHandle) :
    (withHandles w hs).putInfo pindex { (withHandles w hs).pInfo pindex with devHandles := g } =
      withHandles w (Function.update hs pindex g) := by
  rw [WrapperState.putInfo, withHandles, withHandles]
  refine congrArg (fun f => { w with pInfo := f }) (funext fun i => ?_)
  by_cases hi : i = pindex
  · subst hi
    rw [Function.update_self, Function.update_self]
  · rw [Function.update_of_ne hi, Function.update_of_ne hi]

theorem hasHandle_eq (hl : LinkedIn cells (l₁ ++ l)) (hn : l.length ≤ n) :
    hasHandle dev n (l.headD 0) cells = some (l.any fun d => devOf cells d = some dev) := by
  induction l generalizing n l₁ with
  | nil => cases n <;> rfl
  | cons c l ih =>
      obtain ⟨n, rfl⟩ : ∃ m, n = m + 1 := ⟨n - 1, by rw [List.length_cons] at hn; omega⟩
      obtain ⟨item, hx⟩ := hl.lookup
      have hc : c ≠ 0 := hl.ne_zero (List.mem_append_right _ (List.mem_cons_self ..))
      have hdev : devOf cells c = some item.dev := by rw [devOf, itemOf, hx, Option.map_some, Option.map_some]
      rw [hasHandle, List.headD_cons, if_neg hc, hx, Option.bind_some, List.any_cons, hdev]
      by_cases heq : dev = item.dev
      · rw [if_pos heq, heq, decide_eq_true rfl, Bool.true_or]
      · rw [List.append_cons] at hl
        rw [if_neg heq, ih hl (Nat.le_of_succ_le_succ hn),
          decide_eq_false fun h => heq (Option.some.inj h).symm, Bool.false_or]

theorem getIndexFrom_eq (hx : Represents x hs lists) (is : List Nat) : getIndexFrom dev x is =
    some (match is.find? fun i => (hs i).any fun h => h.dev = dev with
      | some pindex => (pindex : Int)
      | none => failure) := by
  induction is with
  | nil => rfl
  | cons i is ih =>
      have hany : ((lists i).any fun d => devOf x.cells d = some dev) = (hs i).any fun h => h.dev = dev := by
        have hmap := congrArg (List.any · fun v => v.map DevHandle.dev = some dev) (hx.items i)
        simp only [List.any_map, Function.comp_def, Option.map_some, Option.some_inj] at hmap
        exact hmap
      have hwalk := @hasHandle_eq x.cells (lists i) [] dev x.cells.keys.length (hx.linked i) (hx.linked i).length_le
      rw [getIndexFrom, hx.heads, hwalk, Option.bind_some, hany, List.find?_cons]
      cases (hs i).any fun h => h.dev = dev with
      | true => rfl
      | false => exact ih

theorem getPindex_eq (hx : Represents x hs lists) :
    getPindex w dev x = some (Routing.getPindex (withHandles w hs) dev) := by
  have hindex : getIndexDevhdl w dev x = some (Routing.getIndexDevhdl (withHandles w hs) dev) :=
    getIndexFrom_eq hx (List.range w.ploaded)
  rw [getPindex, Routing.getPindex, hindex, Option.map_some]
  by_cases hdev : dev = 0
  · rw [if_pos hdev, if_pos hdev]
  · rw [if_neg hdev, if_neg hdev]
    by_cases hactive : w.activeIndex = -1
    · rw [if_pos hactive]
      exact congrArg some (if_pos hactive).symm
    · rw [if_neg hactive]
      exact congrArg some (if_neg hactive).symm

theorem usbOpen_refines (hx : Represents x hs lists) (hfree : devh ≠ 0 → x.cells.lookup devh = none) :
    usbOpen w device dev devh x = none ∧ Routing.usbOpen device dev (devh ≠ 0) (withHandles w hs) = none ∨
    ∃ r x' hs' lists', usbOpen w device dev devh x = some (r, x') ∧
      Routing.usbOpen device dev (devh ≠ 0) (withHandles w hs) = some (r, withHandles w hs') ∧
      Represents x' hs' lists' := by
  rw [usbOpen, Routing.usbOpen, openIndex_withHandles]
  simp only [Option.bind_eq_bind]
  cases openIndex w device with
  | none => exact .inl ⟨rfl, rfl⟩
  | some pindex =>
      right
      simp only [Option.bind_some]
      by_cases hneg : pindex < 0
      · rw [if_pos hneg, if_pos hneg]
        exact ⟨0, x, hs, lists, rfl, rfl, hx⟩
      · rw [if_neg hneg, if_neg hneg]
        have hsym : checkSymHdl ((withHandles w hs).pInfo pindex.toNat)  .usbOpen =
          checkSymHdl (w.pInfo pindex.toNat) .usbOpen := rfl
        rw [hsym]
        by_cases hopen : (!checkSymHdl (w.pInfo pindex.toNat) .usbOpen) = true
        · rw [if_pos hopen, if_pos hopen]
          exact ⟨0, x, hs, lists, rfl, rfl, hx⟩
        · rw [if_neg hopen, if_neg hopen]
          by_cases hdevh : devh = 0
          · obtain ⟨x', hrun, hx'⟩ := @usbAddDev_fails x hs lists dev device pindex.toNat hx
            refine ⟨0, x', hs, lists, ?_, ?_, hx'⟩
            · rw [hdevh, hrun, Option.bind_some]
              rfl
            · rw [if_neg (by simpa using hdevh)]
              rfl
          · obtain ⟨x', hrun, hx'⟩ := @usbAddDev_eq x hs lists dev device devh pindex.toNat hx hdevh (hfree hdevh)
            refine ⟨dev, x', _, _, ?_, ?_, hx'⟩
            · rw [hrun, Option.bind_some]
              rfl
            · rw [if_pos (by simpa using hdevh)]
              exact congrArg (fun s => some (dev, s)) (putHandles_withHandles ..)

theorem usbClose_refines (hx : Represents x hs lists) : ∃ r x' hs' lists', usbClose w dev ret x = some (r, x') ∧
    Routing.usbClose dev ret (withHandles w hs) = (r, withHandles w hs') ∧ Represents x' hs' lists' := by
  rw [usbClose, Routing.usbClose, getPindex_eq hx, Option.bind_eq_bind, Option.bind_some]
  generalize Routing.getPindex (withHandles w hs) dev = pindex
  by_cases hneg : pindex < 0
  · exact ⟨pindex, x, hs, lists, if_pos hneg, if_pos hneg, hx⟩
  · rw [if_neg hneg, if_neg hneg]
    have hsym : checkSymHdl ((withHandles w hs).pInfo pindex.toNat)  .usbClose =
      checkSymHdl (w.pInfo pindex.toNat) .usbClose := rfl
    rw [hsym]
    by_cases hclose : (!checkSymHdl (w.pInfo pindex.toNat) .usbClose) = true
    · exact ⟨failure, x, hs, lists, if_pos hclose, if_pos hclose, hx⟩
    · rw [if_neg hclose, if_neg hclose]
      obtain ⟨x', lists', hrun, hx'⟩ := @usbDelDev_eq x hs lists dev pindex.toNat hx
      refine ⟨ret, x', _, lists', ?_, congrArg (Prod.mk ret) (putHandles_withHandles ..), hx'⟩
      rw [hrun]
      rfl

theorem handles_eq {hs hs' : Nat → List DevHandle} (h : withHandles w hs = withHandles w hs') : hs = hs' :=
  congrArg (fun s i => (WrapperState.pInfo s i).devHandles) h

/-- A plug-in whose usb_open is called for a device. -/
def Called (w : WrapperState) (device pindex : Nat) : Prop :=
  openIndex w device = some (pindex : Int) ∧ checkSymHdl (w.pInfo pindex) .usbOpen = true

/-- What usb_open does: nothing, or the handle of a plug-in that has been called is remembered. -/
theorem usbOpen_cases {hs' : Nat → List DevHandle} {memory : Bool} {r : Nat}
    (h : Routing.usbOpen device dev memory (withHandles w hs) = some (r, withHandles w hs')) :
    (r = 0 ∧ hs' = hs ∧ ∀ pindex, Called w device pindex → memory = false) ∨
    ∃ pindex, Called w device pindex ∧ memory = true ∧ r = dev ∧
      hs' = Function.update hs pindex (hs pindex ++ [⟨dev, device⟩]) := by
  rw [Routing.usbOpen, openIndex_withHandles, Option.bind_eq_bind] at h
  cases hindex : openIndex w device with
  | none =>
      rw [hindex] at h
      cases h
  | some p =>
      rw [hindex, Option.bind_some] at h
      by_cases hneg : p < 0
      · rw [if_pos hneg] at h
        obtain ⟨rfl, hsame⟩ := Prod.mk.inj (Option.some.inj h)
        refine .inl ⟨rfl, (handles_eq hsame).symm, fun pindex hcalled => ?_⟩
        have hp := Option.some.inj (hindex.symm.trans hcalled.1)
        omega
      · obtain ⟨pindex, rfl⟩ : ∃ pindex : Nat, p = pindex := ⟨p.toNat, by omega⟩
        rw [if_neg hneg, Int.toNat_natCast] at h
        have hsym : checkSymHdl ((withHandles w hs).pInfo pindex)  .usbOpen =
          checkSymHdl (w.pInfo pindex) .usbOpen := rfl
        rw [hsym] at h
        cases hopen : checkSymHdl (w.pInfo pindex) .usbOpen with
        | false =>
            rw [hopen, Bool.not_false, if_pos rfl] at h
            obtain ⟨rfl, hsame⟩ := Prod.mk.inj (Option.some.inj h)
            refine .inl ⟨rfl, (handles_eq hsame).symm, fun q hcalled => ?_⟩
            have hq : q = pindex := by
              have hp := Option.some.inj (hindex.symm.trans hcalled.1)
              omega
            rw [hq] at hcalled
            exact absurd (hopen.symm.trans hcalled.2) Bool.false_ne_true
        | true =>
            rw [hopen, Bool.not_true, if_neg Bool.false_ne_true] at h
            cases memory with
            | false =>
                rw [if_neg Bool.false_ne_true] at h
                obtain ⟨rfl, hsame⟩ := Prod.mk.inj (Option.some.inj h)
                exact .inl ⟨rfl, (handles_eq hsame).symm, fun _ _ => rfl⟩
            | true =>
                rw [if_pos rfl] at h
                obtain ⟨rfl, hadd⟩ := Prod.mk.inj (Option.some.inj h)
                refine .inr ⟨pindex, ⟨hindex, hopen⟩, rfl, rfl, (@handles_eq w _ _ ?_).symm⟩
                exact (putHandles_withHandles ..).symm.trans hadd

/-- What usb_close does: nothing, or the handle is forgotten where the call goes. -/
theorem usbClose_cases {hs' : Nat → List DevHandle} {r : Int}
    (h : Routing.usbClose dev ret (withHandles w hs) = (r, withHandles w hs')) :
    (hs' = hs ∧ ¬ (0 ≤ Routing.getPindex (withHandles w hs) dev ∧
      checkSymHdl (w.pInfo (Routing.getPindex (withHandles w hs) dev).toNat) .usbClose = true)) ∨
    ∃ pindex : Nat, Routing.getPindex (withHandles w hs) dev = pindex ∧
    checkSymHdl (w.pInfo pindex) .usbClose = true ∧
      hs' = Function.update hs pindex ((hs pindex).eraseP fun h => h.dev = dev) := by
  rw [Routing.usbClose] at h
  generalize Routing.getPindex (withHandles w hs) dev = p at h ⊢
  by_cases hneg : p < 0
  · rw [if_pos hneg] at h
    exact .inl ⟨(handles_eq (Prod.mk.inj h).2).symm, fun hall => by omega⟩
  · obtain ⟨pindex, rfl⟩ : ∃ pindex : Nat, p = pindex := ⟨p.toNat, by omega⟩
    rw [if_neg hneg, Int.toNat_natCast] at h
    have hsym : checkSymHdl ((withHandles w hs).pInfo pindex)  .usbClose =
      checkSymHdl (w.pInfo pindex) .usbClose := rfl
    rw [hsym] at h
    cases hclose : checkSymHdl (w.pInfo pindex) .usbClose with
    | false =>
        rw [hclose, Bool.not_false, if_pos rfl] at h
        refine .inl ⟨(handles_eq (Prod.mk.inj h).2).symm, fun hall => ?_⟩
        rw [Int.toNat_natCast, hclose] at hall
        exact Bool.false_ne_true hall.2
    | true =>
        rw [hclose, Bool.not_true, if_neg Bool.false_ne_true] at h
        refine .inr ⟨pindex, rfl, hclose, (@handles_eq w _ _ ?_).symm⟩
        exact (putHandles_withHandles ..).symm.trans (Prod.mk.inj h).2

section Runs

structure Session where
  lists : Lists
  opener : Nat → Option Nat

inductive Op
  | usbOpen (device dev devh : Nat)
  | usbClose (dev : Nat) (ret : Int)

def step (w : WrapperState) : Op → Session → Option Session
  | .usbOpen device dev devh, x => do
      let pindex ← openIndex w device
      let (r, lists) ← HandleLists.usbOpen w device dev devh x.lists
      return ⟨lists, if r = 0 then x.opener else Function.update x.opener r (some pindex.toNat)⟩
  | .usbClose dev ret, x => do
      let pindex ← HandleLists.getPindex w dev x.lists
      let (_, lists) ← HandleLists.usbClose w dev ret x.lists
      -- without a usb_close of the plug-in the handle stays open
      return ⟨lists, if 0 ≤ pindex ∧ checkSymHdl (w.pInfo pindex.toNat) .usbClose = true then
        Function.update x.opener dev none else x.opener⟩

def blankSession : Session := ⟨⟨fun _ => 0, ∅⟩, fun _ => none⟩

/-- malloc returns a cell that is free, and a plug-in a handle that is not in use. -/
def Promised : Op → Session → Prop
  | .usbOpen _ dev devh, x => (dev ≠ 0 → x.opener dev = none) ∧ (devh ≠ 0 → x.lists.cells.lookup devh = none)
  | .usbClose _ _, _ => True

/-- The plug-in that is called opens the device, or there is no memory to put it on the list. -/
def Opens (w : WrapperState) : Op → Prop
  | .usbOpen device dev devh => ∀ pindex, Called w device pindex → devh ≠ 0 → dev ≠ 0
  | .usbClose _ _ => True

/-- The lists are well formed, and have the handles that are open, each once and under the plug-in that
opened it. -/
structure Listed (x : Session) (lists : Nat → List Nat) : Prop where
  linked : ∀ i, LinkedIn x.lists.cells (lists i)
  heads : ∀ i, x.lists.devHandles i = (lists i).headD 0
  apart : ∀ i j d, d ∈ lists i → d ∈ lists j → i = j
  handles : ∀ i dev, some dev ∈ (lists i).map (devOf x.lists.cells) ↔ dev ≠ 0 ∧ x.opener dev = some i
  once : ∀ i, ((lists i).map (devOf x.lists.cells)).Nodup

structure Sound (w : WrapperState) (hs : Nat → List DevHandle) (opener : Nat → Option Nat) : Prop where
  handles : ∀ i dev, dev ∈ (hs i).map DevHandle.dev ↔ dev ≠ 0 ∧ opener dev = some i
  once : ∀ i, ((hs i).map DevHandle.dev).Nodup
  routed : ∀ dev i, opener dev = some i → w.activeIndex = -1 ∧ i < w.ploaded ∨ w.activeIndex = i

variable {opener : Nat → Option Nat} {y y' : Session} {o : Op}

theorem devOf_map (hx : Represents x hs lists) (i : Nat) :
    (lists i).map (devOf x.cells) = ((hs i).map DevHandle.dev).map some := by
  have hitems := congrArg (List.map (Option.map DevHandle.dev)) (hx.items i)
  rw [List.map_map, List.map_map] at hitems
  rw [List.map_map]
  exact hitems

theorem Sound.listed (hy : Represents y.lists hs lists) (h : Sound w hs y.opener) : Listed y lists := by
  refine ⟨hy.linked, hy.heads, hy.apart, fun i dev => ?_, fun i => ?_⟩
  · rw [devOf_map hy, List.mem_map_of_injective (fun _ _ heq => Option.some.inj heq)]
    exact h.handles i dev
  · rw [devOf_map hy]
    exact (h.once i).map fun _ _ heq => Option.some.inj heq

theorem findDevice_range {device n busp : Nat} {p : Int} (h : findDevice w device n busp = some p) :
    p = failure ∨ ∃ q : Nat, q < w.ploaded ∧ p = q := by
  induction n generalizing busp with
  | zero =>
      rw [findDevice] at h
      split at h
      · exact .inl (Option.some.inj h).symm
      · cases h
  | succ n ih =>
      rw [findDevice] at h
      split at h
      · exact .inl (Option.some.inj h).symm
      · obtain ⟨bus, -, h⟩ := Option.bind_eq_some_iff.mp h
        cases hplugin : (if device ∈ bus.devices then pluginOf w busp else none) with
        | none =>
            rw [hplugin] at h
            exact ih h
        | some q =>
            rw [hplugin] at h
            split at hplugin
            · exact .inr ⟨q, List.mem_range.mp (List.mem_of_find?_eq_some hplugin), (Option.some.inj h).symm⟩
            · cases hplugin

theorem Called.routed (h : Called w device pindex) : w.activeIndex = -1 ∧ pindex < w.ploaded ∨
    w.activeIndex = pindex := by
  have hindex := h.1
  rw [openIndex] at hindex
  split at hindex
  · rename_i hactive
    rcases findDevice_range hindex with heq | ⟨q, hq, heq⟩
    · have hfailure : failure = -1 := rfl
      omega
    · obtain rfl := Int.ofNat.inj heq
      exact .inl ⟨hactive, hq⟩
  · exact .inr (Option.some.inj hindex)

theorem getIndexDevhdl_of_find {s : WrapperState}
    (h : ((List.range s.ploaded).find? fun i => (s.pInfo i).devHandles.any fun h => h.dev = dev) = some i) :
    Routing.getIndexDevhdl s dev = i := by
  rw [Routing.getIndexDevhdl, h]

theorem Sound.getPindex_eq (h : Sound w hs opener) (hdev : dev ≠ 0) (ho : opener dev = some i) :
    Routing.getPindex (withHandles w hs) dev = i := by
  rw [Routing.getPindex, if_neg hdev]
  rcases h.routed dev i ho with ⟨hactive, hlt⟩ | hactive
  · have hfind : ((List.range w.ploaded).find? fun i => (hs i).any fun h => h.dev = dev) = some i := by
      cases hfind : (List.range w.ploaded).find? fun i => (hs i).any fun h => h.dev = dev with
      | none =>
          obtain ⟨g, hg, hgdev⟩ := List.mem_map.mp ((h.handles i dev).mpr ⟨hdev, ho⟩)
          refine absurd ?_ (List.find?_eq_none.mp hfind i (List.mem_range.mpr hlt))
          exact List.any_eq_true.mpr ⟨g, hg, decide_eq_true hgdev⟩
      | some j =>
          obtain ⟨g, hg, hgdev⟩ := List.any_eq_true.mp
            (List.find?_some (p := fun i => (hs i).any fun h => h.dev = dev) hfind)
          have hj := ((h.handles j dev).mp (List.mem_map.mpr ⟨g, hg, of_decide_eq_true hgdev⟩)).2
          exact ho.symm.trans hj |>.symm
    have hindex : Routing.getIndexDevhdl (withHandles w hs) dev = i := getIndexDevhdl_of_find hfind
    rw [hindex]
    refine (if_pos hactive).trans (if_neg ?_)
    omega
  · refine (if_neg ?_).trans hactive
    have hi : (withHandles w hs).activeIndex = i := hactive
    omega

theorem Sound.add (h : Sound w hs opener) (hdev : dev ≠ 0) (hfree : opener dev = none)
    (hcalled : Called w device pindex) :
    Sound w (Function.update hs pindex (hs pindex ++ [⟨dev, device⟩]))
    (Function.update opener dev (some pindex)) := by
  have hnot (i : Nat) : dev ∉ (hs i).map DevHandle.dev := fun hin => by
    have ho := ((h.handles i dev).mp hin).2
    rw [hfree] at ho
    cases ho
  refine ⟨fun i d => ?_, fun i => ?_, fun d i ho => ?_⟩
  · have hmem : d ∈ (Function.update hs pindex (hs pindex ++ [⟨dev, device⟩]) i).map DevHandle.dev ↔
        d ∈ (hs i).map DevHandle.dev ∨ i = pindex ∧ d = dev := by
      by_cases hi : i = pindex
      · subst hi
        rw [Function.update_self, List.map_append, List.mem_append, List.map_singleton,
          List.mem_singleton, and_iff_right rfl]
      · rw [Function.update_of_ne hi]
        exact (or_iff_left fun hall => hi hall.1).symm
    rw [hmem, h.handles i d]
    by_cases hd : d = dev
    · subst hd
      rw [Function.update_self, hfree, Option.some_inj, eq_comm]
      exact ⟨fun hor => ⟨hdev, (hor.resolve_left fun hall => nomatch hall.2).1.symm⟩,
        fun hall => .inr ⟨hall.2.symm, rfl⟩⟩
    · rw [Function.update_of_ne hd]
      exact or_iff_left fun hall => hd hall.2
  · by_cases hi : i = pindex
    · subst hi
      rw [Function.update_self, List.map_append, List.map_singleton]
      refine List.nodup_append.mpr ⟨h.once i, List.nodup_singleton _, fun d hd e he => ?_⟩
      rw [List.mem_singleton.mp he]
      rintro rfl
      exact hnot i hd
    · rw [Function.update_of_ne hi]
      exact h.once i
  · by_cases hd : d = dev
    · rw [hd, Function.update_self] at ho
      obtain rfl := Option.some.inj ho
      exact hcalled.routed
    · rw [Function.update_of_ne hd] at ho
      exact h.routed d i ho

theorem not_mem_eraseP {g : List DevHandle} (hnodup : (g.map DevHandle.dev).Nodup) :
    dev ∉ (g.eraseP fun h => h.dev = dev).map DevHandle.dev := by
  induction g with
  | nil => exact List.not_mem_nil
  | cons a g ih =>
      obtain ⟨hnot, hrest⟩ := List.nodup_cons.mp hnodup
      by_cases ha : a.dev = dev
      · rw [List.eraseP_cons_of_pos (by simpa using ha), ← ha]
        exact hnot
      · rw [List.eraseP_cons_of_neg (by simpa using ha), List.map_cons]
        exact List.not_mem_cons_of_ne_of_not_mem (Ne.symm ha) (ih hrest)

theorem Sound.remove (h : Sound w hs opener) (hdev : dev ≠ 0)
    (hpindex : Routing.getPindex (withHandles w hs) dev = pindex) :
    Sound w (Function.update hs pindex ((hs pindex).eraseP fun h => h.dev = dev))
    (Function.update opener dev none) := by
  have hwhere (i : Nat) (hin : dev ∈ (hs i).map DevHandle.dev) : i = pindex := by
    have hi := h.getPindex_eq hdev ((h.handles i dev).mp hin).2
    exact Int.ofNat.inj (hi.symm.trans hpindex)
  refine ⟨fun i d => ?_, fun i => ?_, fun d i ho => ?_⟩
  · by_cases hd : d = dev
    · subst hd
      rw [Function.update_self]
      refine iff_of_false (fun hin => ?_) (fun hall => nomatch hall.2)
      by_cases hi : i = pindex
      · subst hi
        rw [Function.update_self] at hin
        exact not_mem_eraseP (h.once i) hin
      · rw [Function.update_of_ne hi] at hin
        exact hi (hwhere i hin)
    · rw [Function.update_of_ne hd, ← h.handles i d]
      by_cases hi : i = pindex
      · subst hi
        rw [Function.update_self, List.mem_map, List.mem_map]
        refine exists_congr fun g => and_congr_left fun hg => List.mem_eraseP_of_neg ?_
        rw [hg]
        exact decide_eq_false hd ▸ Bool.false_ne_true
      · rw [Function.update_of_ne hi]
  · by_cases hi : i = pindex
    · subst hi
      rw [Function.update_self]
      exact (h.once i).sublist ((List.eraseP_sublist ..).map _)
    · rw [Function.update_of_ne hi]
      exact h.once i
  · by_cases hd : d = dev
    · rw [hd, Function.update_self] at ho
      cases ho
    · rw [Function.update_of_ne hd] at ho
      exact h.routed d i ho

/-- A usb_open in memory: nothing changes, or a plug-in has been called whose handle is put on its list. -/
theorem step_usbOpen (hy : Represents y.lists hs lists) (hp : Promised (.usbOpen device dev devh) y)
    (h : step w (.usbOpen device dev devh) y = some y') :
    (y'.opener = y.opener ∧ (∀ pindex, Called w device pindex → devh = 0) ∧
    ∃ lists', Represents y'.lists hs lists') ∨
    ∃ pindex lists', Called w device pindex ∧ devh ≠ 0 ∧
    y'.opener = (if dev = 0 then y.opener else Function.update y.opener dev (some pindex)) ∧
      Represents y'.lists (Function.update hs pindex (hs pindex ++ [⟨dev, device⟩])) lists' := by
  obtain ⟨p, hindex, h⟩ := Option.bind_eq_some_iff.mp h
  obtain ⟨⟨r, x'⟩, hopen, h⟩ := Option.bind_eq_some_iff.mp h
  obtain rfl := Option.some.inj h
  rcases @usbOpen_refines w y.lists hs lists dev device devh hy hp.2 with
    ⟨hnone, -⟩ | ⟨r', x'', hs', lists', hopen', habstract, hx'⟩
  · exact nomatch hnone.symm.trans hopen
  · obtain ⟨rfl, rfl⟩ := Prod.mk.inj (Option.some.inj (hopen.symm.trans hopen'))
    rcases usbOpen_cases habstract with ⟨rfl, rfl, hno⟩ | ⟨pindex, hcalled, hmemory, rfl, rfl⟩
    · refine .inl ⟨?_, fun pindex hcalled => ?_, lists', hx'⟩
      · rfl
      · exact not_not.mp (of_decide_eq_false (hno pindex hcalled))
    · have hp := Option.some.inj (hindex.symm.trans hcalled.1)
      refine .inr ⟨pindex, lists', hcalled, of_decide_eq_true hmemory, ?_, hx'⟩
      rw [hp, Int.toNat_natCast]

/-- A usb_close in memory: nothing changes, or the handle is taken from the list of its plug-in. -/
theorem step_usbClose (hy : Represents y.lists hs lists) (h : step w (.usbClose dev ret) y = some y') :
    (y'.opener = y.opener ∧ ∃ lists', Represents y'.lists hs lists') ∨
    ∃ pindex : Nat, ∃ lists', Routing.getPindex (withHandles w hs) dev = pindex ∧
    y'.opener = Function.update y.opener dev none ∧
      Represents y'.lists (Function.update hs pindex ((hs pindex).eraseP fun h => h.dev = dev)) lists' := by
  obtain ⟨p, hpindex, h⟩ := Option.bind_eq_some_iff.mp h
  obtain ⟨⟨r, x'⟩, hclose, h⟩ := Option.bind_eq_some_iff.mp h
  obtain rfl := Option.some.inj h
  obtain rfl := Option.some.inj ((getPindex_eq hy).symm.trans hpindex)
  obtain ⟨r', x'', hs', lists', hclose', habstract, hx'⟩ := @usbClose_refines w y.lists hs lists dev ret hy
  obtain ⟨rfl, rfl⟩ := Prod.mk.inj (Option.some.inj (hclose.symm.trans hclose'))
  rcases usbClose_cases habstract with ⟨rfl, hno⟩ | ⟨pindex, hp, hsym, rfl⟩
  · exact .inl ⟨if_neg hno, lists', hx'⟩
  · refine .inr ⟨pindex, lists', hp, if_pos ?_, hx'⟩
    rw [hp, Int.toNat_natCast]
    exact ⟨Int.natCast_nonneg pindex, hsym⟩

theorem Sound.step (hy : Represents y.lists hs lists) (hs' : Sound w hs y.opener) (hp : Promised o y)
    (hopens : Opens w o)
    (h : HandleRuns.step w o y = some y') : ∃ hs' lists', Represents y'.lists hs' lists' ∧
    Sound w hs' y'.opener := by
  cases o with
  | usbOpen device dev devh =>
      rcases step_usbOpen hy hp h with ⟨hopener, -, lists', hy'⟩ | ⟨pindex, lists', hcalled, hdevh, hopener, hy'⟩
      · rw [hopener]
        exact ⟨hs, lists', hy', hs'⟩
      · have hdev : dev ≠ 0 := hopens pindex hcalled hdevh
        rw [hopener, if_neg hdev]
        exact ⟨_, lists', hy', hs'.add hdev (hp.1 hdev) hcalled⟩
  | usbClose dev ret =>
      rcases step_usbClose hy h with ⟨hopener, lists', hy'⟩ | ⟨pindex, lists', hpindex, hopener, hy'⟩
      · rw [hopener]
        exact ⟨hs, lists', hy', hs'⟩
      · have hdev : dev ≠ 0 := by
          rintro rfl
          rw [Routing.getPindex, if_pos rfl, einval] at hpindex
          omega
        rw [hopener]
        exact ⟨_, lists', hy', hs'.remove hdev hpindex⟩

/-- A plug-in that returns NULL gets an entry all the same. -/
theorem not_listed_null (hy : Represents y.lists hs lists) (hp : Promised (.usbOpen device 0 devh) y)
    (hcalled : Called w device pindex)
    (hdevh : devh ≠ 0) (h : step w (.usbOpen device 0 devh) y = some y') (lists₂ : Nat → List Nat) :
    ¬ Listed y' lists₂ := by
  rcases step_usbOpen hy hp h with ⟨-, hno, -⟩ | ⟨q, lists', -, -, -, hy'⟩
  · exact fun _ => hdevh (hno pindex hcalled)
  · intro hlisted
    have hsame : lists₂ q = lists' q := by
      have hchain := (hlisted.linked q).forth
      rw [← hlisted.heads, hy'.heads] at hchain
      exact hchain.unique (hy'.linked q).forth
    refine ((hlisted.handles q 0).mp ?_).1 rfl
    rw [hsame, devOf_map hy', Function.update_self, List.map_append]
    exact List.mem_map_of_mem (List.mem_append_right _ (List.mem_singleton_self _))

theorem represents_blank : Represents blankSession.lists (fun _ => []) fun _ => [] :=
  ⟨fun _ => Linked.nil _ _, fun _ => rfl, fun _ _ _ hd => absurd hd List.not_mem_nil, fun _ => rfl⟩

theorem sound_blank (w : WrapperState) : Sound w (fun _ => []) blankSession.opener :=
  ⟨fun _ _ => iff_of_false List.not_mem_nil fun hall => (nomatch hall.2), fun _ => List.nodup_nil,
    fun _ _ ho => (nomatch ho)⟩

theorem sound_reachable (h : Reachable (step w) (fun o y => Promised o y ∧ Opens w o) (· = blankSession) y) :
    ∃ hs lists, Represents y.lists hs lists ∧ Sound w hs y.opener := by
  refine h.invariant (fun y => ∃ hs lists, Represents y.lists hs lists ∧ Sound w hs y.opener) ?_ ?_
  · rintro y rfl
    exact ⟨_, _, represents_blank, sound_blank w⟩
  · rintro o y y' ⟨hs, lists, hy, hsound⟩ ⟨hp, hopens⟩ hstep
    exact hsound.step hy hp hopens hstep

/-- The lists have the open handles as long as the plug-ins that are called open the devices, and no longer. -/
theorem handles_listed (h : Reachable (step w) (fun o y => Promised o y ∧ Opens w o)
    (· = blankSession) y) : (∃ lists, Listed y lists) ∧
    ∀ o y', Promised o y → step w o y = some y' → ((∃ lists, Listed y' lists) ↔ Opens w o) := by
  obtain ⟨hs, lists, hy, hsound⟩ := sound_reachable h
  refine ⟨⟨lists, hsound.listed hy⟩, fun o y' hp hstep => ⟨?_, fun hopens => ?_⟩⟩
  · rintro ⟨lists', hlisted⟩
    cases o with
    | usbOpen device dev devh =>
        rintro pindex hcalled hdevh rfl
        exact not_listed_null hy hp hcalled hdevh hstep lists' hlisted
    | usbClose dev ret => trivial
  · obtain ⟨hs', lists', hy', hsound'⟩ := hsound.step hy hp hopens hstep
    exact ⟨lists', hsound'.listed hy'⟩

def onePlugin : WrapperState :=
  { blankState with ploaded := 1, pInfo := fun _ => ⟨true, true, false, true, [], 0, fun _ => true⟩ }

def openedSession : Session :=
  ⟨⟨Function.update (fun _ => 0) 0 1, (∅ : Cells DevHandle).insert 1 ⟨0, 0, 7, 5⟩⟩,
    Function.update (fun _ => none) 7 (some 0)⟩

theorem handles_listed_opened : (∃ lists, Listed openedSession lists) ∧
    ∀ o y', Promised o openedSession → step onePlugin o openedSession = some y' →
      ((∃ lists, Listed y' lists) ↔ Opens onePlugin o) :=
  handles_listed (.next (.usbOpen 5 7 1) (.start rfl) ⟨⟨fun _ => rfl, fun _ => rfl⟩, fun _ _ _ => by decide⟩ rfl)

/-- The NULL that usb_open returns is put on the list, where no usb_close finds it. -/
theorem null_listed : ∃ y, Reachable (step onePlugin) Promised (· = blankSession) y ∧
    ¬ ∃ lists, Listed y lists := by
  have hp : Promised (.usbOpen 5 0 1) blankSession := ⟨fun h => absurd rfl h, fun _ => rfl⟩
  have hcalled : Called onePlugin 5 0 := ⟨rfl, rfl⟩
  refine ⟨_, .next (.usbOpen 5 0 1) (.start rfl) hp rfl, fun ⟨lists, hlisted⟩ => ?_⟩
  exact not_listed_null represents_blank hp hcalled (by decide) rfl lists hlisted

end Runs

end OiUserland.Wrapper.HandleRuns
