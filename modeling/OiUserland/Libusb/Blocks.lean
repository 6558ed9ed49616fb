import OiUserland.Lib.Partitions
import OiUserland.Libusb.Clouds

namespace OiUserland.Libusb.Blocks

open Lib.Faults Lib.LengthChains Lib.Partitions Descriptors Configs Clouds

def endpointBlocks (e : UsbEndpointDescriptor) : List Nat := free e.extra

def alternateBlocks (alt : UsbInterfaceDescriptor) : List Nat :=
  free alt.extra ++ (free alt.endpoint ++ (cells alt.endpoint).flatMap endpointBlocks)

def interfaceBlocks (iface : UsbInterface) : List Nat :=
  free iface.altsetting ++ (cells iface.altsetting).flatMap alternateBlocks

def configBlocks (config : UsbConfigDescriptor) : List Nat :=
  free config.extra ++ (free config.interface ++ (cells config.interface).flatMap interfaceBlocks)

def deviceBlocks (dev : UsbDevice) : List Nat := free dev.config ++ (cells dev.config).flatMap configBlocks

structure ShapedAlternate (alt : UsbInterfaceDescriptor) : Prop where
  extra : alt.extra = none ↔ alt.extralen = 0
  endpoint : ∀ b, alt.endpoint = some b → alt.descr.bNumEndpoints ≠ 0

structure ShapedInterface (iface : UsbInterface) : Prop where
  altsetting : ∀ b, iface.altsetting = some b → b.cells.length = iface.numAltsetting
  alternates : ∀ alt ∈ cells iface.altsetting, ShapedAlternate alt

structure ShapedConfig (config : UsbConfigDescriptor) : Prop where
  extra : config.extra = none ↔ config.extralen = 0
  interface : ∀ b, config.interface = some b → b.cells.length = config.descr.bNumInterfaces
  interfaces : ∀ iface ∈ cells config.interface, ShapedInterface iface

structure ShapedDevice (dev : UsbDevice) : Prop where
  config : ∀ b, dev.config = some b → b.cells.length = dev.descriptor.bNumConfigurations
  configs : ∀ config ∈ cells dev.config, ShapedConfig config

section Heaps

structure HeapOk (h : Heap) : Prop where
  nodup : h.attached.Nodup
  below : ∀ x ∈ h.attached, x < h.asked

/-- Between two moments the blocks `bs` have been attached. -/
def Owns (bs : List Nat) (h h' : Heap) : Prop := HeapOk h → HeapOk h' ∧ h'.attached.Perm (bs ++ h.attached)

variable {bs bs' : List Nat} {h h' h'' : Heap} {env : Env}

theorem owns_refl (h : Heap) : Owns [] h h := fun hok => ⟨hok, .refl _⟩

theorem Owns.trans (ho : Owns bs h h') (ho' : Owns bs' h' h'') : Owns (bs ++ bs') h h'' := by
  intro hok
  obtain ⟨hok', hperm⟩ := ho hok
  obtain ⟨hok'', hperm'⟩ := ho' hok'
  refine ⟨hok'', hperm'.trans ?_⟩
  calc List.Perm (bs' ++ h'.attached) (bs' ++ (bs ++ h.attached)) := hperm.append_left bs'
    _ = (bs' ++ bs) ++ h.attached := (List.append_assoc ..).symm
    List.Perm _ ((bs ++ bs') ++ h.attached) := List.perm_append_comm.append_right _

theorem Owns.perm (ho : Owns bs h h') (hp : bs.Perm bs') : Owns bs' h h' := by
  intro hok
  obtain ⟨hok', hperm⟩ := ho hok
  exact ⟨hok', hperm.trans (hp.append_right _)⟩

theorem calloc_cases {α : Type} (env : Env) (xs : List α) (h : Heap) :
    (∃ h', calloc env xs h = (none, h') ∧ Owns [] h h') ∨
      ∃ h', calloc env xs h = (some ⟨h.asked, xs⟩, h') ∧ Owns [h.asked] h h' := by
  rw [calloc]
  split
  · refine .inr ⟨_, rfl, fun hok => ⟨⟨List.nodup_cons.mpr ⟨fun hx => ?_, hok.nodup⟩, fun x hx => ?_⟩, .refl _⟩⟩
    · exact absurd (hok.below _ hx) (Nat.lt_irrefl _)
    · rcases List.mem_cons.mp hx with rfl | hx
      · exact Nat.lt_succ_self _
      · exact Nat.lt_succ_of_lt (hok.below x hx)
  · exact .inl ⟨_, rfl, fun hok => ⟨⟨hok.nodup, fun x hx => Nat.lt_succ_of_lt (hok.below x hx)⟩, .refl _⟩⟩

theorem owns_malloc (h : Heap) : Owns [] h (malloc env h).2 := by
  rw [malloc]
  split
  · exact fun hok => ⟨⟨hok.nodup, fun x hx => Nat.lt_succ_of_lt (hok.below x hx)⟩, .refl _⟩
  · exact fun hok => ⟨⟨hok.nodup, fun x hx => Nat.lt_succ_of_lt (hok.below x hx)⟩, .refl _⟩

theorem owns_freeCloud (addr : Nat) (h : Heap) : Owns [] h (freeCloud addr h) := fun hok => ⟨⟨hok.nodup, hok.below⟩, .refl _⟩

end Heaps

section Loops

variable {σ : Type} {fill : Nat → σ → Heap → Run (Int × σ × Heap)}

theorem owns_eachSlot (blocks : σ → List Nat) (Shaped : σ → Prop) {zero : σ} (hzero : blocks zero = []) (hshaped : Shaped zero)
    (hfill : ∀ i h, Ensures AnyFault (fill i zero h) fun r => Shaped r.2.1 ∧ Owns (blocks r.2.1) h r.2.2) (n : Nat) (h : Heap) :
    Ensures AnyFault (eachSlot fill 0 n (List.replicate n zero) h) fun r =>
      (r.2.1.length = n ∧ ∀ s ∈ r.2.1, Shaped s) ∧ Owns (r.2.1.flatMap blocks) h r.2.2 := by
  -- the slots from `i` on are untouched
  refine ensures_eachSlot (n := n) (fun i slots h' => (slots.length = n ∧ ∀ s ∈ slots, Shaped s) ∧
    Owns (slots.flatMap blocks) h h' ∧ ∀ j, i ≤ j → j < n → slots[j]? = some zero) ?_ ?_ ?_ (Nat.zero_add _) ?_
  · exact fun _ _ _ h => h.1.1
  · rintro i slots h' s hi ⟨⟨hlen, hall⟩, howns, hrest⟩ hs
    have hslot := hrest i (Nat.le_refl i) hi
    obtain rfl : zero = s := Option.some.inj (hslot.symm.trans hs)
    refine ensures_mono (hfill i h') ?_
    rintro ⟨rval, s', h''⟩ ⟨hs', howns'⟩
    have hset : ((slots.set i s').length = n ∧ ∀ s ∈ slots.set i s', Shaped s) ∧
        Owns ((slots.set i s').flatMap blocks) h h'' := by
      refine ⟨⟨by rw [List.length_set]; exact hlen, fun s hs => ?_⟩, ?_⟩
      · rcases List.mem_or_eq_of_mem_set hs with hs | rfl
        · exact hall s hs
        · exact hs'
      · exact (howns.trans howns').perm (List.perm_append_comm.trans (flatMap_set hslot hzero).symm)
    by_cases h0 : rval = 0
    · rw [if_pos h0]
      refine ⟨hset.1, hset.2, fun j hj hlt => ?_⟩
      rw [List.getElem?_set_ne (by omega)]
      exact hrest j (by omega) hlt
    · rw [if_neg h0]
      exact hset
  · exact fun slots h' hinv => ⟨hinv.1, hinv.2.1⟩
  · refine ⟨⟨List.length_replicate, fun s hs => (List.eq_of_mem_replicate hs).symm ▸ hshaped⟩, ?_, ?_⟩
    · have hnil : (List.replicate n zero).flatMap blocks = [] :=
        List.flatMap_eq_nil_iff.mpr fun s hs => (List.eq_of_mem_replicate hs).symm ▸ hzero
      rw [hnil]
      exact owns_refl h
    · intro j _ hj
      exact List.getElem?_replicate_of_lt hj

end Loops

section Levels

variable {env : Env} {index iface alt : Nat} {cloud : Place}

theorem copyExtra_owns (src : Place) (h : Heap) :
    Ensures AnyFault (copyExtra env src none 0 h) fun r =>
      (r.2.1 = none ↔ r.2.2.1 = 0) ∧ Owns (free r.2.1) h r.2.2.2 := by
  rw [copyExtra]
  by_cases h0 : src.2 = 0
  · rw [if_pos h0]
    exact ensures_pure ⟨⟨fun _ => rfl, fun _ => rfl⟩, owns_refl h⟩
  · rw [if_neg h0]
    obtain ⟨h', hcalloc, howns⟩ | ⟨h', hcalloc, howns⟩ := calloc_cases env (List.replicate src.2 0) h
    · rw [hcalloc]
      exact ensures_pure ⟨⟨fun _ => rfl, fun _ => rfl⟩, howns⟩
    · rw [hcalloc]
      refine ensures_bind (P := fun _ => True) (ensures_any fun _ => trivial) fun bytes _ => ?_
      exact ensures_pure ⟨⟨(fun h => by cases h), fun hz => absurd hz h0⟩, howns⟩

theorem usbParseEndpoint_owns (ep : Nat) (h : Heap) :
    Ensures AnyFault (usbParseEndpoint env index iface alt cloud ep UsbEndpointDescriptor.zero h) fun r =>
      True ∧ Owns (endpointBlocks r.2.1) h r.2.2 := by
  rw [usbParseEndpoint]
  refine ensures_bind (P := fun _ => True) (ensures_any fun _ => trivial) ?_
  rintro (_ | ⟨rval, descr, src⟩) -
  · exact ensures_pure ⟨trivial, owns_refl h⟩
  · simp only
    split
    · exact ensures_pure ⟨trivial, owns_refl h⟩
    · refine ensures_bind (copyExtra_owns src h) ?_
      rintro ⟨err, extra, extralen, h'⟩ ⟨-, howns⟩
      exact ensures_pure ⟨trivial, howns⟩

theorem parseEndpoints_owns {slot : UsbInterfaceDescriptor} (hnone : slot.endpoint = none) (h : Heap) :
    Ensures AnyFault (parseEndpoints env index iface alt cloud slot h) fun r =>
      (r.2.1.extra = slot.extra ∧ r.2.1.extralen = slot.extralen ∧
        ∀ b, r.2.1.endpoint = some b → r.2.1.descr.bNumEndpoints ≠ 0) ∧
      Owns (free r.2.1.endpoint ++ (cells r.2.1.endpoint).flatMap endpointBlocks) h r.2.2 := by
  simp only [parseEndpoints]
  by_cases h0 : slot.descr.bNumEndpoints = 0
  · rw [if_pos h0]
    refine ensures_pure ⟨⟨rfl, rfl, fun b hb => absurd (hnone.symm.trans hb) fun h => by cases h⟩, ?_⟩
    rw [hnone]
    exact owns_refl h
  · rw [if_neg h0]
    obtain ⟨h', hcalloc, howns⟩ | ⟨h', hcalloc, howns⟩ :=
      calloc_cases env (List.replicate slot.descr.bNumEndpoints UsbEndpointDescriptor.zero) h
    · rw [hcalloc]
      exact ensures_pure ⟨⟨rfl, rfl, fun _ h => by cases h⟩, howns⟩
    · rw [hcalloc]
      refine ensures_bind (owns_eachSlot endpointBlocks (fun _ => True) rfl trivial
        (fun ep h => usbParseEndpoint_owns ep h) _ h') ?_
      rintro ⟨rval, endpoints, h''⟩ ⟨-, howns'⟩
      exact ensures_pure ⟨⟨rfl, rfl, fun _ _ => h0⟩, howns.trans howns'⟩

theorem shapedAlternate_zero : ShapedAlternate UsbInterfaceDescriptor.zero := ⟨⟨fun _ => rfl, fun _ => rfl⟩, nofun⟩

theorem usbParseAlternate_owns (alt : Nat) (h : Heap) :
    Ensures AnyFault (usbParseAlternate env index iface cloud alt UsbInterfaceDescriptor.zero h) fun r =>
      ShapedAlternate r.2.1 ∧ Owns (alternateBlocks r.2.1) h r.2.2 := by
  rw [usbParseAlternate]
  refine ensures_bind (P := fun _ => True) (ensures_any fun _ => trivial) ?_
  rintro (_ | ⟨rval, descr, src⟩) -
  · exact ensures_pure ⟨shapedAlternate_zero, owns_refl h⟩
  · simp only
    split
    · exact ensures_pure ⟨shapedAlternate_zero, owns_refl h⟩
    · refine ensures_bind (copyExtra_owns src h) ?_
      rintro ⟨err, extra, extralen, h'⟩ ⟨hextra, howns⟩
      simp only
      split
      · refine ensures_pure ⟨⟨hextra, fun _ h => by cases h⟩, ?_⟩
        exact howns.perm (List.Perm.of_eq (List.append_nil _).symm)
      · refine ensures_mono (parseEndpoints_owns rfl h') ?_
        rintro ⟨rval', slot, h''⟩ ⟨⟨he, hl, hn⟩, howns'⟩
        refine ⟨⟨by rw [he, hl]; exact hextra, hn⟩, ?_⟩
        rw [alternateBlocks, he]
        exact howns.trans howns'

theorem usbParseInterface_owns (iface : Nat) (h : Heap) :
    Ensures AnyFault (usbParseInterface env index cloud iface UsbInterface.zero h) fun r =>
      ShapedInterface r.2.1 ∧ Owns (interfaceBlocks r.2.1) h r.2.2 := by
  rw [usbParseInterface]
  refine ensures_bind (P := fun _ => True) (ensures_any fun _ => trivial) ?_
  intro n _
  obtain ⟨h', hcalloc, howns⟩ | ⟨h', hcalloc, howns⟩ :=
    calloc_cases env (List.replicate (n + 1) UsbInterfaceDescriptor.zero) h
  · simp only [hcalloc]
    exact ensures_pure ⟨⟨(fun _ h => by cases h), fun _ h => by cases h⟩, howns⟩
  · simp only [hcalloc]
    refine ensures_bind (owns_eachSlot alternateBlocks ShapedAlternate rfl shapedAlternate_zero
      (fun alt h => usbParseAlternate_owns alt h) _ h') ?_
    rintro ⟨rval, alternates, h''⟩ ⟨⟨hlen, hall⟩, howns'⟩
    refine ensures_pure ⟨⟨fun b hb => ?_, hall⟩, howns.trans howns'⟩
    obtain rfl := Option.some.inj hb
    exact hlen

theorem parseInterfaces_owns {bytes : List UInt8} {slot : UsbConfigDescriptor} (h : Heap) :
    Ensures AnyFault (parseInterfaces env index bytes slot h) fun r =>
      (r.2.1.extra = slot.extra ∧ r.2.1.extralen = slot.extralen ∧
        (∀ b, r.2.1.interface = some b → b.cells.length = r.2.1.descr.bNumInterfaces) ∧
        ∀ iface ∈ cells r.2.1.interface, ShapedInterface iface) ∧
      Owns (free r.2.1.interface ++ (cells r.2.1.interface).flatMap interfaceBlocks) h r.2.2 := by
  simp only [parseInterfaces]
  obtain ⟨h', hcalloc, howns⟩ | ⟨h', hcalloc, howns⟩ :=
    calloc_cases env (List.replicate slot.descr.bNumInterfaces UsbInterface.zero) h
  · rw [hcalloc]
    exact ensures_pure ⟨⟨rfl, rfl, (fun _ h => by cases h), fun _ h => by cases h⟩, howns⟩
  · rw [hcalloc]
    refine ensures_bind (owns_eachSlot interfaceBlocks ShapedInterface rfl
      (show ShapedInterface UsbInterface.zero from ⟨(fun _ h => by cases h), fun _ h => by cases h⟩)
      (fun iface h => usbParseInterface_owns iface h) _ h') ?_
    rintro ⟨rval, interfaces, h''⟩ ⟨⟨hlen, hall⟩, howns'⟩
    refine ensures_pure ⟨⟨rfl, rfl, fun b hb => ?_, hall⟩, howns.trans howns'⟩
    obtain rfl := Option.some.inj hb
    exact hlen

structure Bare (slot : UsbConfigDescriptor) : Prop where
  extra : slot.extra = none
  extralen : slot.extralen = 0
  interface : slot.interface = none

theorem Bare.shaped {slot : UsbConfigDescriptor} (hb : Bare slot) : ShapedConfig slot := by
  refine ⟨⟨fun _ => hb.extralen, fun _ => hb.extra⟩, fun b h => absurd (hb.interface.symm.trans h) nofun, ?_⟩
  rw [hb.interface]
  exact nofun

theorem Bare.owns {slot : UsbConfigDescriptor} (hb : Bare slot) (h : Heap) : Owns (configBlocks slot) h h := by
  rw [configBlocks, hb.extra, hb.interface]
  exact owns_refl h

theorem parseCloud_owns {bytes : List UInt8} {extra : Place} {slot : UsbConfigDescriptor} (hb : Bare slot) (h : Heap) :
    Ensures AnyFault (parseCloud env index bytes extra slot h) fun r =>
      ShapedConfig r.2.1 ∧ Owns (configBlocks r.2.1) h r.2.2 := by
  rw [parseCloud]
  refine ensures_bind (P := fun _ => True) (ensures_any fun _ => trivial) ?_
  intro header _
  rw [hb.extra, hb.extralen]
  refine ensures_bind (copyExtra_owns _ h) ?_
  rintro ⟨err, extra', extralen, h'⟩ ⟨hextra, howns⟩
  simp only
  split
  · refine ensures_pure ⟨⟨hextra, fun b h => absurd (hb.interface.symm.trans h) (fun h => by cases h), ?_⟩, ?_⟩
    · rw [hb.interface]
      exact fun _ h => by cases h
    · rw [configBlocks, hb.interface]
      exact howns.perm (List.Perm.of_eq (List.append_nil _).symm)
  · refine ensures_mono (parseInterfaces_owns h') ?_
    rintro ⟨rval, slot', h''⟩ ⟨⟨he, hl, hn, hall⟩, howns'⟩
    refine ⟨⟨by rw [he, hl]; exact hextra, hn, hall⟩, ?_⟩
    rw [configBlocks, he]
    exact howns.trans howns'

theorem usbParseConfig_owns (index : Nat) (h : Heap) :
    Ensures AnyFault (usbParseConfig env index UsbConfigDescriptor.zero h) fun r =>
      ShapedConfig r.2.1 ∧ Owns (configBlocks r.2.1) h r.2.2 := by
  have hbare (descr : UsbCfgDescr) : Bare { UsbConfigDescriptor.zero with descr := descr } := ⟨rfl, rfl, rfl⟩
  have hstop (descr : UsbCfgDescr) {h' : Heap} (howns : Owns [] h h') (rval : Int) :
      Ensures AnyFault (pure (rval, { UsbConfigDescriptor.zero with descr := descr }, h') :
        Run (Int × UsbConfigDescriptor × Heap)) fun r => ShapedConfig r.2.1 ∧ Owns (configBlocks r.2.1) h r.2.2 :=
    ensures_pure ⟨(hbare descr).shaped, howns.trans ((hbare descr).owns h')⟩
  rw [usbParseConfig]
  split
  · exact hstop _ (owns_refl h) eio
  · refine ensures_bind (P := fun _ => True) (ensures_any fun _ => trivial) ?_
    rintro (_ | ⟨rval, descr, extra⟩) -
    · exact hstop _ (owns_refl h) eio
    · simp only
      split
      · exact hstop descr (owns_refl h) eio
      · have hmalloc : Owns [] h (malloc env h).2 := owns_malloc h
        rcases hm : malloc env h with ⟨_ | addr, h'⟩
        · rw [hm] at hmalloc
          exact hstop descr hmalloc enomem
        · rw [hm] at hmalloc
          simp only
          split
          · exact hstop descr (hmalloc.trans (owns_freeCloud addr h')) eio
          · refine ensures_bind (parseCloud_owns (hbare descr) h') ?_
            rintro ⟨rval', slot, h''⟩ ⟨hshaped, howns⟩
            refine ensures_pure ⟨hshaped, ?_⟩
            exact ((hmalloc.trans howns).trans (owns_freeCloud addr h'')).perm (List.Perm.of_eq (List.append_nil _))

theorem setup_owns {dev : UsbDevice} (hnone : dev.config = none) (h : Heap) :
    Ensures AnyFault (usbSetupAllConfigs env dev h) fun r => ShapedDevice r.2.1 ∧ Owns (deviceBlocks r.2.1) h r.2.2 := by
  have hstop (dev : UsbDevice) (hnone : dev.config = none) {h' : Heap} (howns : Owns [] h h') (rval : Int) :
      Ensures AnyFault (pure (rval, dev, h') : Run (Int × UsbDevice × Heap)) fun r =>
        ShapedDevice r.2.1 ∧ Owns (deviceBlocks r.2.1) h r.2.2 := by
    refine ensures_pure ⟨⟨fun b hb => absurd (hnone.symm.trans hb) nofun, ?_⟩, ?_⟩
    · rw [hnone]
      exact nofun
    · rw [deviceBlocks, hnone]
      exact howns
  rw [usbSetupAllConfigs]
  split
  · exact hstop dev hnone (owns_refl h) 0
  split
  · exact hstop dev hnone (owns_refl h) eio
  refine ensures_bind (P := fun _ => True) (ensures_any fun _ => trivial) ?_
  rintro (_ | ⟨rval, descriptor⟩) -
  · exact hstop dev hnone (owns_refl h) eio
  · simp only
    split
    · exact hstop { dev with descriptor := descriptor } hnone (owns_refl h) eio
    · simp only [parseConfigs]
      obtain ⟨h', hcalloc, howns⟩ | ⟨h', hcalloc, howns⟩ :=
        calloc_cases env (List.replicate descriptor.bNumConfigurations UsbConfigDescriptor.zero) h
      · rw [hcalloc]
        exact hstop _ rfl howns enomem
      · rw [hcalloc]
        refine ensures_bind (owns_eachSlot configBlocks ShapedConfig rfl
          (show ShapedConfig UsbConfigDescriptor.zero from Bare.shaped ⟨rfl, rfl, rfl⟩)
          (fun index h => usbParseConfig_owns index h) _ h') ?_
        rintro ⟨rval', configs, h''⟩ ⟨⟨hlen, hall⟩, howns'⟩
        refine ensures_pure ⟨⟨fun b hb => ?_, hall⟩, howns.trans howns'⟩
        obtain rfl := Option.some.inj hb
        exact hlen

end Levels

section Frees

variable {alt : UsbInterfaceDescriptor} {iface : UsbInterface} {config : UsbConfigDescriptor} {dev : UsbDevice}

def PlainAlternate (alt : UsbInterfaceDescriptor) : Prop := alt.extra = none ∧ ∀ e ∈ cells alt.endpoint, e.extra = none

def PlainInterface (iface : UsbInterface) : Prop := ∀ alt ∈ cells iface.altsetting, PlainAlternate alt

def PlainConfig (config : UsbConfigDescriptor) : Prop :=
  (config.interface = none → config.extra = none) ∧ ∀ iface ∈ cells config.interface, PlainInterface iface

def PlainDevice (dev : UsbDevice) : Prop := ∀ config ∈ cells dev.config, PlainConfig config

theorem free_eq_nil {α : Type} {p : Option (Block α)} : free p = [] ↔ p = none := by
  cases p with
  | none => exact ⟨fun _ => rfl, fun _ => rfl⟩
  | some b => exact ⟨nofun, nofun⟩

theorem free_tested {p : Option (Block UInt8)} {n : Nat} (h : p = none ↔ n = 0) :
    (if n ≠ 0 then free p else []) = free p := by
  by_cases hn : n = 0
  · rw [if_neg (not_not.mpr hn), h.mpr hn]
    rfl
  · rw [if_pos hn]

theorem visited_all {α : Type} {n : Nat} {b : Block α} (h : b.cells.length = n) : visited n b = b.cells := by
  rw [visited, ← h, List.take_length]

theorem freeAlternate_eq (hs : ShapedAlternate alt) {b : Block UsbEndpointDescriptor} (hb : alt.endpoint = some b) :
    usbFreeAlternate alt =
      ((List.range alt.descr.bNumEndpoints).flatMap fun _ => free alt.extra) ++ (free alt.extra ++ [b.addr]) := by
  simp only [usbFreeAlternate, hb, free_tested hs.extra, List.append_assoc]

theorem freeAlternate_subset (hs : ShapedAlternate alt) : usbFreeAlternate alt ⊆ alternateBlocks alt := by
  cases hb : alt.endpoint with
  | none =>
      rw [usbFreeAlternate, hb]
      exact List.nil_subset _
  | some b =>
      rw [freeAlternate_eq hs hb, alternateBlocks, hb]
      intro x hx
      rcases List.mem_append.mp hx with hx | hx
      · obtain ⟨-, -, hx⟩ := List.mem_flatMap.mp hx
        exact List.mem_append_left _ hx
      · rcases List.mem_append.mp hx with hx | hx
        · exact List.mem_append_left _ hx
        · exact List.mem_append_right _ (List.mem_append_left _ hx)

theorem freeAlternate_perm (hs : ShapedAlternate alt) (hnd : (alternateBlocks alt).Nodup) :
    (usbFreeAlternate alt).Perm (alternateBlocks alt) ↔ PlainAlternate alt := by
  cases hb : alt.endpoint with
  | none =>
      rw [usbFreeAlternate, alternateBlocks, PlainAlternate, hb]
      constructor
      · intro h
        have hnil := List.append_eq_nil_iff.mp (List.Perm.nil_eq h).symm
        exact ⟨free_eq_nil.mp hnil.1, nofun⟩
      · rintro ⟨hextra, -⟩
        rw [hextra]
        exact .refl _
  | some b =>
      have hcount := hs.endpoint b hb
      rw [freeAlternate_eq hs hb, alternateBlocks, PlainAlternate, hb]
      rw [alternateBlocks, hb] at hnd
      cases hx : alt.extra with
      | none =>
          have hnone : ((List.range alt.descr.bNumEndpoints).flatMap fun _ => free (none : Option (Block UInt8))) = [] :=
            List.flatMap_eq_nil_iff.mpr fun _ _ => rfl
          rw [hnone]
          constructor
          · intro h
            have hlen := h.length_eq
            refine ⟨rfl, fun e he => free_eq_nil.mp ?_⟩
            have hnil : b.cells.flatMap endpointBlocks = [] := by
              simp only [free, Option.map_none, Option.toList_none, List.nil_append, Option.map_some, Option.toList_some,
                List.length_cons, List.length_nil, List.length_append, cells, Option.elim_some] at hlen
              exact List.eq_nil_of_length_eq_zero (by omega)
            exact List.flatMap_eq_nil_iff.mp hnil e he
          · rintro ⟨-, hall⟩
            have hnil : (cells (some b)).flatMap endpointBlocks = [] :=
              List.flatMap_eq_nil_iff.mpr fun e he => free_eq_nil.mpr (hall e he)
            rw [hnil]
            exact .refl _
      | some x =>
          refine ⟨fun h => ?_, fun h => absurd h.1 nofun⟩
          rw [hx] at hnd
          have hone := List.nodup_iff_count_le_one.mp (h.nodup_iff.mpr hnd) x.addr
          obtain ⟨n, hn⟩ := Nat.exists_eq_succ_of_ne_zero hcount
          rw [hn, List.range_succ_eq_map, List.flatMap_cons] at hone
          simp only [free, Option.map_some, Option.toList_some, List.cons_append, List.nil_append, List.count_cons_self,
            List.count_append] at hone
          omega

theorem freeInterface_eq (hs : ShapedInterface iface) {b : Block UsbInterfaceDescriptor} (hb : iface.altsetting = some b) :
    usbFreeInterface iface = (cells iface.altsetting).flatMap usbFreeAlternate ++ free iface.altsetting := by
  simp only [usbFreeInterface, hb, visited_all (hs.altsetting b hb)]
  rfl

theorem freeInterface_subset (hs : ShapedInterface iface) : usbFreeInterface iface ⊆ interfaceBlocks iface := by
  cases hb : iface.altsetting with
  | none =>
      rw [usbFreeInterface, hb]
      exact List.nil_subset _
  | some b =>
      rw [freeInterface_eq hs hb]
      intro x hx
      rcases List.mem_append.mp hx with hx | hx
      · exact List.mem_append_right _
          (flatMap_subset (fun alt halt => freeAlternate_subset (hs.alternates alt halt)) hx)
      · exact List.mem_append_left _ hx

theorem freeInterface_perm (hs : ShapedInterface iface) (hnd : (interfaceBlocks iface).Nodup) :
    (usbFreeInterface iface).Perm (interfaceBlocks iface) ↔ PlainInterface iface := by
  cases hb : iface.altsetting with
  | none =>
      rw [usbFreeInterface, interfaceBlocks, PlainInterface, hb]
      exact ⟨fun _ => nofun, fun _ => .refl _⟩
  | some b =>
      rw [freeInterface_eq hs hb, interfaceBlocks, perm_behind_iff]
      exact perm_parts_iff (fun alt halt => freeAlternate_subset (hs.alternates alt halt))
        (fun alt halt => freeAlternate_perm (hs.alternates alt halt)) hnd.of_append_right

theorem freeConfig_eq (hs : ShapedConfig config) {b : Block UsbInterface} (hb : config.interface = some b) :
    usbFreeConfig config =
      (cells config.interface).flatMap usbFreeInterface ++ (free config.extra ++ free config.interface) := by
  simp only [usbFreeConfig, hb, visited_all (hs.interface b hb), free_tested hs.extra, List.append_assoc]
  rfl

theorem configBlocks_eq (config : UsbConfigDescriptor) : configBlocks config =
    (free config.extra ++ free config.interface) ++ (cells config.interface).flatMap interfaceBlocks :=
  (List.append_assoc ..).symm

theorem freeConfig_subset (hs : ShapedConfig config) : usbFreeConfig config ⊆ configBlocks config := by
  cases hb : config.interface with
  | none =>
      rw [usbFreeConfig, hb]
      exact List.nil_subset _
  | some b =>
      rw [freeConfig_eq hs hb, configBlocks_eq]
      intro x hx
      rcases List.mem_append.mp hx with hx | hx
      · exact List.mem_append_right _
          (flatMap_subset (fun iface hiface => freeInterface_subset (hs.interfaces iface hiface)) hx)
      · exact List.mem_append_left _ hx

theorem freeConfig_perm (hs : ShapedConfig config) (hnd : (configBlocks config).Nodup) :
    (usbFreeConfig config).Perm (configBlocks config) ↔ PlainConfig config := by
  cases hb : config.interface with
  | none =>
      rw [usbFreeConfig, configBlocks, PlainConfig, hb]
      constructor
      · intro h
        have hnil := List.append_eq_nil_iff.mp (List.Perm.nil_eq h).symm
        exact ⟨fun _ => free_eq_nil.mp hnil.1, nofun⟩
      · rintro ⟨hextra, -⟩
        rw [hextra rfl]
        exact .refl _
  | some b =>
      have hne : config.interface ≠ none := by rw [hb]; exact nofun
      rw [configBlocks_eq] at hnd
      rw [freeConfig_eq hs hb, configBlocks_eq, perm_behind_iff, PlainConfig,
        perm_parts_iff (fun iface hiface => freeInterface_subset (hs.interfaces iface hiface))
          (fun iface hiface => freeInterface_perm (hs.interfaces iface hiface)) hnd.of_append_right]
      exact ⟨fun hall => ⟨fun h => absurd h hne, hall⟩, And.right⟩

theorem freeAllConfigs_perm (hs : ShapedDevice dev) (hnd : (deviceBlocks dev).Nodup) :
    (usbFreeAllConfigs dev).1.Perm (deviceBlocks dev) ↔ PlainDevice dev := by
  cases hb : dev.config with
  | none =>
      rw [usbFreeAllConfigs, deviceBlocks, PlainDevice, hb]
      exact ⟨fun _ => nofun, fun _ => .refl _⟩
  | some b =>
      have heq : (usbFreeAllConfigs dev).1 = (cells dev.config).flatMap usbFreeConfig ++ free dev.config := by
        simp only [usbFreeAllConfigs, hb, visited_all (hs.config b hb)]
        rfl
      rw [heq, deviceBlocks, perm_behind_iff]
      exact perm_parts_iff (fun config hc => freeConfig_subset (hs.configs config hc))
        (fun config hc => freeConfig_perm (hs.configs config hc)) hnd.of_append_right

end Frees

/-- No memory has been asked for. -/
def noHeap : Heap := ⟨0, [], []⟩

/-- In every outcome of the setup. -/
theorem setup_balance (env : Env) (dev dev' : UsbDevice) (rval : Int) (heap : Heap) (hnone : dev.config = none)
    (hsetup : usbSetupAllConfigs env dev noHeap = .ok (rval, dev', heap)) :
    heap.attached.Nodup ∧ heap.attached.Perm (deviceBlocks dev') ∧
      ((usbFreeAllConfigs dev').1.Perm heap.attached ↔ PlainDevice dev') := by
  obtain ⟨hshaped, howns⟩ := (setup_owns hnone noHeap).of_ok hsetup
  obtain ⟨hok, hperm⟩ := howns ⟨List.nodup_nil, nofun⟩
  have hattached : heap.attached.Perm (deviceBlocks dev') := by
    rw [← List.append_nil (deviceBlocks dev')]
    exact hperm
  refine ⟨hok.nodup, hattached, ?_⟩
  rw [← freeAllConfigs_perm hshaped (hattached.nodup_iff.mp hok.nodup)]
  exact hattached.congr_right _

def emptyDevice : UsbDevice := ⟨⟨0, 0, 0, 0, 0, 0, 0, 0, 0, 0, 0, 0, 0, 0⟩, none⟩

/-- A device with one interface and one endpoint. The interface descriptor is followed by a
class-specific one in `withExtra`. -/
def deviceWith (cloud : List UInt8) : Env where
  grant _ := true
  device := .received [18, 1, 0, 2, 0, 0, 0, 64, 1, 0, 2, 0, 0, 1, 0, 0, 0, 1]
  config _ := .received cloud
  cloud _ := .received cloud
  stack _ _ _ _ := ⟨0, 0, 0, 0, 0, 0, 0, 0⟩

def withoutExtra : List UInt8 :=
  [9, 2, 25, 0, 1, 1, 0, 0x80, 50,
   9, 4, 0, 0, 1, 3, 0, 0, 0,
   7, 5, 0x81, 3, 8, 0, 10]

def withExtra : List UInt8 :=
  [9, 2, 34, 0, 1, 1, 0, 0x80, 50,
   9, 4, 0, 0, 1, 3, 0, 0, 0,
   9, 0x21, 0x11, 1, 0, 1, 0x22, 63, 0,
   7, 5, 0x81, 3, 8, 0, 10]

theorem setup_balance_plain : ∃ rval dev' heap,
    usbSetupAllConfigs (deviceWith withoutExtra) emptyDevice noHeap = .ok (rval, dev', heap) ∧
      heap.attached.Nodup ∧ heap.attached.Perm (deviceBlocks dev') ∧
      ((usbFreeAllConfigs dev').1.Perm heap.attached ↔ PlainDevice dev') := by
  have hrun : (match usbSetupAllConfigs (deviceWith withoutExtra) emptyDevice noHeap with
      | .ok r => decide (r.1 = 0)
      | .error _ => false) = true := by decide +kernel
  split at hrun
  next r hsetup => exact ⟨r.1, r.2.1, r.2.2, hsetup, setup_balance _ _ _ _ _ rfl hsetup⟩
  · cases hrun

/-- The descriptor behind the interface descriptor is freed twice. -/
theorem not_setup_balance : ¬∀ (env : Env) (dev dev' : UsbDevice) (rval : Int) (heap : Heap), dev.config = none →
    usbSetupAllConfigs env dev noHeap = .ok (rval, dev', heap) → (usbFreeAllConfigs dev').1.Perm heap.attached := by
  intro hall
  have hrun : (match usbSetupAllConfigs (deviceWith withExtra) emptyDevice noHeap with
      | .ok r => decide ((usbFreeAllConfigs r.2.1).1.length ≠ r.2.2.attached.length)
      | .error _ => false) = true := by decide +kernel
  split at hrun
  next r hsetup => exact of_decide_eq_true hrun (hall _ _ r.2.1 r.1 r.2.2 rfl hsetup).length_eq
  · cases hrun

end OiUserland.Libusb.Blocks
