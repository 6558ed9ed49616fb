import OiUserland.Libusb.Decoding

namespace OiUserland.Libusb.Bounds

open Lib.Faults Lib.LengthChains Descriptors Decoding Scans Configs

/-- No byte is read outside of the buffer of the cloud, and no slot written outside
of its array. -/
def Safe {α : Type} (x : Run α) : Prop := Ensures NoOverrun x fun _ => True

def ExtraInside {α : Type} (r : Option (Nat × α × Place)) : Prop :=
  ∀ rval descr extra, r = some (rval, descr, extra) → Inside extra

section Descriptors

variable {p : Place}

theorem all_items {format : List Char} (h : (format.all fun fmt => (itemSize fmt).isSome) = true) :
    ∀ fmt ∈ format, (itemSize fmt).isSome := List.all_eq_true.mp h

theorem usbParseData_cfg (hp : Inside p) : usbParseData cfgFormat p sizeofCfg = .ok (decode sizeofCfg cfgFormat p 0) :=
  usbParseData_eq (all_items rfl) hp (by decide)

theorem usbParseData_if (hp : Inside p) : usbParseData ifFormat p sizeofIf = .ok (decode sizeofIf ifFormat p 0) :=
  usbParseData_eq (all_items rfl) hp (by decide)

theorem usbParseData_ep (hp : Inside p) : usbParseData epFormat p sizeofEp = .ok (decode sizeofEp epFormat p 0) :=
  usbParseData_eq (all_items rfl) hp (by decide)

theorem usbParseCfgDescr_eq {ret : UsbCfgDescr} {e : Place} (hp : Inside p) (h : 2 ≤ p.2) (ht : peek p 1 = usbDescrTypeCfg)
    (he : usbFindExtra p = .ok e) :
    usbParseCfgDescr p ret = .ok (some ((decode sizeofCfg cfgFormat p 0).2,
      (decode sizeofCfg cfgFormat p 0).1.foldl UsbCfgDescr.store ret, e)) := by
  have hlen : p.2 ≤ p.1.length := hp
  rw [usbParseCfgDescr, if_neg (by omega), byte_eq_peek (by omega), usbParseData_cfg hp]
  simp only [bind, Except.bind, if_neg (not_not.mpr ht), he]
  rfl

theorem usbParseIfDescr_eq {i a : Nat} {ret : UsbIfDescr} {q e : Place} (hp : Inside p)
    (hq : (chain 3 p).find? (isIf i a) = some q) (he : usbFindExtra q = .ok e) :
    usbParseIfDescr p i a ret = .ok (some ((decode sizeofIf ifFormat q 0).2,
      (decode sizeofIf ifFormat q 0).1.foldl UsbIfDescr.store ret, e)) := by
  obtain ⟨hin, -, -⟩ := findInterface_mem hp hq
  rw [usbParseIfDescr, findInterface_eq hp, hq]
  simp only [bind, Except.bind, usbParseData_if hin, he]
  rfl

theorem usbParseIfDescr_none {i a : Nat} {ret : UsbIfDescr} (hp : Inside p)
    (hq : (chain 3 p).find? (isIf i a) = none) : usbParseIfDescr p i a ret = .ok none := by
  rw [usbParseIfDescr, findInterface_eq hp, hq]
  rfl

theorem usbParseEpDescr_eq {i a n : Nat} {ret : UsbEpDescr} {q r e : Place} (hp : Inside p)
    (hq : (chain 3 p).find? (isIf i a) = some q) (hr : (endpointsOf q)[n]? = some r) (he : usbFindExtra r = .ok e) :
    usbParseEpDescr p i a n ret = .ok (some ((decode sizeofEp epFormat r 0).2,
      (decode sizeofEp epFormat r 0).1.foldl UsbEpDescr.store ret, e)) := by
  obtain ⟨hin, hroom, hif⟩ := findInterface_mem hp hq
  obtain ⟨hin', -, -⟩ := mem_endpointsOf hin (List.mem_of_getElem? hr)
  have htype : peek q 1 = usbDescrTypeIf := (of_decide_eq_true hif).1
  rw [usbParseEpDescr, findInterface_eq hp, hq]
  simp only [bind, Except.bind, usbNthDescr_eq hin (by omega) htype, hr, usbParseData_ep hin', he]
  rfl

theorem extraInside_some {α : Type} {rval : Nat} {descr : α} {extra : Place} (h : Inside extra) :
    ExtraInside (some (rval, descr, extra)) := by
  intro _ _ _ heq
  obtain ⟨-, -, rfl⟩ := Prod.mk.inj (Option.some.inj heq) |>.imp_right Prod.mk.inj
  exact h

theorem usbParseCfgDescr_ensures (hp : Inside p) (ret : UsbCfgDescr) :
    Ensures NoOverrun (usbParseCfgDescr p ret) ExtraInside := by
  have hlen : p.2 ≤ p.1.length := hp
  rw [usbParseCfgDescr]
  by_cases h : p.2 < 2
  · rw [if_pos h]
    exact ensures_pure nofun
  · rw [if_neg h, byte_eq_peek (by omega), usbParseData_cfg hp]
    simp only [bind, Except.bind]
    by_cases ht : peek p 1 ≠ usbDescrTypeCfg
    · rw [if_pos ht]
      exact ensures_pure nofun
    · rw [if_neg ht]
      refine ensures_bind (usbFindExtra_ensures hp (by omega)) ?_
      intro extra hextra
      exact ensures_pure (extraInside_some hextra)

theorem usbParseIfDescr_ensures {i a : Nat} {ret : UsbIfDescr} (hp : Inside p) :
    Ensures NoOverrun (usbParseIfDescr p i a ret) ExtraInside := by
  rw [usbParseIfDescr, findInterface_eq hp]
  simp only [bind, Except.bind]
  cases hfind : (chain 3 p).find? (isIf i a) with
  | none => exact ensures_pure nofun
  | some q =>
      obtain ⟨hin, hroom, -⟩ := findInterface_mem hp hfind
      simp only [usbParseData_if hin]
      refine ensures_bind (usbFindExtra_ensures hin (by omega)) ?_
      intro extra hextra
      exact ensures_pure (extraInside_some hextra)

theorem usbParseEpDescr_ensures {i a n : Nat} {ret : UsbEpDescr} (hp : Inside p) :
    Ensures NoOverrun (usbParseEpDescr p i a n ret) ExtraInside := by
  rw [usbParseEpDescr, findInterface_eq hp]
  simp only [bind, Except.bind]
  cases hfind : (chain 3 p).find? (isIf i a) with
  | none => exact ensures_pure nofun
  | some q =>
      obtain ⟨hin, hroom, hif⟩ := findInterface_mem hp hfind
      have htype : peek q 1 = usbDescrTypeIf := (of_decide_eq_true hif).1
      simp only [usbNthDescr_eq hin (by omega) htype]
      cases hn : (endpointsOf q)[n]? with
      | none => exact ensures_pure nofun
      | some r =>
          obtain ⟨hin', hroom', -⟩ := mem_endpointsOf hin (List.mem_of_getElem? hn)
          simp only [usbParseData_ep hin']
          refine ensures_bind (usbFindExtra_ensures hin' (by omega)) ?_
          intro extra hextra
          exact ensures_pure (extraInside_some hextra)

end Descriptors

section Tree

variable {env : Env} {cloud : Place}

theorem copyExtra_ensures {src : Place} (hsrc : Inside src) (extra : Option (Block UInt8)) (extralen : Nat) (h : Heap) :
    Safe (copyExtra env src extra extralen h) := by
  rw [copyExtra]
  by_cases h0 : src.2 = 0
  · rw [if_pos h0]
    exact ensures_pure trivial
  · rw [if_neg h0]
    rcases calloc env (List.replicate src.2 0) h with ⟨_ | b, h'⟩
    · exact ensures_pure trivial
    · have hle : src.2 ≤ src.1.length := hsrc
      simp only [memcpy, if_pos hle]
      exact ensures_pure trivial

theorem safe_eachSlot {σ : Type} {fill : Nat → σ → Heap → Run (Int × σ × Heap)}
    (hfill : ∀ i s h, Safe (fill i s h)) {n : Nat} {slots : List σ} {h : Heap} (hlen : slots.length = n) :
    Ensures NoOverrun (eachSlot fill 0 n slots h) fun _ => True := by
  refine ensures_eachSlot (n := n) (fun _ slots _ => slots.length = n) ?_ ?_ ?_ ?_ hlen
  · exact fun _ _ _ h => h
  · intro i slots h s hi hslots hs
    refine ensures_mono (hfill i s h) ?_
    rintro ⟨rval, s', h'⟩ -
    split
    · rw [List.length_set]
      exact hslots
    · trivial
  · exact fun _ _ _ => trivial
  · exact Nat.zero_add n

theorem usbParseEndpoint_safe (hc : Inside cloud) (index iface alt ep : Nat) (slot : UsbEndpointDescriptor) (h : Heap) :
    Safe (usbParseEndpoint env index iface alt cloud ep slot h) := by
  rw [usbParseEndpoint]
  refine ensures_bind (usbParseEpDescr_ensures hc) ?_
  rintro (_ | ⟨rval, descr, src⟩) hr
  · exact ensures_pure trivial
  · simp only
    split
    · exact ensures_pure trivial
    · refine ensures_bind (copyExtra_ensures (hr _ _ _ rfl) _ _ _) ?_
      intro r _
      exact ensures_pure trivial

theorem parseEndpoints_safe (hc : Inside cloud) (index iface alt : Nat) (slot : UsbInterfaceDescriptor) (h : Heap) :
    Safe (parseEndpoints env index iface alt cloud slot h) := by
  simp only [parseEndpoints]
  split
  · exact ensures_pure trivial
  · simp only [calloc]
    cases env.grant h.asked with
    | false => exact ensures_pure trivial
    | true =>
        refine ensures_bind (safe_eachSlot (usbParseEndpoint_safe hc index iface alt) List.length_replicate) ?_
        intro r _
        exact ensures_pure trivial

theorem usbParseAlternate_safe (hc : Inside cloud) (index iface alt : Nat) (slot : UsbInterfaceDescriptor) (h : Heap) :
    Safe (usbParseAlternate env index iface cloud alt slot h) := by
  rw [usbParseAlternate]
  refine ensures_bind (usbParseIfDescr_ensures hc) ?_
  rintro (_ | ⟨rval, descr, src⟩) hr
  · exact ensures_pure trivial
  · simp only
    split
    · exact ensures_pure trivial
    · refine ensures_bind (copyExtra_ensures (hr _ _ _ rfl) _ _ _) ?_
      rintro ⟨err, extra, extralen, h'⟩ -
      simp only
      split
      · exact ensures_pure trivial
      · exact parseEndpoints_safe hc _ _ _ _ _

theorem countAlternates_safe (hc : Inside cloud) (iface k alt maxAlt : Nat) :
    Safe (countAlternates cloud iface k alt maxAlt) := by
  induction k generalizing alt maxAlt with
  | zero => exact ensures_pure trivial
  | succ k ih =>
      rw [countAlternates]
      refine ensures_bind (usbParseIfDescr_ensures hc) ?_
      rintro (_ | ⟨rval, descr, src⟩) -
      · exact ensures_pure trivial
      · simp only
        split
        · exact ensures_pure trivial
        · exact ih _ _

theorem usbParseInterface_safe (hc : Inside cloud) (index iface : Nat) (slot : UsbInterface) (h : Heap) :
    Safe (usbParseInterface env index cloud iface slot h) := by
  rw [usbParseInterface]
  refine ensures_bind (countAlternates_safe hc _ _ _ _) ?_
  intro maxAlt _
  simp only [calloc]
  cases env.grant h.asked with
  | false => exact ensures_pure trivial
  | true =>
      refine ensures_bind (safe_eachSlot (usbParseAlternate_safe hc index iface) List.length_replicate) ?_
      intro r _
      exact ensures_pure trivial

theorem parseInterfaces_safe {bytes : List UInt8} {slot : UsbConfigDescriptor}
    (hc : slot.descr.wTotalLength ≤ bytes.length ∨ slot.descr.bNumInterfaces = 0) (index : Nat) (h : Heap) :
    Safe (parseInterfaces env index bytes slot h) := by
  simp only [parseInterfaces, calloc]
  cases env.grant h.asked with
  | false => exact ensures_pure trivial
  | true =>
      refine ensures_bind (?_ : Safe _) fun _ _ => ensures_pure trivial
      rcases hc with hc | hc
      · have hin : Inside (bytes, slot.descr.wTotalLength) := hc
        exact safe_eachSlot (usbParseInterface_safe hin index) List.length_replicate
      · rw [hc]
        exact ensures_pure trivial

end Tree

def totalLength (bytes : List UInt8) : Nat := peek (bytes, 0) 2 + 256 * peek (bytes, 0) 3

def numInterfaces (bytes : List UInt8) : Nat := peek (bytes, 0) 4

/-- What the descriptor says once the `len` bytes of a second read have been parsed
over it. A read that does not begin with a configuration descriptor leaves it alone,
and so do bytes that are missing. -/
def totalAfter (total len : Nat) (bytes : List UInt8) : Nat :=
  if peek (bytes, 0) 1 = usbDescrTypeCfg ∧ 4 ≤ len then totalLength bytes else total

def interfacesAfter (n len : Nat) (bytes : List UInt8) : Nat :=
  if peek (bytes, 0) 1 = usbDescrTypeCfg ∧ 5 ≤ len then numInterfaces bytes else n

theorem decode_offset_le {structlen : Nat} {format : List Char} {p : Place} {offset : Nat} {s : Store}
    (hs : s ∈ (decode structlen format p offset).1) : offset ≤ s.offset := by
  induction format generalizing p offset with
  | nil => cases hs
  | cons fmt format ih =>
      rw [decode] at hs
      cases hsize : itemSize fmt with
      | none =>
          rw [hsize] at hs
          cases hs
      | some size =>
          have hpos : 0 < size := by
            simp only [itemSize] at hsize
            split at hsize <;> cases hsize <;> decide
          have hal : offset ≤ align size offset := by
            have h := Nat.div_add_mod (offset + size - 1) size
            have hmod := Nat.mod_lt (offset + size - 1) hpos
            rw [align, Nat.mul_comm]
            omega
          simp only [hsize] at hs
          split at hs
          · rcases List.mem_cons.mp hs with rfl | hs
            · exact hal
            · have hle := ih hs
              omega
          · cases hs

theorem foldl_store_later {l : List Store} {d : UsbCfgDescr} (h : ∀ s ∈ l, 5 ≤ s.offset) :
    (l.foldl UsbCfgDescr.store d).wTotalLength = d.wTotalLength ∧
      (l.foldl UsbCfgDescr.store d).bNumInterfaces = d.bNumInterfaces := by
  induction l generalizing d with
  | nil => exact ⟨rfl, rfl⟩
  | cons s l ih =>
      obtain ⟨ht, hn⟩ := @ih (d.store s) fun s' hs' => h s' (List.mem_cons_of_mem _ hs')
      have hs := h s List.mem_cons_self
      have hkeep : (d.store s).wTotalLength = d.wTotalLength ∧ (d.store s).bNumInterfaces = d.bNumInterfaces := by
        simp only [UsbCfgDescr.store]
        split <;> first | omega | exact ⟨rfl, rfl⟩
      rw [List.foldl_cons, ht, hn]
      exact hkeep

theorem decode_cfg_header {bytes : List UInt8} {len : Nat} (hp : Inside (bytes, len)) (h : 2 ≤ len) (d : UsbCfgDescr) :
    let d' := (decode sizeofCfg cfgFormat (bytes, len) 0).1.foldl UsbCfgDescr.store d
    d'.wTotalLength = (if 4 ≤ len then totalLength bytes else d.wTotalLength) ∧
      d'.bNumInterfaces = (if 5 ≤ len then numInterfaces bytes else d.bNumInterfaces) := by
  have hlen : len ≤ bytes.length := hp
  rw [cfgFormat]
  obtain _ | ⟨b0, _ | ⟨b1, bytes⟩⟩ := bytes
  · simp only [List.length_nil] at hlen
    omega
  · simp only [List.length_cons, List.length_nil] at hlen
    omega
  rw [decode_byte (by omega) (by decide), decode_byte (by omega) (by decide)]
  by_cases h4 : 4 ≤ len
  · obtain _ | ⟨b2, _ | ⟨b3, bytes⟩⟩ := bytes
    · simp only [List.length_cons, List.length_nil] at hlen
      omega
    · simp only [List.length_cons, List.length_nil] at hlen
      omega
    rw [decode_short 1 (by omega) (by decide)]
    by_cases h5 : 5 ≤ len
    · obtain _ | ⟨b4, bytes⟩ := bytes
      · simp only [List.length_cons, List.length_nil] at hlen
        omega
      rw [decode_byte (by omega) (by decide)]
      simp only [h4, h5, ↓reduceIte, Prod.map_fst, List.foldl_cons]
      obtain ⟨ht, hn⟩ := foldl_store_later
        (l := (decode sizeofCfg ['c', 'c', 'c', 'c'] (bytes, len - 1 - 1 - 2 - 1) 5).1)
        (d := (((d.store ⟨0, b0.toNat⟩).store ⟨1, b1.toNat⟩).store ⟨2, b2.toNat + 256 * b3.toNat⟩).store
          ⟨4, b4.toNat⟩) fun s hs => decode_offset_le hs
      exact ⟨ht, hn⟩
    · have hfour : len = 4 := by omega
      subst hfour
      rw [decode_none rfl (by decide)]
      exact ⟨rfl, rfl⟩
  · rw [decode_none (show itemSize 's' = some 2 from rfl) (by omega)]
    have h5 : ¬5 ≤ len := by omega
    simp only [h4, h5, ↓reduceIte]
    exact ⟨rfl, rfl⟩

theorem usbParseCfgDescr_type (p : Place) (hp : Inside p) (ret : UsbCfgDescr) :
    Ensures AnyFault (usbParseCfgDescr p ret) fun r => r.isSome → peek p 1 = usbDescrTypeCfg := by
  rw [usbParseCfgDescr]
  by_cases h : p.2 < 2
  · rw [if_pos h]
    exact ensures_pure fun h => by cases h
  · have hlen : p.2 ≤ p.1.length := hp
    rw [if_neg h, byte_eq_peek (by omega)]
    by_cases ht : peek p 1 = usbDescrTypeCfg
    · exact ensures_any fun _ _ => ht
    · simp only [bind, Except.bind, if_pos ht]
      exact ensures_pure fun h => by cases h

theorem usbParseCfgDescr_header {bytes : List UInt8} {len : Nat} (hp : Inside (bytes, len)) (ret : UsbCfgDescr) :
    Ensures NoOverrun (usbParseCfgDescr (bytes, len) ret) fun r =>
      (r.elim ret fun r => r.2.1).wTotalLength = totalAfter ret.wTotalLength len bytes ∧
        (r.elim ret fun r => r.2.1).bNumInterfaces = interfacesAfter ret.bNumInterfaces len bytes := by
  rw [usbParseCfgDescr]
  by_cases h : len < 2
  · rw [if_pos h]
    refine ensures_pure ?_
    have h4 : ¬4 ≤ len := by omega
    have h5 : ¬5 ≤ len := by omega
    simp only [Option.elim_none, totalAfter, interfacesAfter, h4, h5, and_false, ↓reduceIte, and_self]
  · have hlen : len ≤ bytes.length := hp
    have hbyte : byte bytes 1 = .ok (peek (bytes, 0) 1) := @byte_eq_peek (bytes, 0) 1 (by simp only; omega)
    simp only [if_neg h, hbyte, usbParseData_cfg hp, bind, Except.bind]
    by_cases ht : peek (bytes, 0) 1 = usbDescrTypeCfg
    · rw [if_neg (not_not.mpr ht)]
      refine ensures_bind (usbFindExtra_ensures hp (by simp only; omega)) ?_
      intro extra _
      refine ensures_pure ?_
      obtain ⟨htot, hnum⟩ := decode_cfg_header hp (by omega) ret
      simp only [Option.elim_some, htot, hnum, totalAfter, interfacesAfter, ht, true_and, and_self]
    · rw [if_pos ht]
      refine ensures_pure ?_
      simp only [Option.elim_none, totalAfter, interfacesAfter, ht, false_and, ↓reduceIte, and_self]

section Config

variable {env : Env} {index : Nat}

/-- The two lengths of the second read agree: the total length that is in force after it
is no longer than the cloud, or there are no interfaces to look for. -/
def Confined (n : Nat) (first second : List UInt8) : Prop :=
  totalAfter (totalLength first) n second ≤ n ∨ interfacesAfter (numInterfaces first) n second = 0

theorem parseCloud_safe {cloud : List UInt8} {extra : Place} {slot : UsbConfigDescriptor} {h : Heap}
    (hlen : slot.descr.wTotalLength = cloud.length) (hextra : Inside extra)
    (hc : totalAfter slot.descr.wTotalLength cloud.length cloud ≤ cloud.length ∨
      interfacesAfter slot.descr.bNumInterfaces cloud.length cloud = 0) :
    Safe (parseCloud env index cloud extra slot h) := by
  have hin : Inside (cloud, slot.descr.wTotalLength) := Nat.le_of_eq hlen
  rw [parseCloud]
  refine ensures_bind (ensures_and (usbParseCfgDescr_ensures hin _) (usbParseCfgDescr_header hin _)) ?_
  rintro r ⟨hr, htot, hnum⟩
  have hsrc : Inside (r.elim (slot.descr, extra) Prod.snd).2 := by
    rcases r with _ | ⟨rval, descr, src⟩
    · exact hextra
    · exact hr _ _ _ rfl
  have hdescr : (r.elim (slot.descr, extra) Prod.snd).1 = r.elim slot.descr fun r => r.2.1 := by
    cases r <;> rfl
  refine ensures_bind (copyExtra_ensures hsrc _ _ _) ?_
  rintro ⟨err, extra', extralen, h'⟩ -
  by_cases herr : err = 0
  · subst herr
    refine parseInterfaces_safe ?_ _ _
    show (r.elim (slot.descr, extra) Prod.snd).1.wTotalLength ≤ cloud.length ∨
      (r.elim (slot.descr, extra) Prod.snd).1.bNumInterfaces = 0
    rw [hdescr, htot, hnum]
    rw [← hlen] at hc ⊢
    exact hc
  · show Safe (if err ≠ 0 then _ else _)
    rw [if_pos herr]
    exact ensures_pure trivial

theorem bytes_length {t : Transfer} {n : Nat} (h : (n : Int) ≤ t.rval n) : (t.bytes n).length = n := by
  cases t with
  | failed errno =>
      have hn : n = 0 := by
        simp only [Transfer.rval] at h
        omega
      exact hn.symm
  | received bytes =>
      have hle := List.length_take_le n bytes
      exact Nat.le_antisymm hle (Int.ofNat_le.mp h)

/-- The condition on the two reads of a configuration. -/
def Agrees (env : Env) (index : Nat) : Prop :=
  let first := (env.config index).bytes usbCfgDescrSize
  Confined (totalLength first) first ((env.cloud index).bytes (totalLength first))

theorem usbParseConfig_safe (hc : Agrees env index) (slot : UsbConfigDescriptor) (h : Heap) :
    Safe (usbParseConfig env index slot h) := by
  rw [usbParseConfig]
  split
  · exact ensures_pure trivial
  · rename_i hfull
    have hnine : ((env.config index).bytes usbCfgDescrSize).length = usbCfgDescrSize := bytes_length (Int.not_lt.mp hfull)
    have hin : Inside ((env.config index).bytes usbCfgDescrSize, usbCfgDescrSize) := Nat.le_of_eq hnine.symm
    have hfirst := ensures_and (usbParseCfgDescr_ensures hin _)
      (ensures_and (usbParseCfgDescr_header hin slot.descr)
        (ensures_mono (ensures_self (usbParseCfgDescr_ensures hin _)) fun r hr => hr.2))
    refine ensures_bind hfirst ?_
    rintro (_ | ⟨rval, descr, extra⟩) ⟨hextra, ⟨htot, hnum⟩, hrun⟩
    · exact ensures_pure trivial
    · have htype : peek ((env.config index).bytes usbCfgDescrSize, 0) 1 = usbDescrTypeCfg :=
        (usbParseCfgDescr_type _ hin slot.descr).of_ok hrun rfl
      have htot' : descr.wTotalLength = totalLength ((env.config index).bytes usbCfgDescrSize) := by
        rw [show descr.wTotalLength = _ from htot, totalAfter, if_pos ⟨htype, by decide⟩]
      have hnum' : descr.bNumInterfaces = numInterfaces ((env.config index).bytes usbCfgDescrSize) := by
        rw [show descr.bNumInterfaces = _ from hnum, interfacesAfter, if_pos ⟨htype, by decide⟩]
      simp only
      split
      · exact ensures_pure trivial
      · simp only [malloc]
        cases env.grant h.asked with
        | false => exact ensures_pure trivial
        | true =>
            by_cases hcloud : (env.cloud index).rval descr.wTotalLength ≠ descr.wTotalLength
            · simp only [↓reduceIte, if_pos hcloud]
              exact ensures_pure trivial
            · simp only [↓reduceIte, if_neg hcloud]
              have hlen : ((env.cloud index).bytes descr.wTotalLength).length = descr.wTotalLength :=
                bytes_length (Int.le_of_eq (not_not.mp hcloud).symm)
              refine ensures_bind (parseCloud_safe hlen.symm (hextra _ _ _ rfl) ?_) fun _ _ => ensures_pure trivial
              rw [hlen, htot', hnum']
              exact hc

end Config

end OiUserland.Libusb.Bounds
