import OiUserland.Libusb.Configs

namespace OiUserland.Libusb.Decoding

open Lib.Faults Lib.LengthChains Descriptors

def itemBytes (size : Nat) (buf : List UInt8) : List Nat := (buf.take size).map UInt8.toNat

def Fits (fmt : Char) (size structlen datalen offset : Nat) : Prop :=
  size ≤ datalen ∧ align size offset + size ≤ structlen ∧ ¬(fmt = 'L' ∧ structlen = align size offset + size)

instance (fmt : Char) (size structlen datalen offset : Nat) : Decidable (Fits fmt size structlen datalen offset) :=
  inferInstanceAs (Decidable (_ ∧ _ ∧ _))

def decode (structlen : Nat) : List Char → Place → Nat → List Store × Nat
  | [], _, offset => ([], offset)
  | fmt :: format, p, offset =>
      match itemSize fmt with
      | none => ([], offset)
      | some size =>
          if Fits fmt size structlen p.2 offset then
            (decode structlen format (p.1.drop size, p.2 - size) (align size offset + size)).map
              (⟨align size offset, itemValue fmt (itemBytes size p.1)⟩ :: ·) id
          else ([], offset)

theorem readBytes_eq {n : Nat} {buf : List UInt8} (h : n ≤ buf.length) : readBytes buf n = .ok (itemBytes n buf) := by
  induction n generalizing buf with
  | zero => rfl
  | succ n ih =>
      cases buf with
      | nil => cases h
      | cons b bs =>
          rw [readBytes, List.tail_cons, ih (Nat.le_of_succ_le_succ h)]
          rfl

theorem parseFormat_eq {structlen : Nat} {format : List Char} {c : Cursor}
    (hf : ∀ fmt ∈ format, (itemSize fmt).isSome) (hin : c.datalen ≤ c.data.length)
    (hc : c.counter + format.length ≤ structlen + 1) :
    Ensures NoFault (parseFormat structlen format 0 c) fun c' =>
      (c'.stores, c'.structure_) =
        (c.stores ++ (decode structlen format (c.data, c.datalen) c.structure_).1,
          (decode structlen format (c.data, c.datalen) c.structure_).2) := by
  induction format generalizing c with
  | nil => simp [parseFormat, decode, ensures_pure]
  | cons fmt format ih =>
      obtain ⟨size, hsize⟩ := Option.isSome_iff_exists.mp (hf fmt List.mem_cons_self)
      rw [List.length_cons] at hc
      have hcount : ¬structlen < c.counter := by omega
      have hmax : max 0 1 = 1 := rfl
      by_cases hfit : Fits fmt size structlen c.datalen c.structure_
      · have hnot : ¬(c.datalen < size ∨ structlen < align size c.structure_ + size ∨
            (fmt = 'L' ∧ structlen = align size c.structure_ + size)) := by
          obtain ⟨h1, h2, h3⟩ := hfit
          rintro (h | h | h)
          · omega
          · omega
          · exact h3 h
        have hread := readBytes_eq (Nat.le_trans hfit.1 hin)
        simp only [parseFormat, hsize, hmax, parseItems, hcount, ↓reduceIte, parseItem, hnot, hread, bind, Except.bind,
          pure, Except.pure, decode, hfit]
        refine ensures_mono (ih (fun f hm => hf f (List.mem_cons_of_mem _ hm)) ?_ ?_) ?_
        · simp only [List.length_drop]
          omega
        · simp only
          omega
        · intro c' hc'
          rw [hc', List.append_assoc]
          rfl
      · have hnot : c.datalen < size ∨ structlen < align size c.structure_ + size ∨
            (fmt = 'L' ∧ structlen = align size c.structure_ + size) := by
          by_contra h
          simp only [not_or, Nat.not_lt] at h
          exact hfit h
        simp only [parseFormat, hsize, hmax, parseItems, hcount, ↓reduceIte, parseItem, hnot, bind, Except.bind,
          pure, Except.pure, decode, hfit, List.append_nil]
        rfl

theorem usbParseData_eq {format : List Char} {structlen : Nat} {p : Place} (hf : ∀ fmt ∈ format, (itemSize fmt).isSome)
    (hp : Inside p) (hc : format.length ≤ structlen) :
    usbParseData format p structlen = .ok (decode structlen format p 0) := by
  have hcount : 1 + format.length ≤ structlen + 1 := by omega
  obtain ⟨c, hrun, heq⟩ := exists_of_noFault (parseFormat_eq (c := ⟨p.1, p.2, 0, 1, []⟩) hf hp hcount)
  rw [usbParseData, hrun]
  exact congrArg Except.ok (heq.trans (by rw [List.nil_append]))

theorem decode_byte {structlen len offset : Nat} {format : List Char} {b : UInt8} {bs : List UInt8} (hlen : 1 ≤ len)
    (hoff : offset + 1 ≤ structlen) :
    decode structlen ('c' :: format) (b :: bs, len) offset =
      (decode structlen format (bs, len - 1) (offset + 1)).map (⟨offset, b.toNat⟩ :: ·) id := by
  have ha : align 1 offset = offset := by
    simp [align]
  have hfit : Fits 'c' 1 structlen len offset := ⟨hlen, by rw [ha]; exact hoff, fun h => absurd h.1 (by decide)⟩
  simp only [decode, itemSize, hfit, ↓reduceIte, ha]
  rfl

theorem decode_short (k : Nat) {structlen len : Nat} {format : List Char} {b b' : UInt8} {bs : List UInt8}
    (hlen : 2 ≤ len) (hoff : 2 * k + 2 ≤ structlen) :
    decode structlen ('s' :: format) (b :: b' :: bs, len) (2 * k) =
      (decode structlen format (bs, len - 2) (2 * k + 2)).map (⟨2 * k, b.toNat + 256 * b'.toNat⟩ :: ·) id := by
  have ha : align 2 (2 * k) = 2 * k := by
    rw [align]
    omega
  have hfit : Fits 's' 2 structlen len (2 * k) :=
    ⟨hlen, by rw [ha]; exact hoff, fun h => absurd h.1 (by decide)⟩
  simp only [decode, itemSize, hfit, ↓reduceIte, ha]
  rfl

theorem decode_none {structlen len offset size : Nat} {fmt : Char} {format : List Char} {buf : List UInt8}
    (hs : itemSize fmt = some size) (hlen : len < size) :
    decode structlen (fmt :: format) (buf, len) offset = ([], offset) := by
  have hfit : ¬Fits fmt size structlen len offset := fun h => absurd h.1 (Nat.not_le.mpr hlen)
  simp only [decode, hs, hfit, ↓reduceIte]

theorem decode_snd (buf buf' : List UInt8) {structlen : Nat} {format : List Char} {len offset : Nat} :
    (decode structlen format (buf, len) offset).2 = (decode structlen format (buf', len) offset).2 := by
  induction format generalizing buf buf' len offset with
  | nil => rfl
  | cons fmt format ih =>
      rw [decode, decode]
      cases itemSize fmt with
      | none => rfl
      | some size =>
          by_cases hfit : Fits fmt size structlen len offset
          · simp only [hfit, ↓reduceIte, Prod.map_snd, id_eq]
            exact ih _ _
          · simp only [hfit, ↓reduceIte]

theorem decode_if {b0 b1 b2 b3 b4 b5 b6 b7 b8 : UInt8} {rest : List UInt8} {len : Nat} (h : 9 ≤ len) :
    decode sizeofIf ifFormat (b0 :: b1 :: b2 :: b3 :: b4 :: b5 :: b6 :: b7 :: b8 :: rest, len) 0 =
      ([⟨0, b0.toNat⟩, ⟨1, b1.toNat⟩, ⟨2, b2.toNat⟩, ⟨3, b3.toNat⟩, ⟨4, b4.toNat⟩, ⟨5, b5.toNat⟩, ⟨6, b6.toNat⟩,
        ⟨7, b7.toNat⟩, ⟨8, b8.toNat⟩], 9) := by
  rw [ifFormat]
  simp (disch := first | omega | decide) only [decode_byte]
  rfl

theorem decode_cfg {b0 b1 b2 b3 b4 b5 b6 b7 b8 : UInt8} {rest : List UInt8} {len : Nat} (h : 9 ≤ len) :
    decode sizeofCfg cfgFormat (b0 :: b1 :: b2 :: b3 :: b4 :: b5 :: b6 :: b7 :: b8 :: rest, len) 0 =
      ([⟨0, b0.toNat⟩, ⟨1, b1.toNat⟩, ⟨2, b2.toNat + 256 * b3.toNat⟩, ⟨4, b4.toNat⟩, ⟨5, b5.toNat⟩, ⟨6, b6.toNat⟩,
        ⟨7, b7.toNat⟩, ⟨8, b8.toNat⟩], 9) := by
  rw [cfgFormat, decode_byte (by omega) (by decide), decode_byte (by omega) (by decide),
    decode_short 1 (by omega) (by decide)]
  simp (disch := first | omega | decide) only [decode_byte]
  rfl

theorem decode_ep {b0 b1 b2 b3 b4 b5 b6 b7 b8 : UInt8} {rest : List UInt8} {len : Nat} (h : 9 ≤ len) :
    decode sizeofEp epFormat (b0 :: b1 :: b2 :: b3 :: b4 :: b5 :: b6 :: b7 :: b8 :: rest, len) 0 =
      ([⟨0, b0.toNat⟩, ⟨1, b1.toNat⟩, ⟨2, b2.toNat⟩, ⟨3, b3.toNat⟩, ⟨4, b4.toNat + 256 * b5.toNat⟩, ⟨6, b6.toNat⟩,
        ⟨7, b7.toNat⟩, ⟨8, b8.toNat⟩], 9) := by
  rw [epFormat, decode_byte (by omega) (by decide), decode_byte (by omega) (by decide),
    decode_byte (by omega) (by decide), decode_byte (by omega) (by decide),
    decode_short 2 (by omega) (by decide)]
  simp (disch := first | omega | decide) only [decode_byte]
  rfl

theorem decode_ep_size {buf : List UInt8} {len : Nat} :
    usbEpDescrSize ≤ (decode sizeofEp epFormat (buf, len) 0).2 ↔ 7 ≤ len := by
  by_cases h : 9 ≤ len
  · have hfull : decode sizeofEp epFormat ([0, 0, 0, 0, 0, 0, 0, 0, 0], len) 0 = _ := decode_ep h
    rw [decode_snd buf [0, 0, 0, 0, 0, 0, 0, 0, 0], hfull]
    simp only [usbEpDescrSize]
    omega
  · have hshort : ∀ n < 9, usbEpDescrSize ≤ (decode sizeofEp epFormat ([], n) 0).2 ↔ 7 ≤ n := by decide
    rw [decode_snd buf []]
    exact hshort len (by omega)

end OiUserland.Libusb.Decoding

namespace OiUserland.Libusb.Scans

open Lib.Faults Lib.LengthChains Descriptors

def peek (p : Place) (i : Nat) : Nat := (p.1[i]?.map UInt8.toNat).getD 0

theorem byte_eq_peek {p : Place} {i : Nat} (h : i < p.1.length) : byte p.1 i = .ok (peek p i) := by
  rw [byte_eq h, peek, List.getElem?_eq_getElem h]
  rfl

def isIf (i a : Nat) (p : Place) : Bool := peek p 1 = usbDescrTypeIf ∧ peek p 2 = i ∧ peek p 3 = a

def isStandard (p : Place) : Bool :=
  peek p 1 = usbDescrTypeCfg ∨ peek p 1 = usbDescrTypeIf ∨ peek p 1 = usbDescrTypeEp

def endpointsOf (p : Place) : List Place :=
  ((chain 1 p).tail.takeWhile fun q => peek q 1 ≠ usbDescrTypeIf).filter fun q => peek q 1 = usbDescrTypeEp

section Searches

variable {p q : Place}

theorem isInterface_eq {i a : Nat} (hp : Inside p) (h : 3 < p.2) : isInterface i a p.1 = .ok (isIf i a p) := by
  have hlen : p.2 ≤ p.1.length := hp
  have h1 : byte p.1 1 = .ok (peek p 1) := byte_eq_peek (by omega)
  have h2 : byte p.1 2 = .ok (peek p 2) := byte_eq_peek (by omega)
  have h3 : byte p.1 3 = .ok (peek p 3) := byte_eq_peek (by omega)
  simp only [isInterface, isIf, h1, h2, h3, bind, Except.bind, pure, Except.pure]
  by_cases ht : peek p 1 = usbDescrTypeIf
  · by_cases hi : peek p 2 = i
    · simp [ht, hi]
    · simp [ht, hi]
  · simp [ht]

theorem findInterface_eq {i a : Nat} (hp : Inside p) : findInterface p i a = .ok ((chain 3 p).find? (isIf i a)) := by
  rw [findInterface, walk_eq_overPlaces hp]
  refine overPlaces_find ?_
  intro q hq
  obtain ⟨hin, hroom⟩ := mem_chain hp hq
  rw [isInterface_eq hin hroom]
  rfl

theorem findInterface_mem {i a : Nat} (hp : Inside p) (h : (chain 3 p).find? (isIf i a) = some q) :
    Inside q ∧ 3 < q.2 ∧ isIf i a q = true := by
  obtain ⟨hin, hroom⟩ := mem_chain hp (List.mem_of_find?_eq_some h)
  exact ⟨hin, hroom, List.find?_some h⟩

theorem overPlaces_endpoints {ps : List Place} {visit : Bool × Nat → Place → Run ((Bool × Nat) ⊕ Option Place)} {n : Nat}
    (hv : ∀ m, ∀ q ∈ ps, visit (false, m) q =
      if peek q 1 = usbDescrTypeIf then .ok (.inr none)
      else if peek q 1 = usbDescrTypeEp then if m = 0 then .ok (.inr (some q)) else .ok (.inl (false, m - 1))
      else .ok (.inl (false, m))) :
    overPlaces visit (false, n) ps =
      .ok ((ps.takeWhile fun q => peek q 1 ≠ usbDescrTypeIf).filter fun q => peek q 1 = usbDescrTypeEp)[n]? := by
  induction ps generalizing n with
  | nil => rfl
  | cons q ps ih =>
      have ih' (m : Nat) := @ih m fun m q' hq' => hv m q' (List.mem_cons_of_mem _ hq')
      rw [overPlaces, hv n q List.mem_cons_self]
      by_cases hif : peek q 1 = usbDescrTypeIf
      · simp [hif, bind, Except.bind, pure, Except.pure]
      · by_cases hep : peek q 1 = usbDescrTypeEp
        · cases n with
          | zero => simp [hep, usbDescrTypeEp, usbDescrTypeIf, bind, Except.bind, pure, Except.pure]
          | succ n => simpa [hep, usbDescrTypeEp, usbDescrTypeIf, bind, Except.bind, pure, Except.pure] using ih' n
        · simpa [hif, hep, bind, Except.bind, pure, Except.pure] using ih' n

/-- usb_nth_descr, started at an interface descriptor, counts its endpoint descriptors. -/
theorem usbNthDescr_eq {n : Nat} (hp : Inside p) (h : 1 < p.2) (hif : peek p 1 = usbDescrTypeIf) :
    usbNthDescr p usbDescrTypeEp n usbDescrTypeIf = .ok (endpointsOf p)[n]? := by
  obtain ⟨ps, hps⟩ := chain_cons h
  have hbyte (q : Place) (hq : q ∈ chain 1 p) : byte q.1 1 = .ok (peek q 1) := by
    obtain ⟨hin, hroom⟩ := mem_chain hp hq
    have hlen : q.2 ≤ q.1.length := hin
    exact byte_eq_peek (by omega)
  rw [usbNthDescr, walk_eq_overPlaces hp, endpointsOf, hps, List.tail_cons, overPlaces,
    hbyte p (hps ▸ List.mem_cons_self)]
  simp only [bind, Except.bind, Bool.true_eq_false, hif, false_and, ↓reduceIte, usbDescrTypeIf, usbDescrTypeEp,
    Nat.reduceEqDiff, pure, Except.pure]
  refine overPlaces_endpoints ?_
  intro m q hq
  rw [hbyte q (hps ▸ List.mem_cons_of_mem _ hq)]
  simp only [true_and]
  rfl

theorem mem_endpointsOf (hp : Inside p) (hq : q ∈ endpointsOf p) :
    Inside q ∧ 1 < q.2 ∧ peek q 1 = usbDescrTypeEp := by
  obtain ⟨hmem, hep⟩ := List.mem_filter.mp hq
  have hchain : q ∈ chain 1 p := List.mem_of_mem_tail ((List.takeWhile_sublist _).subset hmem)
  obtain ⟨hin, hroom⟩ := mem_chain hp hchain
  exact ⟨hin, hroom, of_decide_eq_true hep⟩

end Searches

section Extra

variable {p : Place}

theorem scanExtra_ensures {off : Nat} (hp : Inside p) :
    Ensures NoOverrun (scanExtra off p) fun r => ∀ n, r = some n → off ≤ n ∧ n + 2 ≤ off + p.2 := by
  induction hn : p.2 using Nat.strongRecOn generalizing off p with
  | ind n ih =>
      rw [scanExtra]
      by_cases h : 1 < p.2
      · have hlen : p.2 ≤ p.1.length := hp
        rw [dif_pos h, byte_eq_peek (by omega), byte_eq_peek (by omega)]
        simp only [bind, Except.bind]
        by_cases hstd : peek p 1 = usbDescrTypeCfg ∨ peek p 1 = usbDescrTypeIf ∨ peek p 1 = usbDescrTypeEp
        · rw [if_pos hstd]
          refine ensures_pure ?_
          intro m hm
          obtain rfl := Option.some.inj hm
          omega
        · rw [if_neg hstd]
          by_cases hb : peek p 0 = 0
          · rw [dif_pos hb]
            exact ensures_error rfl
          · rw [dif_neg hb]
            refine ensures_mono (@ih (p.2 - peek p 0) (by omega) _ _ (hp.drop _) rfl) ?_
            intro r hr m hm
            have hm' : off + peek p 0 ≤ m ∧ m + 2 ≤ off + peek p 0 + (p.2 - peek p 0) := hr m hm
            omega
      · rw [dif_neg h]
        exact ensures_pure nofun

theorem usbFindExtra_ensures (hp : Inside p) (h : 0 < p.2) : Ensures NoOverrun (usbFindExtra p) Inside := by
  have hlen : p.2 ≤ p.1.length := hp
  rw [usbFindExtra, byte_eq_peek (by omega)]
  simp only [bind, Except.bind]
  refine ensures_bind (scanExtra_ensures (hp.drop (peek p 0))) ?_
  intro r hr
  refine ensures_pure ?_
  rw [Inside, List.length_drop]
  cases r with
  | none => exact Nat.zero_le _
  | some n =>
      have hn : 0 ≤ n ∧ n + 2 ≤ 0 + (p.2 - peek p 0) := hr n rfl
      simp only [Option.getD_some]
      omega

end Extra

end OiUserland.Libusb.Scans
