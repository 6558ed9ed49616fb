import OiUserland.Libusb.Decoding

namespace OiUserland.Libusb.ExtraScans

open Lib.Faults Lib.LengthChains Descriptors

/-- What usb_find_extra stores through `extra` and `extralen`, of which the latter is an int. -/
def usbFindExtraArgs (buf : List UInt8) : Run (List UInt8 × Int) := do
  let extra ← usbFindExtra (buf, buf.length)
  pure (extra.1, (extra.2 : Int).bmod (2 ^ 32))

def byteAt (buf : List UInt8) (i : Nat) : Nat := (buf[i]?.map UInt8.toNat).getD 0

def standardAt (buf : List UInt8) (off : Nat) : Prop :=
  byteAt buf (off + 1) = usbDescrTypeCfg ∨ byteAt buf (off + 1) = usbDescrTypeIf ∨
    byteAt buf (off + 1) = usbDescrTypeEp

instance (buf : List UInt8) (off : Nat) : Decidable (standardAt buf off) := inferInstanceAs (Decidable (_ ∨ _ ∨ _))

inductive NextStandard (buf : List UInt8) : Nat → Nat → Prop
  | here {off : Nat} (hin : off + 1 < buf.length) (hstd : standardAt buf off) : NextStandard buf off off
  | behind {off d : Nat} (hin : off + 1 < buf.length) (hnot : ¬ standardAt buf off)
      (hnext : NextStandard buf (off + byteAt buf off) d) : NextStandard buf off d

def ExtraEnd (buf : List UInt8) (d : Nat) : Prop :=
  NextStandard buf (byteAt buf 0) d ∨ (∀ d, ¬ NextStandard buf (byteAt buf 0) d) ∧ d = buf.length

/-- The scan ends without an access outside of the buffer, and those bytes are found. -/
def FindsExtra (buf : List UInt8) : Prop :=
  ∃ d, ExtraEnd buf d ∧
    usbFindExtraArgs buf = .ok (buf.drop (byteAt buf 0), ((d - byteAt buf 0 : Nat) : Int))

/-- There is a byte to read, and the first descriptor is the whole buffer or a standard one follows it,
at a distance that is an int. -/
def Delimited (buf : List UInt8) : Prop :=
  buf ≠ [] ∧ (buf.length ≤ byteAt buf 0 ∨ ∃ d, NextStandard buf (byteAt buf 0) d ∧ d - byteAt buf 0 < 2 ^ 31)

variable {buf : List UInt8} {off pos d d' n : Nat}

theorem NextStandard.bounds (h : NextStandard buf off d) : off ≤ d ∧ d + 1 < buf.length := by
  induction h with
  | here hin _ => exact ⟨Nat.le_refl _, hin⟩
  | behind _ _ _ ih => exact ⟨Nat.le_trans (Nat.le_add_right ..) ih.1, ih.2⟩

theorem NextStandard.unique (h : NextStandard buf off d) (h' : NextStandard buf off d') : d = d' := by
  induction h with
  | here _ hstd =>
      cases h' with
      | here => rfl
      | behind _ hnot _ => exact absurd hstd hnot
  | behind _ hnot _ ih =>
      cases h' with
      | here _ hstd => exact absurd hstd hnot
      | behind _ _ hnext => exact ih hnext

theorem NextStandard.length_ne_zero (h : NextStandard buf off d) (hnot : ¬ standardAt buf off) :
    byteAt buf off ≠ 0 := by
  induction h with
  | here _ hstd => exact absurd hstd hnot
  | @behind off d _ _ hnext ih =>
      intro hzero
      rw [hzero, Nat.add_zero] at ih
      exact ih hnot hzero

def restAt (buf : List UInt8) (pos : Nat) : Place := (buf.drop pos, buf.length - pos)

theorem byte_rest (h : pos + n < buf.length) : byte (restAt buf pos).1 n = .ok (byteAt buf (pos + n)) := by
  have hlen : n < (buf.drop pos).length := by
    rw [List.length_drop]
    omega
  rw [restAt, byte_eq hlen, byteAt, List.getElem?_eq_getElem h, List.getElem_drop]
  rfl

theorem rest_drop (buf : List UInt8) (pos b : Nat) :
    ((restAt buf pos).1.drop b, (restAt buf pos).2 - b) = restAt buf (pos + b) := by
  rw [restAt, restAt, List.drop_drop, Nat.sub_sub]

theorem scanExtra_rest (off pos : Nat) : scanExtra off (restAt buf pos) =
    if pos + 1 < buf.length then
      if standardAt buf pos then .ok (some off)
      else if byteAt buf pos = 0 then .error .endless
      else scanExtra (off + byteAt buf pos) (restAt buf (pos + byteAt buf pos))
    else .ok none := by
  rw [scanExtra]
  by_cases hin : pos + 1 < buf.length
  · have hroom : 1 < (restAt buf pos).2 := Nat.lt_sub_of_add_lt (by rwa [Nat.add_comm])
    rw [dif_pos hroom, if_pos hin, byte_rest hin, byte_rest (n := 0) (Nat.lt_of_succ_lt hin)]
    simp only [bind, Except.bind, Nat.add_zero]
    by_cases hstd : standardAt buf pos
    · rw [if_pos hstd]
      exact if_pos hstd
    · rw [if_neg hstd]
      refine (if_neg hstd).trans ?_
      by_cases hzero : byteAt buf pos = 0
      · rw [dif_pos hzero, if_pos hzero]
      · rw [dif_neg hzero, if_neg hzero, rest_drop]
  · have hroom : ¬ 1 < (restAt buf pos).2 := by
      rw [restAt]
      omega
    rw [dif_neg hroom, if_neg hin]
    rfl

theorem scanExtra_of_next (h : NextStandard buf pos d) (off : Nat) :
    scanExtra off (restAt buf pos) = .ok (some (off + (d - pos))) := by
  induction h generalizing off with
  | here hin hstd => rw [scanExtra_rest, if_pos hin, if_pos hstd, Nat.sub_self, Nat.add_zero]
  | @behind pos d hin hnot hnext ih =>
      have hzero := (NextStandard.behind hin hnot hnext).length_ne_zero hnot
      have hle := hnext.bounds.1
      rw [scanExtra_rest, if_pos hin, if_neg hnot, if_neg hzero, ih]
      congr 2
      omega

theorem next_of_scanExtra (h : scanExtra off (restAt buf pos) = .ok (some n)) : ∃ d, NextStandard buf pos d := by
  induction hk : buf.length - pos using Nat.strongRecOn generalizing off pos with
  | ind k ih =>
      rw [scanExtra_rest] at h
      split at h
      · next hin =>
          split at h
          · next hstd => exact ⟨pos, .here hin hstd⟩
          · next hnot =>
              split at h
              · cases h
              · next hzero =>
                  obtain ⟨d, hd⟩ := ih (buf.length - (pos + byteAt buf pos)) (by omega) h rfl
                  exact ⟨d, .behind hin hnot hd⟩
      · cases h

theorem bmod_small (h : n < 2 ^ 31) : (n : Int).bmod (2 ^ 32) = n := Int.bmod_eq_of_le (by omega) (by omega)

theorem lt_of_bmod (h : (n : Int).bmod (2 ^ 32) = n) : n < 2 ^ 31 := by
  have hlt := Int.bmod_lt (x := n) (m := 2 ^ 32) (by decide)
  omega

theorem usbFindExtraArgs_eq (hne : buf ≠ []) : usbFindExtraArgs buf =
    (scanExtra 0 (restAt buf (byteAt buf 0))).bind fun extralen =>
      .ok (buf.drop (byteAt buf 0), ((extralen.getD 0 : Nat) : Int).bmod (2 ^ 32)) := by
  have hbyte : byte buf 0 = .ok (byteAt buf 0) := by
    have hzero : 0 + 0 < buf.length := List.length_pos_of_ne_nil hne
    have hrest := byte_rest hzero
    rwa [restAt, List.drop_zero, Nat.zero_add] at hrest
  rw [restAt]
  simp only [usbFindExtraArgs, usbFindExtra, hbyte, bind, Except.bind]
  cases scanExtra 0 (buf.drop (byteAt buf 0), buf.length - byteAt buf 0) <;> rfl

theorem findsExtra_nil : ¬ FindsExtra [] := by
  rintro ⟨d, -, hrun⟩
  cases hrun

/-- The bytes are found just if a standard descriptor delimits them. -/
theorem extra_found_iff (buf : List UInt8) : FindsExtra buf ↔ Delimited buf := by
  by_cases hne : buf = []
  · subst hne
    exact iff_of_false findsExtra_nil fun h => h.1 rfl
  rw [FindsExtra, usbFindExtraArgs_eq hne, Delimited, and_iff_right hne]
  by_cases hnext : ∃ d, NextStandard buf (byteAt buf 0) d
  · obtain ⟨d, hd⟩ := hnext
    have hbounds := hd.bounds
    have hend (d' : Nat) : ExtraEnd buf d' ↔ d' = d :=
      ⟨fun h => h.elim (fun h => h.unique hd) fun h => absurd hd (h.1 d), fun h => .inl (h ▸ hd)⟩
    simp only [hend, exists_eq_left, scanExtra_of_next hd, Except.bind, Option.getD_some, Nat.zero_add,
      Except.ok.injEq, Prod.mk.injEq, true_and]
    constructor
    · exact fun h => .inr ⟨d, hd, lt_of_bmod h⟩
    · rintro (hshort | ⟨d', hd', hlt⟩)
      · omega
      · exact bmod_small (hd.unique hd' ▸ hlt)
  · have hend (d' : Nat) : ExtraEnd buf d' ↔ d' = buf.length :=
      ⟨fun h => h.elim (fun h => absurd ⟨d', h⟩ hnext) And.right, fun h => .inr ⟨fun d hd => hnext ⟨d, hd⟩, h⟩⟩
    rw [or_iff_left fun h => hnext (h.imp fun _ => And.left)]
    simp only [hend, exists_eq_left]
    constructor
    · intro h
      cases hscan : scanExtra 0 (restAt buf (byteAt buf 0)) with
      | error e =>
          rw [hscan] at h
          cases h
      | ok extralen =>
          cases extralen with
          | some n => exact absurd (next_of_scanExtra hscan) hnext
          | none =>
              rw [hscan] at h
              have hzero : ((0 : Nat) : Int).bmod (2 ^ 32) = ((buf.length - byteAt buf 0 : Nat) : Int) :=
                congrArg Prod.snd (Except.ok.inj h)
              rw [bmod_small (by decide)] at hzero
              omega
    · intro hshort
      have hout : ¬ byteAt buf 0 + 1 < buf.length := by omega
      rw [scanExtra_rest, if_neg hout, Nat.sub_eq_zero_of_le hshort]
      rfl

/-- A class-specific descriptor that is the last one of the buffer is lost, and with length 0 it is
visited again and again. -/
theorem last_extra_lost : usbFindExtraArgs [2, 5, 3, 36, 1] = .ok ([3, 36, 1], 0) ∧ ¬ FindsExtra [2, 5, 3, 36, 1] ∧
    usbFindExtraArgs [2, 5, 0, 36] = .error .endless := by
  have hrun : usbFindExtraArgs [2, 5, 3, 36, 1] = .ok ([3, 36, 1], 0) := by
    have hscan : scanExtra 0 (restAt [2, 5, 3, 36, 1] 2) = .ok none := by
      rw [scanExtra_rest, if_pos (by decide), if_neg (by decide), if_neg (by decide), scanExtra_rest,
        if_neg (by decide)]
    rw [usbFindExtraArgs_eq (by decide)]
    exact congrArg (fun r => Except.bind r _) hscan
  have hnone (d : Nat) : ¬ NextStandard [2, 5, 3, 36, 1] 2 d := by
    intro h
    cases h with
    | here _ hstd => exact absurd hstd (by decide)
    | behind _ _ hnext => exact absurd hnext.bounds.2 (Nat.not_lt.mpr (Nat.le_succ_of_le hnext.bounds.1))
  refine ⟨hrun, fun ⟨d, hend, hfound⟩ => ?_, ?_⟩
  · rcases hend with hnext | ⟨-, rfl⟩
    · exact hnone d hnext
    · exact absurd (congrArg Prod.snd (Except.ok.inj (hrun.symm.trans hfound))) (by decide)
  · have hscan : scanExtra 0 (restAt [2, 5, 0, 36] 2) = .error .endless := by
      rw [scanExtra_rest, if_pos (by decide), if_neg (by decide), if_pos (by decide)]
    rw [usbFindExtraArgs_eq (by decide)]
    exact congrArg (fun r => Except.bind r _) hscan

end OiUserland.Libusb.ExtraScans
