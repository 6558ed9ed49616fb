import Mathlib.Data.List.GetD
import OiUserland.Libusb.Handles

namespace OiUserland.Libusb.Strings

open Handles

def eio : Int := 5
def efbig : Int := 27
def usbDtString : UInt8 := 3
def usbDevReqDevToHost : UInt8 := 0x80
def usbReqGetDescriptor : UInt8 := 6
def intMin : Int := -2147483648

def schar (b : UInt8) : Int := b.toBitVec.toInt

/-- A size_t as an int. -/
def toInt (n : Nat) : Int :=
  if n % 4294967296 < 2147483648 then (n % 4294967296 : Nat) else (n % 4294967296 : Nat) - 4294967296

structure Setup where
  requesttype : UInt8
  request : UInt8
  value : BitVec 16
  index : BitVec 16
  size : BitVec 16
  deriving DecidableEq

/-- How the device answers a request: what the write of the setup returns, and the read behind it. -/
structure Answer where
  sent : Int
  data : Errno ⊕ List UInt8

abbrev Device := Setup → Answer

/-- The contents of tbuf. -/
abbrev Buffer := Nat → UInt8

def Buffer.read (bytes : List UInt8) (t : Buffer) : Buffer := fun i => bytes.getD i (t i)

/-- usb_control_msg for a read: its value and the bytes that are read. -/
def usbControlMsg (dev : Option Device) (requesttype request : UInt8) (value index : BitVec 32) (size : Int) : Int × List UInt8 :=
  match dev with
  | none => (-einval, [])
  | some dev =>
      if size < 0 then (-einval, [])
      else
        let a := dev ⟨requesttype, request, value.truncate 16, index.truncate 16, BitVec.ofInt 16 size⟩
        if a.sent < 8 then (if a.sent ≥ 0 then -eio else a.sent, [])
        else if size = 0 then (0, [])
        else
          match a.data with
          | .inl errno => (-(errno.val : Int), [])
          | .inr bytes => ((bytes.take size.toNat).length, bytes.take size.toNat)

def usbGetString (dev : Option Device) (index langid : BitVec 32) (buflen : Nat) : Int × List UInt8 :=
  if dev.isNone ∨ buflen = 0 then (-einval, [])
  else usbControlMsg dev usbDevReqDevToHost usbReqGetDescriptor ((3 : BitVec 32) <<< 8 + index) langid (toInt buflen)

def room (buflen : Nat) : Option Int := if toInt buflen = intMin then none else some (toInt buflen - 1)

def copyLoop (tbuf : Buffer) (room : Option Int) (si di : Nat) (buf : List UInt8) : Option (Nat × List UInt8) :=
  if si < schar (tbuf 0) then
    match room with
    | none => none
    | some last =>
        if di ≥ last then some (di, buf)
        else if tbuf (si + 1) ≠ 0 then copyLoop tbuf (some last) (si + 2) (di + 1) (buf.set di '?'.toUInt8)
        else copyLoop tbuf (some last) (si + 2) (di + 1) (buf.set di (tbuf si))
  else some (di, buf)
termination_by (schar (tbuf 0) - si).toNat
decreasing_by all_goals omega

def decodeLangid (tbuf : Buffer) : BitVec 32 :=
  (tbuf 2).toBitVec.signExtend 32 ||| (tbuf 3).toBitVec.signExtend 32 <<< 8

/-- usb_get_string_simple: its value and the buffer of the caller. The stack may hold anything at first. -/
def usbGetStringSimple (dev : Option Device) (index : BitVec 32) (buf : Option (List UInt8)) (buflen : Nat) (tbuf : Buffer) :
    Option (Int × Option (List UInt8)) :=
  if dev.isNone ∨ buf.isNone ∨ buflen = 0 then some (-einval, buf)
  else
    let buf := List.replicate buflen 0
    let first := usbGetString dev index 0 256
    let tbuf := tbuf.read first.2
    let langid := if first.1 < 4 then 0x409 else decodeLangid tbuf
    let second := usbGetString dev index langid 256
    let tbuf := tbuf.read second.2
    if second.1 < 0 then some (second.1, some buf)
    else if tbuf 1 ≠ usbDtString then some (-eio, some buf)
    else if schar (tbuf 0) > second.1 then some (-efbig, some buf)
    else (copyLoop tbuf (room buflen) 2 0 buf).map fun (di, buf) => (di, some (buf.set di 0))

def characters : List UInt8 → List Nat
  | lo :: hi :: rest => (lo.toNat + 256 * hi.toNat) :: characters rest
  | _ => []

def cooked (c : Nat) : UInt8 := if c < 256 then UInt8.ofNat c else '?'.toUInt8

structure StringDescriptor where
  bytes : List UInt8
  length : bytes.length = (bytes.getD 0 0).toNat
  two_le : 2 ≤ bytes.length
  type : bytes.getD 1 0 = usbDtString

def StringDescriptor.text (d : StringDescriptor) (buflen : Nat) : List UInt8 :=
  ((characters (d.bytes.drop 2)).map cooked).take (buflen - 1)

/-- The text is in the buffer with NUL behind it, and its length is the value. -/
def Right (text : List UInt8) (r : Option (Int × Option (List UInt8))) : Prop :=
  ∃ rest, r = some ((text.length : Int), some (text ++ 0 :: rest))

def request (index : BitVec 32) (langid : BitVec 16) : Setup :=
  ⟨usbDevReqDevToHost, usbReqGetDescriptor, ((3 : BitVec 32) <<< 8 + index).truncate 16, langid, 256⟩

/-- The request is answered with these bytes. -/
def Gives (dev : Device) (s : Setup) (bytes : List UInt8) : Prop := 8 ≤ (dev s).sent ∧ (dev s).data = .inr bytes

/-- The first language of the device: the list of its languages is string 0. -/
def FirstLanguage (dev : Device) (langid : BitVec 16) : Prop :=
  ∃ (d : StringDescriptor) (lo hi : UInt8), Gives dev (request 0 0) d.bytes ∧ [lo, hi] <+: d.bytes.drop 2 ∧
    langid = hi.toBitVec ++ lo.toBitVec

def answered (dev : Device) (s : Setup) : Option (List UInt8) :=
  if (dev s).sent < 8 then none
  else
    match (dev s).data with
    | .inl _ => none
    | .inr bytes => some (bytes.take 256)

def firstRead (dev : Device) (index : BitVec 32) : List UInt8 := (answered dev (request index 0)).getD []

/-- The language that the string is asked for in: two bytes of what is read first, where a low byte from
128 on makes the high one 255. -/
def asked (dev : Device) (index : BitVec 32) : BitVec 16 :=
  match firstRead dev index with
  | _ :: _ :: lo :: hi :: _ => if lo < 128 then hi.toBitVec ++ lo.toBitVec else BitVec.allOnes 8 ++ lo.toBitVec
  | _ => 0x409#16

/-- The length of a descriptor is no negative char, the room is not cut by the conversion, and there is no
room for the half character behind an odd length. -/
def Fits (len buflen : Nat) : Prop :=
  buflen = 1 ∨ len = 2 ∨
    len ≤ 127 ∧ toInt buflen ≠ intMin ∧ (toInt buflen = buflen ∨ (len - 2) / 2 ≤ (toInt buflen - 1).toNat) ∧
      (len % 2 = 0 ∨ toInt buflen ≤ (len - 2) / 2 + 1)

instance (len buflen : Nat) : Decidable (Fits len buflen) := inferInstanceAs (Decidable (_ ∨ _ ∨ _))

def cook (lo hi : UInt8) : UInt8 := if hi ≠ 0 then '?'.toUInt8 else lo

def cookedFrom (t : Buffer) (si : Nat) : Nat → List UInt8
  | 0 => []
  | k + 1 => cook (t si) (t (si + 1)) :: cookedFrom t (si + 2) k

def left (t : Buffer) (si : Nat) : Nat := ((schar (t 0) - si + 1) / 2).toNat

def Holds (t : Buffer) (buflen : Nat) (text : List UInt8) : Prop :=
  match room buflen with
  | none => left t 2 = 0 ∧ text = []
  | some last => cookedFrom t 2 (min (left t 2) last.toNat) = text

/-- What is read last passes the two checks and holds the text. -/
def Reads (dev : Device) (index : BitVec 32) (tbuf : Buffer) (buflen : Nat) (text : List UInt8) : Prop :=
  ∃ r, answered dev (request index (asked dev index)) = some r ∧
    ((tbuf.read (firstRead dev index)).read r) 1 = usbDtString ∧
    schar (((tbuf.read (firstRead dev index)).read r) 0) ≤ r.length ∧
    Holds ((tbuf.read (firstRead dev index)).read r) buflen text

variable {dev : Device} {index : BitVec 32} {langid : BitVec 32} {s : Setup} {t tbuf : Buffer} {buflen si di : Nat}
  {out rest r bytes buf text : List UInt8} {last : Int} {d : StringDescriptor}

theorem answered_of_gives (h : Gives dev s bytes) : answered dev s = some (bytes.take 256) := by
  rw [answered, if_neg (Int.not_lt.mpr h.1), h.2]

theorem getString_eq : usbGetString (some dev) index langid 256 =
    if (dev (request index (langid.truncate 16))).sent < 8 then
      (if (dev (request index (langid.truncate 16))).sent ≥ 0 then -eio else (dev (request index (langid.truncate 16))).sent, [])
    else
      match (dev (request index (langid.truncate 16))).data with
      | .inl errno => (-(errno.val : Int), [])
      | .inr bytes => (((bytes.take 256).length : Int), bytes.take 256) := rfl

theorem getString_some (h : answered dev (request index (langid.truncate 16)) = some r) :
    usbGetString (some dev) index langid 256 = ((r.length : Int), r) := by
  rw [answered] at h
  rw [getString_eq]
  by_cases hsent : (dev (request index (langid.truncate 16))).sent < 8
  · rw [if_pos hsent] at h
    cases h
  · rw [if_neg hsent] at h ⊢
    cases hdata : (dev (request index (langid.truncate 16))).data with
    | inl errno =>
        rw [hdata] at h
        cases h
    | inr bytes =>
        rw [hdata] at h
        obtain rfl := Option.some.inj h
        rfl

theorem getString_none (h : answered dev (request index (langid.truncate 16)) = none) :
    ∃ e < 0, usbGetString (some dev) index langid 256 = (e, []) := by
  rw [answered] at h
  rw [getString_eq]
  by_cases hsent : (dev (request index (langid.truncate 16))).sent < 8
  · rw [if_pos hsent]
    refine ⟨_, ?_, rfl⟩
    split
    · decide
    · omega
  · rw [if_neg hsent] at h ⊢
    cases hdata : (dev (request index (langid.truncate 16))).data with
    | inl errno => exact ⟨_, Int.neg_neg_of_pos (Int.natCast_pos.mpr errno.property), rfl⟩
    | inr bytes =>
        rw [hdata] at h
        cases h

theorem msb_iff {b : UInt8} : b.toBitVec.msb = false ↔ b < 128 := by
  rw [BitVec.msb_eq_false_iff_two_mul_lt, UInt8.lt_iff_toNat_lt]
  change 2 * b.toNat < 256 ↔ b.toNat < 128
  omega

theorem langid_truncate (t : Buffer) : (decodeLangid t).truncate 16 =
    if t 2 < 128 then (t 3).toBitVec ++ (t 2).toBitVec else BitVec.allOnes 8 ++ (t 2).toBitVec := by
  rw [decodeLangid]
  by_cases hlo : t 2 < 128
  · rw [if_pos hlo]
    refine BitVec.eq_of_getLsbD_eq fun i hi => ?_
    have hmsb := msb_iff.mpr hlo
    simp [BitVec.getLsbD_signExtend, hmsb]
    grind
  · rw [if_neg hlo]
    refine BitVec.eq_of_getLsbD_eq fun i hi => ?_
    have hmsb : (t 2).toBitVec.msb = true := by
      rw [← Bool.not_eq_false, msb_iff]
      exact hlo
    rw [BitVec.getLsbD_append, BitVec.getLsbD_allOnes]
    simp [BitVec.getLsbD_signExtend, hmsb]
    grind

theorem copyLoop_done (room : Option Int) (h : ¬ (si : Int) < schar (t 0)) : copyLoop t room si di buf = some (di, buf) := by
  rw [copyLoop.eq_def, if_neg h]

theorem copyLoop_full (h : (di : Int) ≥ last) : copyLoop t (some last) si di buf = some (di, buf) := by
  rw [copyLoop, if_pos h, ite_self]

theorem copyLoop_turn {x : UInt8} (h : (si : Int) < schar (t 0)) (hdi : ¬ (di : Int) ≥ last) (hout : out.length = di) :
    copyLoop t (some last) si di (out ++ x :: rest) =
      copyLoop t (some last) (si + 2) (di + 1) ((out ++ [cook (t si) (t (si + 1))]) ++ rest) := by
  have hset (y : UInt8) : (out ++ x :: rest).set di y = (out ++ [y]) ++ rest := by
    rw [List.set_append_right _ _ (Nat.le_of_eq hout), hout, Nat.sub_self, List.set_cons_zero, List.append_assoc]
    rfl
  rw [copyLoop, if_pos h, if_neg hdi, hset, hset, cook]
  split <;> rfl

theorem copyLoop_eq (hout : out.length = di) (hlast : last ≤ di + rest.length) :
    copyLoop t (some last) si di (out ++ rest) =
      some (di + min (left t si) (last - di).toNat,
        out ++ (cookedFrom t si (min (left t si) (last - di).toNat) ++ rest.drop (min (left t si) (last - di).toNat))) := by
  induction rest generalizing out si di with
  | nil =>
      have hroom : (last - di).toNat = 0 := by simp at hlast; omega
      rw [copyLoop_full (by simpa using hlast), hroom, Nat.min_zero]
      rfl
  | cons x rest ih =>
      by_cases hsi : (si : Int) < schar (t 0)
      · by_cases hdi : (di : Int) ≥ last
        · have hroom : (last - di).toNat = 0 := by omega
          rw [copyLoop_full hdi, hroom, Nat.min_zero]
          rfl
        · have hleft : left t si = left t (si + 2) + 1 := by rw [left, left]; omega
          have hroom : (last - di).toNat = (last - (di + 1 : Nat)).toNat + 1 := by omega
          have hfit : last ≤ (di + 1 : Nat) + rest.length := by
            rw [List.length_cons] at hlast
            omega
          rw [copyLoop_turn hsi hdi hout, ih (by simp [hout]) hfit, hleft, hroom, Nat.add_min_add_right]
          refine congrArg some (Prod.ext (by dsimp only; omega) ?_)
          simp [cookedFrom]
      · have hleft : left t si = 0 := by rw [left]; omega
        rw [copyLoop_done _ hsi, hleft, Nat.zero_min]
        rfl

theorem toInt_le (n : Nat) : toInt n ≤ n := by
  rw [toInt]
  split
  · omega
  · omega

theorem room_le (h : room buflen = some last) : last ≤ buflen - 1 := by
  rw [room] at h
  by_cases hmin : toInt buflen = intMin
  · rw [if_pos hmin] at h
    cases h
  · rw [if_neg hmin] at h
    obtain rfl := Option.some.inj h
    exact Int.sub_le_sub_right (toInt_le buflen) 1

theorem langid_asked (first : Int × List UInt8) (h : first.2 = firstRead dev index ∧ (first.1 < 4 ↔ (firstRead dev index).length < 4)) :
    (if first.1 < 4 then 0x409 else decodeLangid (tbuf.read first.2)).truncate 16 = asked dev index := by
  rw [asked, h.1]
  match hread : firstRead dev index with
  | [] | [_] | [_, _] | [_, _, _] =>
      rw [if_pos (h.2.mpr (by simp [hread]))]
      rfl
  | _ :: _ :: lo :: hi :: rest =>
      rw [if_neg fun hlt => by have := h.2.mp hlt; simp [hread] at this; omega, langid_truncate]
      rfl

theorem firstRead_get : (usbGetString (some dev) index 0 256).2 = firstRead dev index ∧
    ((usbGetString (some dev) index 0 256).1 < 4 ↔ (firstRead dev index).length < 4) := by
  have hzero : (0 : BitVec 32).truncate 16 = 0 := rfl
  rw [firstRead]
  cases h : answered dev (request index 0) with
  | none =>
      obtain ⟨e, he, hget⟩ := @getString_none dev index 0 (hzero ▸ h)
      rw [hget]
      exact ⟨rfl, fun _ => Nat.zero_lt_succ 3, fun _ => by dsimp only; omega⟩
  | some r =>
      rw [@getString_some dev index 0 r (hzero ▸ h)]
      exact ⟨rfl, by dsimp only [Option.getD]; omega⟩

def Buffer.after (t : Buffer) (dev : Device) (index : BitVec 32) (r : List UInt8) : Buffer := (t.read (firstRead dev index)).read r

theorem simple_none (hpos : 0 < buflen) (h : answered dev (request index (asked dev index)) = none) :
    ∃ e < 0, ∃ b, usbGetStringSimple (some dev) index (some buf) buflen tbuf = some (e, b) := by
  rw [← @langid_asked dev index tbuf (usbGetString (some dev) index 0 256) firstRead_get] at h
  obtain ⟨e, he, hget⟩ := getString_none h
  refine ⟨e, he, some (List.replicate buflen 0), ?_⟩
  rw [usbGetStringSimple, if_neg (by simp; omega)]
  dsimp only
  rw [hget, if_pos he]

theorem simple_some (hpos : 0 < buflen) (h : answered dev (request index (asked dev index)) = some r) :
    usbGetStringSimple (some dev) index (some buf) buflen tbuf =
      if tbuf.after dev index r 1 ≠ usbDtString then some (-eio, some (List.replicate buflen 0))
      else if schar (tbuf.after dev index r 0) > r.length then some (-efbig, some (List.replicate buflen 0))
      else (copyLoop (tbuf.after dev index r) (room buflen) 2 0 (List.replicate buflen 0)).map fun (di, buf) => (di, some (buf.set di 0)) := by
  rw [← @langid_asked dev index tbuf (usbGetString (some dev) index 0 256) firstRead_get] at h
  rw [usbGetStringSimple, if_neg (by simp; omega)]
  dsimp only
  rw [getString_some h, if_neg (Int.not_lt.mpr (Int.natCast_nonneg _)), firstRead_get.1]
  rfl

theorem cookedFrom_length (t : Buffer) (k si : Nat) : (cookedFrom t si k).length = k := by
  induction k generalizing si with
  | zero => rfl
  | succ k ih => rw [cookedFrom, List.length_cons, ih]

theorem copy_right (hpos : 0 < buflen) :
    Right text ((copyLoop t (room buflen) 2 0 (List.replicate buflen 0)).map fun (di, buf) => ((di : Int), some (buf.set di 0))) ↔
      Holds t buflen text := by
  rw [Holds]
  cases hroom : room buflen with
  | none =>
      by_cases hsi : ((2 : Nat) : Int) < schar (t 0)
      · have hleft : left t 2 ≠ 0 := by rw [left]; omega
        rw [copyLoop, if_pos hsi]
        constructor
        · rintro ⟨_, h⟩
          cases h
        · exact fun h => absurd h.1 hleft
      · have hleft : left t 2 = 0 := by rw [left]; omega
        rw [copyLoop_done _ hsi]
        obtain ⟨n, rfl⟩ := Nat.exists_eq_succ_of_ne_zero (Nat.ne_of_gt hpos)
        constructor
        · rintro ⟨rest, h⟩
          have hlen := congrArg Prod.fst (Option.some.inj h)
          exact ⟨hleft, List.eq_nil_of_length_eq_zero (Int.ofNat.inj hlen).symm⟩
        · rintro ⟨-, rfl⟩
          exact ⟨List.replicate n 0, rfl⟩
  | some last =>
      have hlast := room_le hroom
      have hfit : last ≤ (0 : Nat) + ((List.replicate buflen (0 : UInt8)).length : Int) := by rw [List.length_replicate]; omega
      have hrun := @copyLoop_eq t 2 0 [] _ last (show ([] : List UInt8).length = 0 from rfl) hfit
      obtain ⟨m, hm⟩ : ∃ m, m = min (left t 2) (last - (0 : Nat)).toNat := ⟨_, rfl⟩
      have hlt : m < buflen := by omega
      obtain ⟨n, hn⟩ : ∃ n, buflen - m = n + 1 := ⟨buflen - m - 1, by omega⟩
      rw [← hm, List.nil_append, List.nil_append, Nat.zero_add, List.drop_replicate, hn, List.replicate_succ] at hrun
      have hsame : min (left t 2) last.toNat = m := by rw [hm]; simp
      rw [hrun]
      show _ ↔ cookedFrom t 2 (min (left t 2) last.toNat) = text
      rw [hsame]
      have hset : (cookedFrom t 2 m ++ 0 :: List.replicate n 0).set m 0 = cookedFrom t 2 m ++ 0 :: List.replicate n 0 := by
        rw [List.set_append_right _ _ (Nat.le_of_eq (cookedFrom_length t m 2)), cookedFrom_length, Nat.sub_self, List.set_cons_zero]
      constructor
      · rintro ⟨rest, h⟩
        obtain ⟨hlen, hbuf⟩ := Prod.mk.inj (Option.some.inj h)
        rw [hset] at hbuf
        refine (List.append_inj (Option.some.inj hbuf) ?_).1
        rw [cookedFrom_length]
        exact Int.ofNat.inj hlen
      · rintro rfl
        refine ⟨List.replicate n 0, ?_⟩
        rw [Option.map_some]
        dsimp only
        rw [hset, cookedFrom_length]

theorem simple_right (hpos : 0 < buflen) : Right text (usbGetStringSimple (some dev) index (some buf) buflen tbuf) ↔
    Reads dev index tbuf buflen text := by
  rw [Reads]
  cases h : answered dev (request index (asked dev index)) with
  | none =>
      obtain ⟨e, he, b, hrun⟩ := @simple_none dev index tbuf buflen buf hpos h
      rw [hrun]
      refine ⟨fun ⟨rest, hr⟩ => ?_, fun ⟨r, hr, _⟩ => nomatch hr⟩
      have hlen := congrArg Prod.fst (Option.some.inj hr)
      dsimp only at hlen
      omega
  | some r =>
      have hneg {e : Int} {b : Option (List UInt8)} (he : e < 0) : ¬ Right text (some (e, b)) := fun ⟨rest, hr⟩ => by
        have hlen := congrArg Prod.fst (Option.some.inj hr)
        dsimp only at hlen
        omega
      rw [simple_some hpos h]
      by_cases htype : tbuf.after dev index r 1 = usbDtString
      · rw [if_neg (not_not.mpr htype)]
        by_cases hlen : schar (tbuf.after dev index r 0) ≤ r.length
        · rw [if_neg (Int.not_lt.mpr hlen), copy_right hpos]
          exact ⟨fun hholds => ⟨r, rfl, htype, hlen, hholds⟩, fun ⟨_, heq, _, _, hholds⟩ => Option.some.inj heq ▸ hholds⟩
        · rw [if_pos (Int.not_le.mp hlen)]
          exact ⟨fun hr => absurd hr (hneg (by decide)), fun ⟨_, heq, _, hle, _⟩ => absurd (Option.some.inj heq ▸ hle) hlen⟩
      · rw [if_pos htype]
        exact ⟨fun hr => absurd hr (hneg (by decide)), fun ⟨_, heq, ht, _⟩ => absurd (Option.some.inj heq ▸ ht) htype⟩

theorem schar_le (b : UInt8) : schar b ≤ b.toNat := by
  have hlt : b.toBitVec.toNat < 256 := b.toBitVec.isLt
  change b.toBitVec.toInt ≤ (b.toBitVec.toNat : Int)
  rw [BitVec.toInt_eq_toNat_cond]
  split <;> omega

theorem left_eq (t : Buffer) : left t 2 = if (t 0).toNat ≤ 127 then ((t 0).toNat - 1) / 2 else 0 := by
  have hlt : (t 0).toBitVec.toNat < 256 := (t 0).toBitVec.isLt
  change (((t 0).toBitVec.toInt - (2 : Nat) + 1) / 2).toNat = if (t 0).toBitVec.toNat ≤ 127 then ((t 0).toBitVec.toNat - 1) / 2 else 0
  rw [BitVec.toInt_eq_toNat_cond]
  split <;> split <;> omega

theorem characters_length : (l : List UInt8) → (characters l).length = l.length / 2
  | [] => rfl
  | [_] => by simp [characters]
  | _ :: _ :: rest => by
      rw [characters, List.length_cons, characters_length rest, List.length_cons, List.length_cons]
      omega

theorem cooked_eq (lo hi : UInt8) : cooked (lo.toNat + 256 * hi.toNat) = cook lo hi := by
  have hlo : lo.toNat < 256 := lo.toNat_lt
  rw [cooked, cook]
  by_cases hhi : hi = 0
  · subst hhi
    rw [if_pos (by simpa using hlo), if_neg (not_not.mpr rfl)]
    simp
  · have hpos : 0 < hi.toNat := by
      rw [Nat.pos_iff_ne_zero]
      exact fun hzero => hhi (UInt8.toNat_inj.mp hzero)
    rw [if_neg (by omega), if_pos hhi]

theorem cookedFrom_eq (k : Nat) {l : List UInt8} (hl : ∀ i (h : i < l.length), t (si + i) = l[i]) (hk : k ≤ l.length / 2) :
    cookedFrom t si k = ((characters l).map cooked).take k := by
  induction k generalizing l si with
  | zero => rfl
  | succ k ih =>
      match l with
      | [] | [_] => simp at hk
      | lo :: hi :: rest =>
          have hlo : t si = lo := hl 0 (by simp)
          have hhi : t (si + 1) = hi := hl 1 (by simp)
          have hrest (i : Nat) (h : i < rest.length) : t (si + 2 + i) = rest[i] := by
            rw [Nat.add_assoc, Nat.add_comm 2]
            exact hl (i + 2) (by simpa using h)
          rw [cookedFrom, hlo, hhi, ih hrest (by simp at hk; omega), characters, List.map_cons, List.take_succ_cons, cooked_eq]

theorem text_length (d : StringDescriptor) : (d.text buflen).length = min (buflen - 1) ((d.bytes.length - 2) / 2) := by
  rw [StringDescriptor.text, List.length_take, List.length_map, characters_length, List.length_drop]

theorem toInt_cases (n : Nat) : toInt n = n ∨ toInt n + 4294967296 ≤ n ∧ -2147483648 ≤ toInt n := by
  rw [toInt]
  split
  · omega
  · omega

theorem stored_iff {len : Nat} (hmin : toInt buflen ≠ intMin) (hpos : 0 < buflen) (htwo : 2 ≤ len) (hlen : len ≤ 255) :
    min (if len ≤ 127 then (len - 1) / 2 else 0) (toInt buflen - 1).toNat = min (buflen - 1) ((len - 2) / 2) ↔ Fits len buflen := by
  have hcases := toInt_cases buflen
  rw [Fits, and_iff_right hmin]
  generalize toInt buflen = b at hcases ⊢
  split
  · omega
  · omega

theorem holds_iff (hd : ∀ i (h : i < d.bytes.length), t i = d.bytes[i]) (hpos : 0 < buflen) :
    Holds t buflen (d.text buflen) ↔ Fits d.bytes.length buflen := by
  have htwo := d.two_le
  have hzero : (t 0).toNat = d.bytes.length := by
    rw [hd 0 (by omega), ← List.getD_eq_getElem d.bytes 0]
    exact d.length.symm
  have hlen : d.bytes.length ≤ 255 := hzero ▸ Nat.le_of_lt_succ (t 0).toNat_lt
  have hleft : left t 2 = if d.bytes.length ≤ 127 then (d.bytes.length - 1) / 2 else 0 := hzero ▸ left_eq t
  rw [Holds]
  by_cases hmin : toInt buflen = intMin
  · have hroom : room buflen = none := if_pos hmin
    have hone : buflen ≠ 1 := fun h => by rw [h] at hmin; exact absurd hmin (by decide)
    have hnone : ¬ (d.bytes.length ≤ 127 ∧ toInt buflen ≠ intMin ∧ (toInt buflen = buflen ∨
        (d.bytes.length - 2) / 2 ≤ (toInt buflen - 1).toNat) ∧
          (d.bytes.length % 2 = 0 ∨ toInt buflen ≤ ((d.bytes.length - 2) / 2 : Nat) + 1)) := fun h => h.2.1 hmin
    rw [hroom, Fits, or_iff_right hone]
    show left t 2 = 0 ∧ d.text buflen = [] ↔ _
    rw [hleft, ← List.length_eq_zero_iff, text_length]
    split <;> omega
  · have hroom : room buflen = some (toInt buflen - 1) := if_neg hmin
    rw [hroom, ← stored_iff hmin hpos htwo hlen, ← hleft]
    show cookedFrom t 2 (min (left t 2) (toInt buflen - 1).toNat) = d.text buflen ↔ _
    generalize min (left t 2) (toInt buflen - 1).toNat = m
    constructor
    · intro h
      rw [← text_length, ← h, cookedFrom_length]
    · intro h
      have hdrop (i : Nat) (hi : i < (d.bytes.drop 2).length) : t (2 + i) = (d.bytes.drop 2)[i] := by
        rw [List.getElem_drop]
        exact hd (2 + i) (by simp at hi; omega)
      have hm : m ≤ (d.bytes.drop 2).length / 2 := by rw [List.length_drop]; omega
      rw [cookedFrom_eq m hdrop hm, StringDescriptor.text, List.take_eq_take_iff, List.length_map, characters_length, List.length_drop]
      omega

theorem reads_iff {lang : BitVec 16} (hlang : asked dev index = lang) (hd : Gives dev (request index lang) d.bytes) (hpos : 0 < buflen) :
    Reads dev index tbuf buflen (d.text buflen) ↔ Fits d.bytes.length buflen := by
  have htwo := d.two_le
  have hlen : d.bytes.length ≤ 255 := d.length ▸ Nat.le_of_lt_succ (d.bytes.getD 0 0).toNat_lt
  have hanswered : answered dev (request index (asked dev index)) = some d.bytes := by
    rw [hlang, answered_of_gives hd, List.take_of_length_le (Nat.le_succ_of_le hlen)]
  have hbuffer (i : Nat) (h : i < d.bytes.length) : tbuf.after dev index d.bytes i = d.bytes[i] := List.getD_eq_getElem _ _ h
  rw [← holds_iff hbuffer hpos, Reads]
  constructor
  · rintro ⟨r, hr, -, -, hholds⟩
    obtain rfl := Option.some.inj (hanswered.symm.trans hr)
    exact hholds
  · intro hholds
    refine ⟨d.bytes, hanswered, ?_, ?_, hholds⟩
    · exact (hbuffer 1 htwo).trans ((List.getD_eq_getElem _ _ htwo).symm.trans d.type)
    · refine Int.le_trans (schar_le _) ?_
      have hzero := hbuffer 0 (Nat.lt_of_lt_of_le Nat.zero_lt_two htwo)
      have hlength : (tbuf.after dev index d.bytes 0).toNat = d.bytes.length := by
        rw [hzero, ← List.getD_eq_getElem d.bytes 0, ← d.length]
      exact Int.ofNat_le.mpr (Nat.le_of_eq hlength)

/-- The string comes out right when it is asked for in the first language and fits, or when what is read
for another language happens to hold the same text. -/
theorem string_simple_iff (dev : Device) (index : BitVec 32) (buf : List UInt8) (buflen : Nat) (tbuf : Buffer) (langid : BitVec 16)
    (d : StringDescriptor) (_ : FirstLanguage dev langid) (hd : Gives dev (request index langid) d.bytes) (hpos : 0 < buflen) :
    Right (d.text buflen) (usbGetStringSimple (some dev) index (some buf) buflen tbuf) ↔
      asked dev index = langid ∧ Fits d.bytes.length buflen ∨
        asked dev index ≠ langid ∧ Reads dev index tbuf buflen (d.text buflen) := by
  rw [simple_right hpos]
  by_cases hlang : asked dev index = langid
  · rw [and_iff_right hlang, or_iff_left fun h => h.1 hlang, ← reads_iff hlang hd hpos]
  · rw [and_iff_right hlang, or_iff_right fun h => hlang h.1]

section Devices

def oneLanguage (langid : BitVec 16) (langs string : List UInt8) : Device := fun s =>
  if s = request 0 0 then ⟨8, .inr langs⟩ else if s.index = langid then ⟨8, .inr string⟩ else ⟨8, .inl ⟨5, by decide⟩⟩

variable {lang : BitVec 16} {langs string : List UInt8}

theorem request_ne (other : BitVec 16) : request 1 other ≠ request 0 0 := by
  intro h
  have hvalue : (0x301 : BitVec 16) = 0x300 := congrArg Setup.value h
  exact absurd hvalue (by decide)

theorem oneLanguage_langs : Gives (oneLanguage lang langs string) (request 0 0) langs := by
  rw [Gives, oneLanguage, if_pos rfl]
  exact ⟨Int.le_refl 8, rfl⟩

theorem oneLanguage_string : Gives (oneLanguage lang langs string) (request 1 lang) string := by
  rw [Gives, oneLanguage, if_neg (request_ne lang), if_pos (show (request 1 lang).index = lang from rfl)]
  exact ⟨Int.le_refl 8, rfl⟩

theorem oneLanguage_refused {other : BitVec 16} (h : other ≠ lang) :
    answered (oneLanguage lang langs string) (request 1 other) = none := by
  rw [answered, oneLanguage, if_neg (request_ne other), if_neg (show ¬ (request 1 other).index = lang from h)]
  rfl

theorem oneLanguage_asked (h : (0 : BitVec 16) ≠ lang) : asked (oneLanguage lang langs string) 1 = 0x409 := by
  rw [asked, firstRead, oneLanguage_refused h]
  rfl

end Devices

def english : StringDescriptor := ⟨[4, 3, 9, 4], rfl, by decide, rfl⟩

def german : StringDescriptor := ⟨[4, 3, 7, 4], rfl, by decide, rfl⟩

def letterA : StringDescriptor := ⟨[4, 3, 65, 0], rfl, by decide, rfl⟩

def letters63 : StringDescriptor := ⟨128 :: 3 :: (List.replicate 63 [65, 0]).flatten, by simp, by simp, rfl⟩

theorem string_simple_iff_short :
    Right (letterA.text 2) (usbGetStringSimple (some (oneLanguage 0x409 english.bytes letterA.bytes)) 1 (some [7, 7]) 2 fun _ => 0) :=
  (string_simple_iff _ 1 [7, 7] 2 (fun _ => 0) 0x409 letterA ⟨english, 9, 4, oneLanguage_langs, by decide, by decide⟩ oneLanguage_string
    (by decide)).mpr (.inl ⟨oneLanguage_asked (by decide), by decide⟩)

/-- The English string of 63 letters comes out empty, and the German string is asked for in English. -/
theorem string_simple_fails :
    (FirstLanguage (oneLanguage 0x409 english.bytes letters63.bytes) 0x409 ∧
      Gives (oneLanguage 0x409 english.bytes letters63.bytes) (request 1 0x409) letters63.bytes ∧
      ¬ Right (letters63.text 2) (usbGetStringSimple (some (oneLanguage 0x409 english.bytes letters63.bytes)) 1 (some [7, 7]) 2 fun _ => 0)) ∧
    FirstLanguage (oneLanguage 0x407 german.bytes letterA.bytes) 0x407 ∧
      Gives (oneLanguage 0x407 german.bytes letterA.bytes) (request 1 0x407) letterA.bytes ∧
      ¬ Right (letterA.text 2) (usbGetStringSimple (some (oneLanguage 0x407 german.bytes letterA.bytes)) 1 (some [7, 7]) 2 fun _ => 0) := by
  refine ⟨⟨⟨english, 9, 4, oneLanguage_langs, by decide, by decide⟩, oneLanguage_string, fun h => ?_⟩,
    ⟨german, 7, 4, oneLanguage_langs, by decide, by decide⟩, oneLanguage_string, fun h => ?_⟩
  · have hlen : letters63.bytes.length = 128 := by simp [letters63]
    have hreads := (simple_right (by decide)).mp h
    rw [reads_iff (oneLanguage_asked (by decide)) oneLanguage_string (by decide), hlen] at hreads
    exact absurd hreads (by decide)
  · obtain ⟨r, hr, -⟩ := (simple_right (by decide)).mp h
    rw [oneLanguage_asked (by decide), oneLanguage_refused (by decide)] at hr
    cases hr

end OiUserland.Libusb.Strings
