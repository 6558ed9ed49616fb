import OiUserland.Lib.Bytes
import OiUserland.Pkcs11.Types

namespace OiUserland.Pkcs11.RsaMethod

open Lib.Bytes Types

def rsaPkcs1Padding : Int := 1
def rsaSslv23Padding : Int := 2
def rsaNoPadding : Int := 3
def rsaPkcs1OaepPadding : Int := 4

/-- The RSA_padding_check functions. They belong to the library that the engine is loaded into. -/
inductive Routine
  | pkcs1Type1
  | pkcs1Type2
  | pkcs1Oaep
  | sslv23
  | noPadding
  deriving DecidableEq

/-- The switch on the padding mode in pk11_RSA_private_decrypt. -/
def privateRoutine (padding : Int) : Option Routine :=
  if padding = rsaPkcs1Padding then some .pkcs1Type2
  else if padding = rsaPkcs1OaepPadding then some .pkcs1Oaep
  else if padding = rsaSslv23Padding then some .sslv23
  else if padding = rsaNoPadding then some .noPadding
  else none

/-- The switch on the padding mode in pk11_RSA_public_decrypt. -/
def publicRoutine (padding : Int) : Option Routine :=
  if padding = rsaPkcs1Padding then some .pkcs1Type1
  else if padding = rsaNoPadding then some .noPadding
  else none

/-- A call of a padding routine: the block from the pointer that is passed on to its end, and the
two lengths. -/
structure PaddingCall where
  routine : Routine
  data : List UInt8
  flen : Int
  num : Nat

abbrev PaddingCheck := PaddingCall → List UInt8 → Int × List UInt8

/-- The outcomes in the low-level functions: whether pk11_get_session hands out a session, the handle
that the session has after the check for a cached key and the request for a new one, and the two
PKCS#11 calls with the bytes that the second stores. -/
structure LowResults where
  session : Bool := true
  key : Handle := 1
  init : Rv := ckrOk
  op : Rv := ckrOk
  output : List UInt8 := []

/-- What pk11_RSA_private_decrypt_low and pk11_RSA_public_decrypt_low share. They differ in the
cached key and in the PKCS#11 functions that they call. -/
def decryptLow (env : LowResults) (buf : List UInt8) : Int × List UInt8 :=
  if !env.session then (-1, buf)
  else if env.key ≠ ckInvalidHandle then
    if env.init ≠ ckrOk then (-1, buf)
    else if env.op ≠ ckrOk then (-1, writeAt 0 env.output buf)
    else (env.output.length, writeAt 0 env.output buf)
  else (-1, buf)

/-- C_DecryptInit and C_Decrypt with the private key. -/
def pk11RsaPrivateDecryptLow (env : LowResults) (buf : List UInt8) : Int × List UInt8 := decryptLow env buf

def pk11RsaPublicDecryptLow (env : LowResults) (buf : List UInt8) : Int × List UInt8 := decryptLow env buf

/-- The outcomes in pk11_RSA_private_decrypt and pk11_RSA_public_decrypt. `block` is what the
allocated block holds before it is written. -/
structure DecryptResults where
  malloc : Bool := true
  block : Nat → UInt8 := fun _ => 0
  bin2bn : Bool := true
  low : LowResults := {}

structure Outcome where
  ret : Int
  out : List UInt8
  low : Option (Int × List UInt8) := none
  calls : List PaddingCall := []

def skipZeros (r : Int) : Nat → List UInt8 → Nat
  | j, [] => j
  | j, b :: bs => if j < r ∧ b = 0 then skipZeros r (j + 1) bs else j

/-- What pk11_RSA_private_decrypt and pk11_RSA_public_decrypt share. A mode that the switch does not
know leaves the result of the low-level function. -/
def rsaDecrypt (low : LowResults → List UInt8 → Int × List UInt8) (routine : Option Routine) (check : PaddingCheck)
    (n : Nat) (src dst : List UInt8) (env : DecryptResults) : Outcome :=
  let num := numBytes n
  if !env.malloc then ⟨-1, dst, none, []⟩
  else if src.length > num then ⟨-1, dst, none, []⟩
  else if !env.bin2bn then ⟨-1, dst, none, []⟩
  else if ofBytes src ≥ n then ⟨-1, dst, none, []⟩
  else
    let l := low env.low ((List.range num).map env.block)
    let j := skipZeros l.1 0 l.2
    match routine with
    | some k =>
        let call : PaddingCall := ⟨k, l.2.drop j, l.1 - j, num⟩
        ⟨(check call dst).1, (check call dst).2, some l, [call]⟩
    | none => ⟨l.1, dst, some l, []⟩

def pk11RsaPrivateDecrypt (check : PaddingCheck) (n : Nat) (src dst : List UInt8) (padding : Int)
    (env : DecryptResults) : Outcome :=
  rsaDecrypt pk11RsaPrivateDecryptLow (privateRoutine padding) check n src dst env

def pk11RsaPublicDecrypt (check : PaddingCheck) (n : Nat) (src dst : List UInt8) (padding : Int)
    (env : DecryptResults) : Outcome :=
  rsaDecrypt pk11RsaPublicDecryptLow (publicRoutine padding) check n src dst env

def PaddingCall.given (c : PaddingCall) : Option (List UInt8) :=
  if 0 ≤ c.flen ∧ c.flen ≤ c.data.length then some (c.data.take c.flen.toNat) else none

/-- A failure of the low-level function is passed on, and of what it stored the padding routine of
the mode sees everything but the leading zeros. -/
structure Handled (routine : Option Routine) (dst : List UInt8) (o : Outcome) : Prop where
  failed : ∀ r buf, o.low = some (r, buf) → r < 0 → o.ret < 0 ∧ (∀ c ∈ o.calls, 0 ≤ c.flen) ∧ o.out = dst
  succeeded : ∀ r buf, o.low = some (r, buf) → 0 ≤ r → o.calls.map (fun c => (c.routine, c.given)) =
    routine.toList.map fun k => (k, some ((buf.take r.toNat).dropWhile fun b => b == 0))

/-- The input passes the checks that precede the low-level function. -/
def Attempted (n : Nat) (src : List UInt8) (env : DecryptResults) : Prop :=
  env.malloc = true ∧ src.length ≤ numBytes n ∧ env.bin2bn = true ∧ ofBytes src < n

/-- There is a session and a key, and the two PKCS#11 calls succeed. -/
def LowSucceeds (env : LowResults) : Prop :=
  env.session = true ∧ env.key ≠ ckInvalidHandle ∧ env.init = ckrOk ∧ env.op = ckrOk

variable {low : LowResults → List UInt8 → Int × List UInt8} {routine : Option Routine} {check : PaddingCheck}
  {n : Nat} {src dst buf : List UInt8} {env : DecryptResults} {r : Int}

theorem skipZeros_eq (r : Int) (j : Nat) (bs : List UInt8) :
    skipZeros r j bs = j + ((bs.take (r - j).toNat).takeWhile fun b => b == 0).length := by
  induction bs generalizing j with
  | nil => simp [skipZeros]
  | cons b bs ih =>
      by_cases hr : (j : Int) < r
      · have hpos : (r - j).toNat = (r - (j + 1 : Nat)).toNat + 1 := by omega
        rw [hpos, List.take_succ_cons]
        by_cases hb : b = 0
        · rw [skipZeros, if_pos ⟨hr, hb⟩, ih, hb, List.takeWhile_cons_of_pos (by decide), List.length_cons]
          omega
        · rw [skipZeros, if_neg (fun h => hb h.2), List.takeWhile_cons_of_neg (by simpa using hb)]
          rfl
      · have hzero : (r - j).toNat = 0 := by omega
        rw [skipZeros, if_neg (fun h => hr h.1), hzero]
        rfl

theorem drop_takeWhile (p : UInt8 → Bool) (bs : List UInt8) : bs.drop (bs.takeWhile p).length = bs.dropWhile p :=
  calc bs.drop (bs.takeWhile p).length = (bs.takeWhile p ++ bs.dropWhile p).drop (bs.takeWhile p).length := by
        rw [List.takeWhile_append_dropWhile]
    _ = bs.dropWhile p := List.drop_left

theorem given_skipZeros (k : Routine) (num : Nat) (h0 : 0 ≤ r) (hr : r.toNat ≤ buf.length) :
    PaddingCall.given ⟨k, buf.drop (skipZeros r 0 buf), r - skipZeros r 0 buf, num⟩ =
      some ((buf.take r.toNat).dropWhile fun b => b == 0) := by
  have hj : skipZeros r 0 buf = ((buf.take r.toNat).takeWhile fun b => b == 0).length := by
    rw [skipZeros_eq, Nat.zero_add, Nat.cast_zero, sub_zero]
  have hle : skipZeros r 0 buf ≤ r.toNat := by
    rw [hj]
    exact (List.takeWhile_prefix _).length_le.trans (List.length_take_le _ _)
  have hlen : (r - skipZeros r 0 buf).toNat = r.toNat - skipZeros r 0 buf := by omega
  have hbounds : 0 ≤ r - (skipZeros r 0 buf : Int) ∧
      r - (skipZeros r 0 buf : Int) ≤ (buf.drop (skipZeros r 0 buf)).length := by
    rw [List.length_drop]
    omega
  rw [PaddingCall.given, if_pos hbounds]
  dsimp only
  rw [hlen, ← List.drop_take, ← drop_takeWhile, ← hj]

theorem length_writeAt (offset : Int) (bytes buf : List UInt8) : (writeAt offset bytes buf).length = buf.length := by
  simp only [writeAt, List.length_take, List.length_append, List.length_drop]
  omega

theorem decryptLow_length (l : LowResults) (buf : List UInt8) : (decryptLow l buf).2.length = buf.length := by
  unfold decryptLow
  split
  · rfl
  · split
    · split
      · rfl
      · split
        · exact length_writeAt 0 _ _
        · exact length_writeAt 0 _ _
    · rfl

theorem decryptLow_success {l : LowResults} (h : LowSucceeds l) (buf : List UInt8) :
    (decryptLow l buf).1 = l.output.length := by
  obtain ⟨hsession, hkey, hinit, hop⟩ := h
  simp [decryptLow, hsession, hkey, hinit, hop]

theorem decryptLow_failure {l : LowResults} (h : ¬ LowSucceeds l) (buf : List UInt8) : (decryptLow l buf).1 = -1 := by
  unfold decryptLow
  split
  · rfl
  · rename_i hsession
    split
    · rename_i hkey
      split
      · rfl
      · rename_i hinit
        split
        · rfl
        · rename_i hop
          exact absurd ⟨by simpa using hsession, hkey, by simpa using hinit, by simpa using hop⟩ h
    · rfl

theorem rsaDecrypt_attempted (h : Attempted n src env) : rsaDecrypt low routine check n src dst env =
    let l := low env.low ((List.range (numBytes n)).map env.block)
    match routine with
    | some k =>
        let call : PaddingCall := ⟨k, l.2.drop (skipZeros l.1 0 l.2), l.1 - skipZeros l.1 0 l.2, numBytes n⟩
        ⟨(check call dst).1, (check call dst).2, some l, [call]⟩
    | none => ⟨l.1, dst, some l, []⟩ := by
  obtain ⟨hmalloc, hlen, hbn, hlt⟩ := h
  simp only [rsaDecrypt, hmalloc, hbn, Bool.not_true, Bool.false_eq_true, if_false, gt_iff_lt, ge_iff_le,
    Nat.not_lt.mpr hlen, Nat.not_le.mpr hlt]

theorem rsaDecrypt_rejected (h : ¬ Attempted n src env) :
    rsaDecrypt low routine check n src dst env = ⟨-1, dst, none, []⟩ := by
  unfold rsaDecrypt
  dsimp only
  split
  · rfl
  · rename_i hmalloc
    split
    · rfl
    · rename_i hlen
      split
      · rfl
      · rename_i hbn
        split
        · rfl
        · rename_i hlt
          exact absurd ⟨by simpa using hmalloc, by omega, by simpa using hbn, by omega⟩ h

theorem failure_length (check : PaddingCheck) (dst : List UInt8) (h : Attempted n src env) (hl : ¬ LowSucceeds env.low)
    (k : Routine) :
    ∃ c ∈ (rsaDecrypt decryptLow (some k) check n src dst env).calls, c.flen = -1 := by
  rw [rsaDecrypt_attempted h]
  have hr := decryptLow_failure hl ((List.range (numBytes n)).map env.block)
  refine ⟨_, List.mem_singleton.mpr rfl, ?_⟩
  dsimp only
  rw [hr, skipZeros_eq]
  rfl

theorem rsaDecrypt_handled (hfit : env.low.output.length ≤ src.length) :
    Handled routine dst (rsaDecrypt decryptLow routine check n src dst env) ↔
      (Attempted n src env → routine.isSome → LowSucceeds env.low) := by
  by_cases ha : Attempted n src env
  · have hlen := decryptLow_length env.low ((List.range (numBytes n)).map env.block)
    rw [List.length_map, List.length_range] at hlen
    constructor
    · intro h _ hk
      obtain ⟨k, rfl⟩ := Option.isSome_iff_exists.mp hk
      by_contra hl
      obtain ⟨c, hc, hneg⟩ := failure_length check dst ha hl k
      have hlow := h.failed _ _ (by rw [rsaDecrypt_attempted ha])
      rw [decryptLow_failure hl] at hlow
      have := (hlow (by decide)).2.1 c hc
      omega
    · intro hkeep
      rw [rsaDecrypt_attempted ha]
      cases routine with
      | none =>
          constructor
          · intro r buf hlow hneg
            refine ⟨?_, by simp, rfl⟩
            dsimp only
            rw [Option.some.inj hlow]
            exact hneg
          · intro r buf _ _
            rfl
      | some k =>
          have hl := hkeep ha rfl
          have hr := decryptLow_success hl ((List.range (numBytes n)).map env.block)
          constructor
          · intro r buf hlow hneg
            have heq := congrArg Prod.fst (Option.some.inj hlow)
            rw [hr] at heq
            dsimp only at heq
            omega
          · intro r buf hlow h0
            have heq := Option.some.inj hlow
            have hr' : r = (env.low.output.length : Int) := (congrArg Prod.fst heq).symm.trans hr
            have hb : buf.length = numBytes n := by rw [← hlen, heq]
            have hfits : r.toNat ≤ buf.length := by
              have := ha.2.1
              omega
            dsimp only
            rw [heq, List.map_cons, List.map_nil, given_skipZeros k (numBytes n) h0 hfits]
            rfl
  · rw [rsaDecrypt_rejected ha]
    refine iff_of_true ?_ fun h => absurd h ha
    constructor
    · intro r buf hlow
      cases hlow
    · intro r buf hlow
      cases hlow

/-- Both functions handle the result of the low-level function if and only if it does not fail in a
known padding mode. PKCS#11 stores no more bytes than the length it is given. -/
theorem decrypt_iff (check : PaddingCheck) (n : Nat) (src dst : List UInt8) (padding : Int) (env : DecryptResults)
    (hfit : env.low.output.length ≤ src.length) :
    (Handled (privateRoutine padding) dst (pk11RsaPrivateDecrypt check n src dst padding env) ↔
      (Attempted n src env → (privateRoutine padding).isSome → LowSucceeds env.low)) ∧
    (Handled (publicRoutine padding) dst (pk11RsaPublicDecrypt check n src dst padding env) ↔
      (Attempted n src env → (publicRoutine padding).isSome → LowSucceeds env.low)) :=
  ⟨rsaDecrypt_handled hfit, rsaDecrypt_handled hfit⟩

/-- The result is two bytes, the first of which is zero. -/
theorem decrypt_iff_zero : Handled (privateRoutine rsaPkcs1Padding) []
    (pk11RsaPrivateDecrypt (fun c out => (c.flen, out)) 65521 [1, 2] [] rsaPkcs1Padding { low := { output := [0, 9] } }) :=
  (decrypt_iff _ 65521 [1, 2] [] rsaPkcs1Padding _ (by decide)).1.mpr fun _ _ => ⟨rfl, by decide, rfl, rfl⟩

/-- Without a session the padding routine is asked to look at -1 bytes. -/
theorem decrypt_without_session : ¬ ∀ (check : PaddingCheck) (n : Nat) (src dst : List UInt8) (padding : Int)
    (env : DecryptResults), env.low.output.length ≤ src.length →
      Handled (privateRoutine padding) dst (pk11RsaPrivateDecrypt check n src dst padding env) ∧
      Handled (publicRoutine padding) dst (pk11RsaPublicDecrypt check n src dst padding env) := by
  intro h
  have hfailed := (h (fun _ out => (-1, out)) 251 [7] [] rsaPkcs1Padding { low := { session := false } }
    (by decide)).1.failed (-1) [0] rfl (by decide)
  exact absurd (hfailed.2.1 _ (List.mem_singleton.mpr rfl)) (by decide)

end OiUserland.Pkcs11.RsaMethod
