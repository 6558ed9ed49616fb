import OiUserland.Pkcs11.RsaMethod

namespace OiUserland.Pkcs11.RsaSign

open Lib.Bytes Types RsaMethod

def nidMd5Sha1 : Int := 114

/-- SSL_SIG_LENGTH: MD5 and SHA1 one after the other. -/
def sslSigLength : Nat := 36

/-- What the functions use of the library that the engine is loaded into: OBJ_nid2obj, of whose object
only the length is read, and i2d_X509_SIG, which has no bytes when it fails. -/
structure Encoder where
  nid2obj : Int → Option Nat
  i2dX509Sig : Int → List UInt8 → Option (List UInt8)

/-- The value of i2d_X509_SIG. -/
def Encoder.length (e : Encoder) (type : Int) (m : List UInt8) : Int :=
  match e.i2dX509Sig type m with
  | some der => der.length
  | none => -1

inductive Pointer
  | null
  | digest
  | buffer (bytes : List UInt8)
  deriving DecidableEq

structure Locals where
  i : Int
  j : Nat
  s : Pointer
  deriving DecidableEq

/-- The outcomes in pk11_RSA_sign and pk11_RSA_verify: the allocation, what the allocated buffer holds
before it is written, what i and j are before they are set, and those of the session, the key and the
two PKCS#11 calls. C_Sign leaves `ulsiglen` behind. -/
structure SignResults where
  malloc : Bool := true
  block : Nat → UInt8 := fun _ => 0
  unset : Int × Nat := (0, 0)
  low : LowResults := {}
  ulsiglen : Nat := 0

def storeDigest (enc : Encoder) (type : Int) (m : List UInt8) (i : Int) (j : Nat) (env : SignResults) :
    Except Locals Locals :=
  if !env.malloc then .error ⟨i, j, .null⟩
  else
    .ok ⟨i, j, .buffer (writeAt 0 ((enc.i2dX509Sig type m).getD []) ((List.range (j + 1)).map env.block))⟩

/-- The first half of pk11_RSA_sign and pk11_RSA_verify, which is the same in both. An error is a jump
to the exit label. -/
def encodeDigest (enc : Encoder) (type : Int) (m : List UInt8) (n : Nat) (env : SignResults) :
    Except Locals Locals :=
  let j := numBytes n
  if type = nidMd5Sha1 then
    if m.length ≠ sslSigLength then .error ⟨env.unset.1, env.unset.2, .null⟩
    else if (sslSigLength : Int) - rsaPkcs1Padding > j then .error ⟨sslSigLength, j, .digest⟩
    else .ok ⟨sslSigLength, j, .digest⟩
  else match enc.nid2obj type with
    | none => .error ⟨env.unset.1, env.unset.2, .null⟩
    | some 0 => .error ⟨env.unset.1, env.unset.2, .null⟩
    | some _ =>
        let i := enc.length type m
        if i - rsaPkcs1Padding > j then .error ⟨i, j, .null⟩
        else storeDigest enc type m i j env

def memsetAtExit (type : Int) (s : Pointer) (count : Nat) : Option (Pointer × Nat) :=
  if type ≠ nidMd5Sha1 then some (s, count) else none

/-- The value returned, the signature and its length as they are left, what C_Sign or C_Verify is given,
the local variables at the exit label, and the memset there. -/
structure Outcome where
  ret : Int
  sigret : List UInt8
  siglen : Nat
  given : Option (Pointer × Int)
  locals : Locals
  memset : Option (Pointer × Nat)

def pk11RsaSign (enc : Encoder) (type : Int) (m sigret : List UInt8) (siglen : Nat) (n : Nat) (env : SignResults) :
    Outcome :=
  match encodeDigest enc type m n env with
  | .error l => ⟨0, sigret, siglen, none, l, memsetAtExit type l.s (l.j + 1)⟩
  | .ok l =>
      let memset := memsetAtExit type l.s (l.j + 1)
      if !env.low.session then ⟨0, sigret, siglen, none, l, memset⟩
      else if env.low.key ≠ ckInvalidHandle then
        if env.low.init ≠ ckrOk then ⟨0, sigret, siglen, none, l, memset⟩
        else
          let sigret := writeAt 0 env.low.output sigret
          if env.low.op ≠ ckrOk then ⟨0, sigret, env.ulsiglen, some (l.s, l.i), l, memset⟩
          else ⟨1, sigret, env.ulsiglen, some (l.s, l.i), l, memset⟩
      else ⟨0, sigret, siglen, none, l, memset⟩

def pk11RsaVerify (enc : Encoder) (type : Int) (m sigbuf : List UInt8) (siglen : Nat) (n : Nat) (env : SignResults) :
    Outcome :=
  match encodeDigest enc type m n env with
  | .error l => ⟨0, sigbuf, siglen, none, l, memsetAtExit type l.s siglen⟩
  | .ok l =>
      let memset := memsetAtExit type l.s siglen
      if !env.low.session then ⟨0, sigbuf, siglen, none, l, memset⟩
      else if env.low.key ≠ ckInvalidHandle then
        if env.low.init ≠ ckrOk then ⟨0, sigbuf, siglen, none, l, memset⟩
        else if env.low.op ≠ ckrOk then ⟨0, sigbuf, siglen, some (l.s, l.i), l, memset⟩
        else ⟨1, sigbuf, siglen, some (l.s, l.i), l, memset⟩
      else ⟨0, sigbuf, siglen, none, l, memset⟩

/-- The buffer is cleared within its j + 1 bytes and at least as far as the encoded digest goes, and
nothing is cleared when it was not allocated. -/
structure Cleared (n : Nat) (o : Outcome) : Prop where
  skipped : (∀ bytes, o.locals.s ≠ .buffer bytes) → o.memset = none
  inside : ∀ s count, o.memset = some (s, count) →
    ∃ bytes, s = .buffer bytes ∧ bytes.length = numBytes n + 1 ∧ count ≤ bytes.length
  complete : ∀ bytes, o.locals.s = .buffer bytes → ∃ count, o.memset = some (o.locals.s, count) ∧ o.locals.i ≤ count

/-- The checks that precede the allocation pass, and there is memory. -/
def Allocates (enc : Encoder) (type : Int) (m : List UInt8) (n : Nat) (env : SignResults) : Prop :=
  (∃ k, enc.nid2obj type = some k ∧ k ≠ 0) ∧ enc.length type m ≤ numBytes n + 1 ∧ env.malloc = true

def exitLocals (enc : Encoder) (type : Int) (m : List UInt8) (n : Nat) (env : SignResults) : Locals :=
  match encodeDigest enc type m n env with
  | .error l => l
  | .ok l => l

variable {enc : Encoder} {type : Int} {m sigret sigbuf : List UInt8} {siglen n : Nat} {env : SignResults}

theorem exitLocals_ssl (h : type = nidMd5Sha1) (bytes : List UInt8) :
    (exitLocals enc type m n env).s ≠ .buffer bytes := by
  rw [exitLocals, encodeDigest, if_pos h]
  by_cases hm : m.length = sslSigLength
  · rw [if_neg (by simpa using hm)]
    by_cases hj : (sslSigLength : Int) - rsaPkcs1Padding > numBytes n
    · simp [hj]
    · simp [hj]
  · simp [hm]

theorem exitLocals_null (htype : type ≠ nidMd5Sha1) (h : ¬ Allocates enc type m n env) :
    (exitLocals enc type m n env).s = .null := by
  rw [exitLocals, encodeDigest, if_neg htype]
  cases hobj : enc.nid2obj type with
  | none => rfl
  | some k =>
      cases k with
      | zero => rfl
      | succ k =>
          dsimp only
          by_cases hj : enc.length type m - rsaPkcs1Padding > numBytes n
          · rw [if_pos hj]
            rfl
          · rw [if_neg hj, storeDigest]
            cases hmalloc : env.malloc with
            | false => rfl
            | true =>
                have hlen : enc.length type m ≤ numBytes n + 1 := by
                  have : rsaPkcs1Padding = 1 := rfl
                  omega
                exact absurd ⟨⟨k + 1, hobj, by omega⟩, hlen, hmalloc⟩ h

theorem exitLocals_buffer (htype : type ≠ nidMd5Sha1) (h : Allocates enc type m n env) :
    ∃ bytes, bytes.length = numBytes n + 1 ∧
      exitLocals enc type m n env = ⟨enc.length type m, numBytes n, .buffer bytes⟩ := by
  obtain ⟨⟨k, hobj, hk⟩, hlen, hmalloc⟩ := h
  have hj : ¬ enc.length type m - rsaPkcs1Padding > numBytes n := by
    have : rsaPkcs1Padding = 1 := rfl
    omega
  refine ⟨writeAt 0 ((enc.i2dX509Sig type m).getD []) ((List.range (numBytes n + 1)).map env.block), ?_, ?_⟩
  · rw [length_writeAt, List.length_map, List.length_range]
  · rw [exitLocals, encodeDigest, if_neg htype, hobj]
    cases k with
    | zero => exact absurd rfl hk
    | succ k =>
        dsimp only
        rw [if_neg hj, storeDigest, hmalloc]
        rfl

theorem sign_locals : (pk11RsaSign enc type m sigret siglen n env).locals = exitLocals enc type m n env := by
  unfold pk11RsaSign exitLocals
  split
  · rfl
  · dsimp only
    repeat' split
    all_goals rfl

theorem sign_memset : (pk11RsaSign enc type m sigret siglen n env).memset =
    memsetAtExit type (exitLocals enc type m n env).s ((exitLocals enc type m n env).j + 1) := by
  unfold pk11RsaSign exitLocals
  split
  · rfl
  · dsimp only
    repeat' split
    all_goals rfl

theorem verify_locals : (pk11RsaVerify enc type m sigbuf siglen n env).locals = exitLocals enc type m n env := by
  unfold pk11RsaVerify exitLocals
  split
  · rfl
  · dsimp only
    repeat' split
    all_goals rfl

theorem verify_memset : (pk11RsaVerify enc type m sigbuf siglen n env).memset =
    memsetAtExit type (exitLocals enc type m n env).s siglen := by
  unfold pk11RsaVerify exitLocals
  split
  · rfl
  · dsimp only
    repeat' split
    all_goals rfl

theorem cleared_iff {o : Outcome} {count : Nat} (hlocals : o.locals = exitLocals enc type m n env)
    (hmemset : o.memset = memsetAtExit type (exitLocals enc type m n env).s count) :
    Cleared n o ↔ (type ≠ nidMd5Sha1 →
      Allocates enc type m n env ∧ enc.length type m ≤ count ∧ count ≤ numBytes n + 1) := by
  by_cases htype : type = nidMd5Sha1
  · have hnone : o.memset = none := by rw [hmemset, memsetAtExit, if_neg (by simpa using htype)]
    refine iff_of_true ⟨fun _ => hnone, ?_, ?_⟩ fun h => absurd htype h
    · intro s count h
      rw [hnone] at h
      cases h
    · intro bytes h
      rw [hlocals] at h
      exact absurd h (exitLocals_ssl htype bytes)
  · have hsome : o.memset = some ((exitLocals enc type m n env).s, count) := by
      rw [hmemset, memsetAtExit, if_pos htype]
    by_cases ha : Allocates enc type m n env
    · obtain ⟨bytes, hlen, hexit⟩ := exitLocals_buffer htype ha
      rw [hexit] at hlocals hsome
      constructor
      · intro h _
        refine ⟨ha, ?_, ?_⟩
        · obtain ⟨c, hc, hi⟩ := h.complete bytes (by rw [hlocals])
          rw [hsome] at hc
          obtain ⟨-, rfl⟩ := Prod.mk.inj (Option.some.inj hc)
          rw [hlocals] at hi
          exact hi
        · obtain ⟨bytes', hb, hlen', hle⟩ := h.inside _ _ hsome
          omega
      · intro h
        obtain ⟨-, hi, hle⟩ := h htype
        refine ⟨fun hskip => ?_, fun s c hc => ?_, fun bytes' hb => ?_⟩
        · exact absurd (by rw [hlocals]) (hskip bytes)
        · rw [hsome] at hc
          obtain ⟨rfl, rfl⟩ := Prod.mk.inj (Option.some.inj hc)
          exact ⟨bytes, rfl, hlen, by omega⟩
        · refine ⟨count, ?_, ?_⟩
          · rw [hsome, hlocals]
          · rw [hlocals]
            exact hi
    · refine iff_of_false (fun h => ?_) fun h => ha (h htype).1
      have hnull := exitLocals_null htype ha
      -- the memset of the null pointer is not skipped
      have hskip := h.skipped fun bytes hb => by
        rw [hlocals, hnull] at hb
        cases hb
      rw [hsome] at hskip
      cases hskip

/-- Signing clears what it has to if and only if it gets as far as the buffer or has no need for it.
Verifying also depends on the length of the signature that it is given. -/
theorem rsa_cleared_iff (enc : Encoder) (type : Int) (m sigret sigbuf : List UInt8) (siglen n : Nat)
    (env : SignResults) :
    (Cleared n (pk11RsaSign enc type m sigret siglen n env) ↔
      (type ≠ nidMd5Sha1 → Allocates enc type m n env)) ∧
    (Cleared n (pk11RsaVerify enc type m sigbuf siglen n env) ↔ (type ≠ nidMd5Sha1 →
      Allocates enc type m n env ∧ enc.length type m ≤ siglen ∧ siglen ≤ numBytes n + 1)) := by
  constructor
  · rw [cleared_iff sign_locals sign_memset]
    refine forall_congr' fun htype => ⟨fun h => h.1, fun h => ⟨h, ?_⟩⟩
    obtain ⟨bytes, -, hexit⟩ := exitLocals_buffer htype h
    rw [hexit]
    exact ⟨h.2.1, le_refl _⟩
  · exact cleared_iff verify_locals verify_memset

/-- A digest whose encoding is too long for the key: nothing is allocated, and the null pointer is cleared. -/
theorem rsa_not_cleared : ¬ ∀ (enc : Encoder) (type : Int) (m sigret sigbuf : List UInt8) (siglen n : Nat)
    (env : SignResults), Cleared n (pk11RsaSign enc type m sigret siglen n env) ∧
      Cleared n (pk11RsaVerify enc type m sigbuf siglen n env) := by
  intro h
  have hskip := (h ⟨fun _ => some 5, fun _ m => some (0x30 :: m)⟩ 64 [1, 2, 3] [] [] 1 251 {}).1.skipped
    fun bytes hb => by cases hb
  cases hskip

end OiUserland.Pkcs11.RsaSign
