import OiUserland.Lib.Bytes
import OiUserland.Pkcs11.Types

namespace OiUserland.Pkcs11.DsaMethod

open Lib.Bytes Types

/-- A DSA structure: its address and the numbers it has. -/
structure Dsa where
  addr : Nat
  p : Option Int
  q : Option Int
  g : Option Int
  pubKey : Option Int
  privKey : Option Int

/-- DSA_SIGNATURE_LEN: r and s take 20 bytes each. -/
def dsaSignatureLen : Nat := 40

/-- The PKCS#11 calls of a signature operation with their results. -/
inductive Call
  | findObjectsInit (rv : Rv)
  | findObjects (rv : Rv) (found : Nat)
  | findObjectsFinal (rv : Rv)
  | createObject (rv : Rv)
  | destroyObject (h : Handle)
  | signInit (h : Handle) (rv : Rv)
  | sign (dgst : List UInt8) (rv : Rv)
  | verifyInit (h : Handle) (rv : Rv)
  | verify (dgst sig : List UInt8) (rv : Rv)
  deriving DecidableEq

/-- The outcomes in pk11_get_public_dsa_key and pk11_get_private_dsa_key: of the
copies of the four template values, the PKCS#11 calls, BN_dup and the entry of
the active list. -/
structure KeyResults where
  template : Bool := true
  findInit : Rv := ckrOk
  find : Rv := ckrOk
  found : Nat := 0
  foundKey : Handle := ckInvalidHandle
  findFinal : Rv := ckrOk
  create : Rv := ckrOk
  createdKey : Handle := 1
  dup : Bool := true
  hold : Bool := true

def getDsaKey (addr : Nat) (num : Option Int) (r : KeyResults) (old : DsaKey) : DsaKey × List Call :=
  if !r.template then ({ old with key := ckInvalidHandle }, [])
  else if r.findInit ≠ ckrOk then
    ({ old with key := ckInvalidHandle }, [.findObjectsInit r.findInit])
  else if r.find ≠ ckrOk then
    ({ old with key := ckInvalidHandle }, [.findObjectsInit ckrOk, .findObjects r.find r.found])
  else
    let h := if r.found = 0 then ckInvalidHandle else r.foundKey
    let calls := [.findObjectsInit ckrOk, .findObjects ckrOk r.found, .findObjectsFinal r.findFinal]
    if r.findFinal ≠ ckrOk then ({ old with key := h }, calls)
    else
      let created := if r.found = 0 then [Call.createObject r.create] else []
      if r.found = 0 ∧ r.create ≠ ckrOk then ({ old with key := ckInvalidHandle }, calls ++ created)
      else
        let h := if r.found = 0 then r.createdKey else h
        let rollback := if r.found = 0 then [Call.destroyObject h] else []
        if !r.dup || num.isNone then ({ old with key := ckInvalidHandle, num := none }, calls ++ created ++ rollback)
        else if h = ckInvalidHandle ∨ !r.hold then
          ({ old with key := ckInvalidHandle, num := num }, calls ++ created ++ rollback)
        else ({ key := h, dsa := some addr, num := num }, calls ++ created)

def pk11GetPublicDsaKey (dsa : Dsa) (r : KeyResults) (sp : DsaData) : DsaData × List Call :=
  let k := getDsaKey dsa.addr dsa.pubKey r sp.pub
  ({ sp with pub := k.1 }, k.2)

def pk11GetPrivateDsaKey (dsa : Dsa) (r : KeyResults) (sp : DsaData) : DsaData × List Call :=
  let k := getDsaKey dsa.addr dsa.privKey r sp.priv
  ({ sp with priv := k.1 }, k.2)

def destroyDsaObject (k : DsaKey) : DsaKey := if k.key ≠ ckInvalidHandle then {} else k

def checkNewDsaKeyPub (sp : DsaData) (dsa : Dsa) : DsaData :=
  if sp.pub.dsa ≠ some dsa.addr ∨ sp.pub.num ≠ dsa.pubKey then { sp with pub := destroyDsaObject sp.pub } else sp

def checkNewDsaKeyPriv (sp : DsaData) (dsa : Dsa) : DsaData :=
  if sp.priv.dsa ≠ some dsa.addr ∨ sp.priv.num ≠ dsa.privKey then
    { sp with priv := destroyDsaObject sp.priv }
  else sp

def currentPubKey (dsa : Dsa) (r : KeyResults) (sp : DsaData) : DsaData × List Call :=
  let sp := checkNewDsaKeyPub sp dsa
  if sp.pub.key = ckInvalidHandle then pk11GetPublicDsaKey dsa r sp else (sp, [])

def currentPrivKey (dsa : Dsa) (r : KeyResults) (sp : DsaData) : DsaData × List Call :=
  let sp := checkNewDsaKeyPriv sp dsa
  if sp.priv.key = ckInvalidHandle then pk11GetPrivateDsaKey dsa r sp else (sp, [])

/-- The outcomes in pk11_dsa_do_verify: the session that pk11_get_session hands
out, and the calls. -/
structure VerifyResults where
  session : Option DsaData := some {}
  key : KeyResults := {}
  verifyInit : Rv := ckrOk
  verify : Rv := ckrOk

structure DsaSig where
  r : Int
  s : Int

def sigbuf (sig : DsaSig) : List UInt8 :=
  let half : Int := dsaSignatureLen / 2
  writeAt (half + half - numBytes sig.s.natAbs) (toBytes sig.s.natAbs)
    (writeAt (half - numBytes sig.r.natAbs) (toBytes sig.r.natAbs) (List.replicate dsaSignatureLen 0))

/-- The value returned and the PKCS#11 calls made, or nothing when a null q is
dereferenced. -/
def pk11DsaDoVerify (dgst : List UInt8) (sig : DsaSig) (dsa : Dsa) (env : VerifyResults) :
    Option (Int × List Call) :=
  if sig.r ≤ 0 then some (0, [])
  else match dsa.q with
    | none => none
    | some q =>
        if sig.r.natAbs ≥ q.natAbs then some (0, [])
        else if sig.s ≤ 0 ∨ sig.s.natAbs ≥ q.natAbs then some (0, [])
        else if dgst.length > numBytes q.natAbs then some (0, [])
        else match env.session with
          | none => some (0, [])
          | some sp =>
              let k := currentPubKey dsa env.key sp
              let hPubKey := k.1.pub.key
              if hPubKey ≠ ckInvalidHandle then
                if env.verifyInit ≠ ckrOk then some (0, k.2 ++ [.verifyInit hPubKey env.verifyInit])
                else
                  let calls := k.2 ++ [.verifyInit hPubKey ckrOk, .verify dgst (sigbuf sig) env.verify]
                  if env.verify ≠ ckrOk then some (0, calls) else some (1, calls)
              else some (1, k.2)

/-- The outcomes in pk11_dsa_do_sign. `stack` is what the signature buffer holds
before it is written, `signature` what C_Sign stores in it. -/
structure SignResults where
  session : Option DsaData := some {}
  key : KeyResults := {}
  signInit : Rv := ckrOk
  sign : Rv := ckrOk
  stack : List UInt8 := []
  signature : List UInt8 := []
  newS : Bool := true
  newR : Bool := true
  newSig : Bool := true
  bin2bn : Bool := true

/-- The DSA_SIG that is built at the end. It is returned without numbers when
these cannot be stored in it. -/
def buildSig (sigret : List UInt8) (env : SignResults) : Option (Option DsaSig) :=
  if !env.newS || !env.newR || !env.newSig then none
  else if !env.bin2bn then some none
  else some (some ⟨ofBytes (sigret.take (dsaSignatureLen / 2)), ofBytes (sigret.drop (dsaSignatureLen / 2))⟩)

def pk11DsaDoSign (dgst : List UInt8) (dsa : Dsa) (env : SignResults) :
    Option (Option DsaSig) × List Call :=
  match dsa.p, dsa.q, dsa.g with
  | some _, some q, some _ =>
      if dgst.length > numBytes q.natAbs then (none, [])
      else match env.session with
        | none => (none, [])
        | some sp =>
            let k := currentPrivKey dsa env.key sp
            let hPrivKey := k.1.priv.key
            if hPrivKey ≠ ckInvalidHandle then
              if env.signInit ≠ ckrOk then (none, k.2 ++ [.signInit hPrivKey env.signInit])
              else
                let calls := k.2 ++ [.signInit hPrivKey ckrOk, .sign dgst env.sign]
                if env.sign ≠ ckrOk then (none, calls)
                else (buildSig (writeAt 0 env.signature (List.replicate dsaSignatureLen 0)) env, calls)
            else (buildSig env.stack env, k.2)
  | _, _, _ => (none, [])

def CacheHit (k : DsaKey) (addr : Nat) (num : Option Int) : Prop :=
  k.key ≠ ckInvalidHandle ∧ k.dsa = some addr ∧ k.num = num

/-- The search for the key or its creation gives a handle. That is also so when
the search finds an object and only its end fails. -/
def KeyFound (num : Option Int) (r : KeyResults) : Prop :=
  r.template ∧ r.findInit = ckrOk ∧ r.find = ckrOk ∧
    if r.findFinal ≠ ckrOk then r.found ≠ 0 ∧ r.foundKey ≠ ckInvalidHandle
    else (if r.found = 0 then r.create = ckrOk ∧ r.createdKey ≠ ckInvalidHandle
      else r.foundKey ≠ ckInvalidHandle) ∧ r.dup ∧ num.isSome ∧ r.hold

variable {sig : DsaSig} {dsa : Dsa} {sp : DsaData}

theorem getDsaKey_key (addr : Nat) (num : Option Int) (r : KeyResults) (old : DsaKey) :
    (getDsaKey addr num r old).1.key ≠ ckInvalidHandle ↔ KeyFound num r := by
  by_cases ht : r.template <;> by_cases h1 : r.findInit = ckrOk <;> by_cases h2 : r.find = ckrOk <;>
    simp only [getDsaKey, KeyFound, ht, h1, h2, Bool.not_true, Bool.not_false, Bool.false_eq_true, ne_eq,
      not_true_eq_false, not_false_eq_true, if_true, if_false, true_and, false_and]
  by_cases h3 : r.findFinal = ckrOk
  · simp only [h3, not_true_eq_false, if_false]
    by_cases h4 : r.found = 0
    · by_cases h5 : r.create = ckrOk <;> cases hd : r.dup <;> cases num <;>
        by_cases h6 : r.createdKey = ckInvalidHandle <;> cases hh : r.hold <;> simp [h4, h5, h6]
    · cases hd : r.dup <;> cases num <;>
        by_cases h6 : r.foundKey = ckInvalidHandle <;> cases hh : r.hold <;> simp [h4, h6]
  · by_cases h4 : r.found = 0 <;> simp [h3, h4]

theorem destroyDsaObject_key (k : DsaKey) : (destroyDsaObject k).key = ckInvalidHandle := by
  by_cases h : k.key = ckInvalidHandle
  · simp [destroyDsaObject, h]
  · simp [destroyDsaObject, h]

theorem checkNewDsaKeyPub_key (sp : DsaData) (dsa : Dsa) :
    (checkNewDsaKeyPub sp dsa).pub.key ≠ ckInvalidHandle ↔ CacheHit sp.pub dsa.addr dsa.pubKey := by
  by_cases h : sp.pub.dsa = some dsa.addr ∧ sp.pub.num = dsa.pubKey
  · simp [checkNewDsaKeyPub, CacheHit, h]
  · have hmiss : sp.pub.dsa ≠ some dsa.addr ∨ sp.pub.num ≠ dsa.pubKey := by tauto
    simp only [checkNewDsaKeyPub, if_pos hmiss, destroyDsaObject_key, CacheHit]
    tauto

theorem checkNewDsaKeyPriv_key (sp : DsaData) (dsa : Dsa) :
    (checkNewDsaKeyPriv sp dsa).priv.key ≠ ckInvalidHandle ↔ CacheHit sp.priv dsa.addr dsa.privKey := by
  by_cases h : sp.priv.dsa = some dsa.addr ∧ sp.priv.num = dsa.privKey
  · simp [checkNewDsaKeyPriv, CacheHit, h]
  · have hmiss : sp.priv.dsa ≠ some dsa.addr ∨ sp.priv.num ≠ dsa.privKey := by tauto
    simp only [checkNewDsaKeyPriv, if_pos hmiss, destroyDsaObject_key, CacheHit]
    tauto

theorem currentPubKey_key (dsa : Dsa) (r : KeyResults) (sp : DsaData) :
    (currentPubKey dsa r sp).1.pub.key ≠ ckInvalidHandle ↔
      CacheHit sp.pub dsa.addr dsa.pubKey ∨ KeyFound dsa.pubKey r := by
  rw [← checkNewDsaKeyPub_key]
  by_cases h : (checkNewDsaKeyPub sp dsa).pub.key = ckInvalidHandle
  · simp only [currentPubKey, h, ne_eq, not_true_eq_false, false_or]
    exact getDsaKey_key _ _ _ _
  · simp [currentPubKey, h]

theorem currentPrivKey_key (dsa : Dsa) (r : KeyResults) (sp : DsaData) :
    (currentPrivKey dsa r sp).1.priv.key ≠ ckInvalidHandle ↔
      CacheHit sp.priv dsa.addr dsa.privKey ∨ KeyFound dsa.privKey r := by
  rw [← checkNewDsaKeyPriv_key]
  by_cases h : (checkNewDsaKeyPriv sp dsa).priv.key = ckInvalidHandle
  · simp only [currentPrivKey, h, ne_eq, not_true_eq_false, false_or]
    exact getDsaKey_key _ _ _ _
  · simp [currentPrivKey, h]

def Encodes (bytes : List UInt8) (sig : DsaSig) : Prop :=
  bytes.length = dsaSignatureLen ∧ (ofBytes (bytes.take (dsaSignatureLen / 2)) : Int) = sig.r ∧
    (ofBytes (bytes.drop (dsaSignatureLen / 2)) : Int) = sig.s

def padded (n : Nat) : List UInt8 := List.replicate (20 - numBytes n) 0 ++ toBytes n

theorem length_padded {n : Nat} (h : n < 256 ^ 20) : (padded n).length = 20 := by
  have := (numBytes_le_iff n 20).mpr h
  rw [padded, List.length_append, List.length_replicate, length_toBytes]
  omega

theorem ofBytes_padded (n : Nat) : ofBytes (padded n) = n := by
  rw [padded, ofBytes_zeros, ofBytes_toBytes]

theorem sigbuf_eq (hr : sig.r.natAbs < 256 ^ 20) (hs : sig.s.natAbs < 256 ^ 20) :
    sigbuf sig = padded sig.r.natAbs ++ padded sig.s.natAbs := by
  have hnr := (numBytes_le_iff _ _).mpr hr
  have hns := (numBytes_le_iff _ _).mpr hs
  have hhalf : ((dsaSignatureLen : Nat) : Int) / 2 = 20 := rfl
  have hor : ((dsaSignatureLen : Nat) : Int) / 2 - numBytes sig.r.natAbs =
      ((20 - numBytes sig.r.natAbs : Nat) : Int) := by omega
  have hos : ((dsaSignatureLen : Nat) : Int) / 2 + ((dsaSignatureLen : Nat) : Int) / 2 - numBytes sig.s.natAbs =
      (((padded sig.r.natAbs).length + (20 - numBytes sig.s.natAbs) : Nat) : Int) := by
    rw [length_padded hr]
    omega
  have hfirst : writeAt ((20 - numBytes sig.r.natAbs : Nat) : Int) (toBytes sig.r.natAbs)
      (List.replicate dsaSignatureLen 0) = padded sig.r.natAbs ++ List.replicate 20 0 := by
    rw [writeAt_of_nonneg _ _ _ (by rw [length_toBytes, List.length_replicate]; unfold dsaSignatureLen; omega),
      length_toBytes, padded, List.take_replicate, List.drop_replicate]
    congr 2
    · congr 1
      unfold dsaSignatureLen
      omega
    · unfold dsaSignatureLen
      omega
  simp only [sigbuf]
  rw [hos, hor, hfirst, writeAt_append _ _ _ _ (by rw [length_toBytes, List.length_replicate]; omega),
    length_toBytes, List.take_replicate, List.drop_replicate]
  have hmin : min (20 - numBytes sig.s.natAbs) 20 = 20 - numBytes sig.s.natAbs := by omega
  have hrest : 20 - (20 - numBytes sig.s.natAbs + numBytes sig.s.natAbs) = 0 := by omega
  rw [hmin, hrest]
  simp [padded]

theorem encodes_sigbuf_iff (hr : 0 < sig.r) (hs : 0 < sig.s) :
    Encodes (sigbuf sig) sig ↔ sig.r.natAbs < 256 ^ 20 ∧ sig.s.natAbs < 256 ^ 20 := by
  have hbound (bytes : List UInt8) (h : bytes.length ≤ 20) : ofBytes bytes < 256 ^ 20 :=
    lt_of_lt_of_le (ofBytes_lt bytes) (Nat.pow_le_pow_right (by omega) h)
  constructor
  · rintro ⟨hlen, h1, h2⟩
    have hlen' : (sigbuf sig).length = 40 := hlen
    have b1 := hbound ((sigbuf sig).take (dsaSignatureLen / 2)) (by
      rw [List.length_take, hlen']
      decide)
    have b2 := hbound ((sigbuf sig).drop (dsaSignatureLen / 2)) (by
      rw [List.length_drop, hlen']
      decide)
    omega
  · rintro ⟨h1, h2⟩
    have htake : (sigbuf sig).take (dsaSignatureLen / 2) = padded sig.r.natAbs := by
      rw [sigbuf_eq h1 h2]
      exact List.take_left' (length_padded h1)
    have hdrop : (sigbuf sig).drop (dsaSignatureLen / 2) = padded sig.s.natAbs := by
      rw [sigbuf_eq h1 h2]
      exact List.drop_left' (length_padded h1)
    refine ⟨?_, ?_, ?_⟩
    · rw [sigbuf_eq h1 h2, List.length_append, length_padded h1, length_padded h2]
      rfl
    · rw [htake, ofBytes_padded]
      omega
    · rw [hdrop, ofBytes_padded]
      omega

end OiUserland.Pkcs11.DsaMethod

namespace OiUserland.Pkcs11.DsaSound

open Lib.Bytes Types DsaMethod

variable {dgst : List UInt8} {sig : DsaSig} {dsa : Dsa} {sp : DsaData}

/-- pk11_dsa_do_verify accepts only after C_Verify accepted the digest and the
encoding of the signature. -/
def VerifySound (dgst : List UInt8) (sig : DsaSig) (dsa : Dsa) (env : VerifyResults) : Prop :=
  ∀ calls, pk11DsaDoVerify dgst sig dsa env = some (1, calls) →
    ∃ bytes, Encodes bytes sig ∧ Call.verify dgst bytes ckrOk ∈ calls

/-- pk11_dsa_do_sign returns a signature only after C_Sign succeeded. -/
def SignSound (dgst : List UInt8) (dsa : Dsa) (env : SignResults) : Prop :=
  (pk11DsaDoSign dgst dsa env).1 ≠ none → Call.sign dgst ckrOk ∈ (pk11DsaDoSign dgst dsa env).2

def VerifyStarts (dgst : List UInt8) (sig : DsaSig) (dsa : Dsa) : Prop :=
  0 < sig.r ∧ 0 < sig.s ∧ ∃ q, dsa.q = some q ∧ sig.r.natAbs < q.natAbs ∧ sig.s.natAbs < q.natAbs ∧
    dgst.length ≤ numBytes q.natAbs

def SignStarts (dgst : List UInt8) (dsa : Dsa) : Prop :=
  dsa.p.isSome ∧ dsa.g.isSome ∧ ∃ q, dsa.q = some q ∧ dgst.length ≤ numBytes q.natAbs

/-- With a session there is also a key handle, and numbers that C_Verify accepts
fit in their halves. -/
def VerifyGuarded (dgst : List UInt8) (sig : DsaSig) (dsa : Dsa) (env : VerifyResults) : Prop :=
  VerifyStarts dgst sig dsa → ∀ sp, env.session = some sp →
    (CacheHit sp.pub dsa.addr dsa.pubKey ∨ KeyFound dsa.pubKey env.key) ∧
    (env.verifyInit = ckrOk → env.verify = ckrOk → sig.r.natAbs < 256 ^ 20 ∧ sig.s.natAbs < 256 ^ 20)

def SignGuarded (dgst : List UInt8) (dsa : Dsa) (env : SignResults) : Prop :=
  SignStarts dgst dsa → ∀ sp, env.session = some sp → env.newS → env.newR → env.newSig →
    CacheHit sp.priv dsa.addr dsa.privKey ∨ KeyFound dsa.privKey env.key

theorem verify_eq (hs : VerifyStarts dgst sig dsa) (env : VerifyResults) (hsp : env.session = some sp) :
    pk11DsaDoVerify dgst sig dsa env =
      let k := currentPubKey dsa env.key sp
      if k.1.pub.key ≠ ckInvalidHandle then
        if env.verifyInit ≠ ckrOk then some (0, k.2 ++ [.verifyInit k.1.pub.key env.verifyInit])
        else
          let calls := k.2 ++ [.verifyInit k.1.pub.key ckrOk, .verify dgst (sigbuf sig) env.verify]
          if env.verify ≠ ckrOk then some (0, calls) else some (1, calls)
      else some (1, k.2) := by
  obtain ⟨hr0, hs0, q, hq, hr, hs, hd⟩ := hs
  rw [pk11DsaDoVerify, if_neg (by omega), hq]
  dsimp only
  rw [if_neg (by omega), if_neg (by omega), if_neg (by omega), hsp]

theorem verify_rejects {calls : List Call} (env : VerifyResults)
    (h : pk11DsaDoVerify dgst sig dsa env = some (1, calls)) :
    VerifyStarts dgst sig dsa ∧ ∃ sp, env.session = some sp := by
  unfold pk11DsaDoVerify at h
  split at h
  · cases h
  · rename_i hr0
    split at h
    · cases h
    · rename_i q hq
      split at h
      · cases h
      · rename_i hr
        split at h
        · cases h
        · rename_i hs
          split at h
          · cases h
          · rename_i hd
            split at h
            · cases h
            · rename_i sp hsp
              exact ⟨⟨by omega, by omega, q, hq, by omega, by omega, by omega⟩, sp, hsp⟩

def keyCall : Call → Bool
  | .findObjectsInit _ | .findObjects _ _ | .findObjectsFinal _ | .createObject _ | .destroyObject _ => true
  | _ => false

theorem getDsaKey_calls (addr : Nat) (num : Option Int) (r : KeyResults) (old : DsaKey) :
    ∀ c ∈ (getDsaKey addr num r old).2, keyCall c = true := by
  by_cases h : r.found = 0
  · simp only [getDsaKey, if_pos h]
    repeat' split
    all_goals simp [keyCall]
  · simp only [getDsaKey, if_neg h]
    repeat' split
    all_goals simp [keyCall]

theorem currentPubKey_calls (dsa : Dsa) (r : KeyResults) (sp : DsaData) :
    ∀ c ∈ (currentPubKey dsa r sp).2, keyCall c = true := by
  unfold currentPubKey
  dsimp only
  split
  · exact getDsaKey_calls _ _ _ _
  · simp

theorem currentPrivKey_calls (dsa : Dsa) (r : KeyResults) (sp : DsaData) :
    ∀ c ∈ (currentPrivKey dsa r sp).2, keyCall c = true := by
  unfold currentPrivKey
  dsimp only
  split
  · exact getDsaKey_calls _ _ _ _
  · simp

theorem verifySound_iff (dgst : List UInt8) (sig : DsaSig) (dsa : Dsa) (env : VerifyResults) :
    VerifySound dgst sig dsa env ↔ VerifyGuarded dgst sig dsa env := by
  constructor
  · intro h hstart sp hsp
    have heq := verify_eq hstart env hsp
    have hkeyed : (currentPubKey dsa env.key sp).1.pub.key ≠ ckInvalidHandle := by
      intro hk
      -- without a handle the function returns 1 and has not called C_Verify
      obtain ⟨bytes, -, hmem⟩ := h (currentPubKey dsa env.key sp).2 (by rw [heq]; simp [hk])
      exact absurd (currentPubKey_calls dsa env.key sp _ hmem) (by simp [keyCall])
    refine ⟨(currentPubKey_key dsa env.key sp).mp hkeyed, fun hinit hver => ?_⟩
    obtain ⟨bytes, henc, hmem⟩ := h ((currentPubKey dsa env.key sp).2 ++
        [.verifyInit (currentPubKey dsa env.key sp).1.pub.key ckrOk, .verify dgst (sigbuf sig) ckrOk]) (by
      rw [heq]
      simp only [hkeyed, hinit, hver, ne_eq, not_true_eq_false, not_false_eq_true, if_true, if_false])
    rcases List.mem_append.mp hmem with hmem | hmem
    · exact absurd (currentPubKey_calls dsa env.key sp _ hmem) (by simp [keyCall])
    · obtain rfl : bytes = sigbuf sig := by simpa using hmem
      exact (encodes_sigbuf_iff hstart.1 hstart.2.1).mp henc
  · intro h calls hret
    obtain ⟨hstart, sp, hsp⟩ := verify_rejects env hret
    obtain ⟨hkey, hfit⟩ := h hstart sp hsp
    rw [verify_eq hstart env hsp] at hret
    simp only [if_pos ((currentPubKey_key dsa env.key sp).mpr hkey)] at hret
    split at hret
    · cases hret
    · rename_i hinit
      split at hret
      · cases hret
      · rename_i hver
        rw [not_not] at hinit hver
        obtain rfl := (Prod.mk.inj (Option.some.inj hret)).2
        refine ⟨sigbuf sig, (encodes_sigbuf_iff hstart.1 hstart.2.1).mpr (hfit hinit hver), ?_⟩
        simp [hver]

theorem sign_eq (hs : SignStarts dgst dsa) (env : SignResults) (hsp : env.session = some sp) :
    pk11DsaDoSign dgst dsa env =
      let k := currentPrivKey dsa env.key sp
      if k.1.priv.key ≠ ckInvalidHandle then
        if env.signInit ≠ ckrOk then (none, k.2 ++ [.signInit k.1.priv.key env.signInit])
        else
          let calls := k.2 ++ [.signInit k.1.priv.key ckrOk, .sign dgst env.sign]
          if env.sign ≠ ckrOk then (none, calls)
          else (buildSig (writeAt 0 env.signature (List.replicate dsaSignatureLen 0)) env, calls)
      else (buildSig env.stack env, k.2) := by
  obtain ⟨hp, hg, q, hq, hd⟩ := hs
  obtain ⟨p, hp⟩ := Option.isSome_iff_exists.mp hp
  obtain ⟨g, hg⟩ := Option.isSome_iff_exists.mp hg
  simp only [pk11DsaDoSign, hp, hq, hg, hsp]
  rw [if_neg (by omega)]

theorem sign_rejects (env : SignResults) (h : (pk11DsaDoSign dgst dsa env).1 ≠ none) :
    SignStarts dgst dsa ∧ ∃ sp, env.session = some sp := by
  unfold pk11DsaDoSign at h
  split at h
  · rename_i p q g hp hq hg
    split at h
    · exact absurd rfl h
    · rename_i hd
      split at h
      · exact absurd rfl h
      · rename_i sp hsp
        exact ⟨⟨by simp [hp], by simp [hg], q, hq, by omega⟩, sp, hsp⟩
  · exact absurd rfl h

theorem buildSig_ne_none (sigret : List UInt8) (env : SignResults) :
    buildSig sigret env ≠ none ↔ env.newS ∧ env.newR ∧ env.newSig := by
  cases h1 : env.newS <;> cases h2 : env.newR <;> cases h3 : env.newSig <;> cases h4 : env.bin2bn <;>
    simp [buildSig, h1, h2, h3, h4]

theorem signSound_iff (dgst : List UInt8) (dsa : Dsa) (env : SignResults) :
    SignSound dgst dsa env ↔ SignGuarded dgst dsa env := by
  constructor
  · intro h hstart sp hsp h1 h2 h3
    have heq := sign_eq hstart env hsp
    refine (currentPrivKey_key dsa env.key sp).mp fun hk => ?_
    -- without a handle a signature is built from what the buffer holds
    have hmem := h (by
      rw [heq]
      simpa [hk] using (buildSig_ne_none env.stack env).mpr ⟨h1, h2, h3⟩)
    rw [heq] at hmem
    simp only [hk, ne_eq, not_true_eq_false, if_false] at hmem
    exact absurd (currentPrivKey_calls dsa env.key sp _ hmem) (by simp [keyCall])
  · intro h hret
    obtain ⟨hstart, sp, hsp⟩ := sign_rejects env hret
    have heq := sign_eq hstart env hsp
    rw [heq] at hret ⊢
    by_cases hk : (currentPrivKey dsa env.key sp).1.priv.key = ckInvalidHandle
    · simp only [hk, ne_eq, not_true_eq_false, if_false] at hret
      obtain ⟨h1, h2, h3⟩ := (buildSig_ne_none _ _).mp hret
      exact absurd hk ((currentPrivKey_key dsa env.key sp).mpr (h hstart sp hsp h1 h2 h3))
    · by_cases hinit : env.signInit = ckrOk
      · by_cases hsign : env.sign = ckrOk
        · simp [hk, hinit, hsign]
        · simp [hk, hinit, hsign] at hret
      · simp [hk, hinit] at hret

/-- Verification and signing are sound exactly when no session comes without a
key handle and the numbers of an accepted signature have at most 20 bytes. -/
theorem dsa_sound_iff (dgst : List UInt8) (sig : DsaSig) (dsa : Dsa) (venv : VerifyResults) (senv : SignResults) :
    (VerifySound dgst sig dsa venv ↔ VerifyGuarded dgst sig dsa venv) ∧
      (SignSound dgst dsa senv ↔ SignGuarded dgst dsa senv) :=
  ⟨verifySound_iff dgst sig dsa venv, signSound_iff dgst dsa senv⟩

/-- C_CreateObject fails: a signature nobody checked is accepted, and one nobody
made is returned. -/
theorem dsa_unsound : ∃ (dsa : Dsa) (venv : VerifyResults) (senv : SignResults),
    ¬ (VerifySound [1] ⟨1, 1⟩ dsa venv ∧ SignSound [1] dsa senv) := by
  let dsa : Dsa := ⟨1, some 23, some 11, some 4, some 8, some 7⟩
  refine ⟨dsa, { key := { create := 5 } }, { key := { create := 5 } }, fun h => ?_⟩
  obtain ⟨bytes, -, hmem⟩ := h.1 [.findObjectsInit 0, .findObjects 0 0, .findObjectsFinal 0, .createObject 5]
    (by decide)
  simp at hmem

end OiUserland.Pkcs11.DsaSound
