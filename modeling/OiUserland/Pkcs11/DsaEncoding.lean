import OiUserland.Pkcs11.DsaMethod

namespace OiUserland.Pkcs11.DsaEncoding

open Lib.Bytes Types DsaMethod DsaSound

def sigWrites (sig : DsaSig) : List (Int × List UInt8) :=
  let half : Int := dsaSignatureLen / 2
  [(half - numBytes sig.r.natAbs, toBytes sig.r.natAbs), (half + half - numBytes sig.s.natAbs, toBytes sig.s.natAbs)]

/-- C_Verify is given r and s, each padded to half of the signature, and nothing is written next to
the buffer. A key whose q is longer than that is rejected. -/
structure VerifyEncodes (dgst : List UInt8) (sig : DsaSig) (dsa : Dsa) (q : Int) (env : VerifyResults) : Prop where
  encoded : ∀ ret calls, pk11DsaDoVerify dgst sig dsa env = some (ret, calls) →
    ∀ d bytes rv, Call.verify d bytes rv ∈ calls →
      bytes = padded sig.r.natAbs ++ padded sig.s.natAbs ∧
      ∀ w ∈ sigWrites sig, 0 ≤ w.1 ∧ w.1 + w.2.length ≤ dsaSignatureLen
  rejected : dsaSignatureLen / 2 < numBytes q.natAbs → ∀ ret calls,
    pk11DsaDoVerify dgst sig dsa env = some (ret, calls) → ret = 0 ∧ ∀ d bytes rv, Call.verify d bytes rv ∉ calls

/-- When C_Sign succeeded, a result has the numbers of the token. A key whose q is longer than half
of the signature is rejected. -/
structure SignDecodes (dgst : List UInt8) (dsa : Dsa) (q : Int) (env : SignResults) (r s : Nat) : Prop where
  decoded : Call.sign dgst ckrOk ∈ (pk11DsaDoSign dgst dsa env).2 →
    (pk11DsaDoSign dgst dsa env).1 = none ∨ (pk11DsaDoSign dgst dsa env).1 = some (some ⟨r, s⟩)
  rejected : dsaSignatureLen / 2 < numBytes q.natAbs → (pk11DsaDoSign dgst dsa env).1 = none

/-- C_Sign stores two numbers of the same length, and no more bytes than the length it is given. -/
structure TokenSigns (env : SignResults) (half r s : Nat) : Prop where
  signed : env.sign = ckrOk → half ≤ dsaSignatureLen / 2 ∧ env.signature = lowBytes half r ++ lowBytes half s
  r_pos : 0 < r
  r_lt : r < 256 ^ half
  s_lt : s < 256 ^ half

/-- A key that gets past the guard on the digest and to the check of the signature has a q of at
most 20 bytes. Without a key handle there is no check. -/
def VerifyFits (dgst : List UInt8) (dsa : Dsa) (q : Int) (env : VerifyResults) : Prop :=
  dgst.length ≤ numBytes q.natAbs → ∀ sp, env.session = some sp →
    (CacheHit sp.pub dsa.addr dsa.pubKey ∨ KeyFound dsa.pubKey env.key → env.verifyInit = ckrOk) →
    numBytes q.natAbs ≤ 20

/-- A key with which a signature is built has a q of at most 20 bytes, and the token takes all 20
bytes for each number. -/
def SignFits (dgst : List UInt8) (dsa : Dsa) (q : Int) (env : SignResults) (half : Nat) : Prop :=
  SignStarts dgst dsa → env.newS → env.newR → env.newSig → ∀ sp, env.session = some sp →
    (CacheHit sp.priv dsa.addr dsa.privKey ∨ KeyFound dsa.privKey env.key → env.signInit = ckrOk ∧ env.sign = ckrOk) →
    numBytes q.natAbs ≤ 20 ∧
      (CacheHit sp.priv dsa.addr dsa.privKey ∨ KeyFound dsa.privKey env.key → env.bin2bn ∧ half = 20)

variable {dgst : List UInt8} {sig : DsaSig} {dsa : Dsa} {q : Int} {half r s : Nat}

theorem sigWrites_bounds (hr : numBytes sig.r.natAbs ≤ 20) (hs : numBytes sig.s.natAbs ≤ 20) :
    ∀ w ∈ sigWrites sig, 0 ≤ w.1 ∧ w.1 + w.2.length ≤ dsaSignatureLen := by
  have hhalf : ((dsaSignatureLen : Nat) : Int) / 2 = 20 := rfl
  have hlen : ((dsaSignatureLen : Nat) : Int) = 40 := rfl
  intro w hw
  rcases List.mem_cons.mp hw with rfl | hw
  · dsimp only
    rw [length_toBytes, hhalf, hlen]
    omega
  · obtain rfl := List.mem_singleton.mp hw
    dsimp only
    rw [length_toBytes, hhalf, hlen]
    omega

/-- Before it asks for a session, pk11_dsa_do_verify makes no call. -/
theorem verify_rejected {env : VerifyResults} (hq : dsa.q = some q)
    (h : ¬ (VerifyStarts dgst sig dsa ∧ ∃ sp, env.session = some sp)) : pk11DsaDoVerify dgst sig dsa env = some (0, []) := by
  unfold pk11DsaDoVerify
  split
  · rfl
  · rename_i hr0
    rw [hq]
    dsimp only
    split
    · rfl
    · rename_i hr
      split
      · rfl
      · rename_i hs
        split
        · rfl
        · rename_i hd
          have hstart : VerifyStarts dgst sig dsa :=
            ⟨by omega, by omega, q, hq, by omega, by omega, by omega⟩
          cases hsp : env.session with
          | none => rfl
          | some sp => exact absurd ⟨hstart, sp, hsp⟩ h

theorem verify_mem {sp : DsaData} {env : VerifyResults} {ret : Int} {calls : List Call} {d bytes : List UInt8} {rv : Rv}
    (hstart : VerifyStarts dgst sig dsa) (hsp : env.session = some sp)
    (h : pk11DsaDoVerify dgst sig dsa env = some (ret, calls)) (hmem : Call.verify d bytes rv ∈ calls) :
    bytes = sigbuf sig := by
  have hkey := currentPubKey_calls dsa env.key sp
  have hnot : ∀ cs : List Call, Call.verify d bytes rv ∈ (currentPubKey dsa env.key sp).2 ++ cs →
      Call.verify d bytes rv ∈ cs := by
    intro cs hc
    rcases List.mem_append.mp hc with hc | hc
    · exact absurd (hkey _ hc) (by simp [keyCall])
    · exact hc
  rw [verify_eq hstart env hsp] at h
  dsimp only at h
  split at h
  · split at h
    · obtain ⟨-, rfl⟩ := Prod.mk.inj (Option.some.inj h)
      simpa using hnot _ hmem
    · split at h
      · obtain ⟨-, rfl⟩ := Prod.mk.inj (Option.some.inj h)
        exact (by simpa using hnot _ hmem : _ ∧ _ ∧ _).2.1
      · obtain ⟨-, rfl⟩ := Prod.mk.inj (Option.some.inj h)
        exact (by simpa using hnot _ hmem : _ ∧ _ ∧ _).2.1
  · obtain ⟨-, rfl⟩ := Prod.mk.inj (Option.some.inj h)
    exact absurd (hkey _ hmem) (by simp [keyCall])

/-- Past the guards a signature is rejected without a look at it only when C_VerifyInit fails. -/
theorem verify_unchecked {sp : DsaData} {env : VerifyResults} (hstart : VerifyStarts dgst sig dsa)
    (hsp : env.session = some sp)
    (h : ∀ ret calls, pk11DsaDoVerify dgst sig dsa env = some (ret, calls) →
      ret = 0 ∧ ∀ d bytes rv, Call.verify d bytes rv ∉ calls) :
    ¬ (CacheHit sp.pub dsa.addr dsa.pubKey ∨ KeyFound dsa.pubKey env.key → env.verifyInit = ckrOk) := by
  intro hinit
  have heq := verify_eq hstart env hsp
  rw [← currentPubKey_key dsa env.key sp] at hinit
  by_cases hk : (currentPubKey dsa env.key sp).1.pub.key = ckInvalidHandle
  · dsimp only at heq
    rw [if_neg (by simpa using hk)] at heq
    exact absurd (h _ _ heq).1 (by decide)
  · dsimp only at heq
    rw [if_pos hk, if_neg (by simpa using hinit hk)] at heq
    by_cases hv : env.verify = ckrOk
    · rw [if_neg (by simpa using hv)] at heq
      exact absurd (h _ _ heq).1 (by decide)
    · rw [if_pos hv] at heq
      exact (h _ _ heq).2 dgst (sigbuf sig) env.verify (by simp)

theorem verifyInit_failed {sp : DsaData} {env : VerifyResults} (hstart : VerifyStarts dgst sig dsa)
    (hsp : env.session = some sp)
    (h : ¬ (CacheHit sp.pub dsa.addr dsa.pubKey ∨ KeyFound dsa.pubKey env.key → env.verifyInit = ckrOk)) :
    pk11DsaDoVerify dgst sig dsa env = some (0, (currentPubKey dsa env.key sp).2 ++
      [.verifyInit (currentPubKey dsa env.key sp).1.pub.key env.verifyInit]) := by
  rw [Classical.not_imp, ← currentPubKey_key dsa env.key sp] at h
  simp only [verify_eq hstart env hsp, if_pos h.1, if_pos h.2]

/-- A key with a long q that fits gets no further than C_VerifyInit. -/
theorem verify_quiet {env : VerifyResults} {ret : Int} {calls : List Call} (hq : dsa.q = some q)
    (hfits : VerifyFits dgst dsa q env) (hlong : 20 < numBytes q.natAbs)
    (h : pk11DsaDoVerify dgst sig dsa env = some (ret, calls)) :
    ret = 0 ∧ ∀ d bytes rv, Call.verify d bytes rv ∉ calls := by
  by_cases hreach : VerifyStarts dgst sig dsa ∧ ∃ sp, env.session = some sp
  · obtain ⟨hstart, sp, hsp⟩ := hreach
    have hd : dgst.length ≤ numBytes q.natAbs := by
      obtain ⟨-, -, q', hq', -, -, hd⟩ := hstart
      rw [hq] at hq'
      rw [Option.some.inj hq']
      exact hd
    have hfail := verifyInit_failed hstart hsp fun hinit => absurd (hfits hd sp hsp hinit) (by omega)
    obtain ⟨rfl, rfl⟩ := Prod.mk.inj (Option.some.inj (h.symm.trans hfail))
    refine ⟨rfl, fun d bytes rv hmem => ?_⟩
    rcases List.mem_append.mp hmem with hmem | hmem
    · exact absurd (currentPubKey_calls dsa env.key sp _ hmem) (by simp [keyCall])
    · simp at hmem
  · obtain ⟨rfl, rfl⟩ := Prod.mk.inj (Option.some.inj (h.symm.trans (verify_rejected hq hreach)))
    exact ⟨rfl, fun _ _ _ => List.not_mem_nil⟩

theorem verify_encoded {env : VerifyResults} {ret : Int} {calls : List Call} {d bytes : List UInt8} {rv : Rv}
    (hq : dsa.q = some q) (h : pk11DsaDoVerify dgst sig dsa env = some (ret, calls))
    (hmem : Call.verify d bytes rv ∈ calls) : bytes = sigbuf sig := by
  by_cases hreach : VerifyStarts dgst sig dsa ∧ ∃ sp, env.session = some sp
  · obtain ⟨hstart, sp, hsp⟩ := hreach
    exact verify_mem hstart hsp h hmem
  · obtain ⟨-, rfl⟩ := Prod.mk.inj (Option.some.inj (h.symm.trans (verify_rejected hq hreach)))
    exact absurd hmem List.not_mem_nil

theorem verifyEncodes_iff {env : VerifyResults} (hq : dsa.q = some q) (hr0 : 0 < sig.r) (hr : sig.r < q)
    (hs0 : 0 < sig.s) (hs : sig.s < q) : VerifyEncodes dgst sig dsa q env ↔ VerifyFits dgst dsa q env := by
  constructor
  · intro h hd sp hsp hinit
    by_contra hlong
    have hstart : VerifyStarts dgst sig dsa := ⟨hr0, hs0, q, hq, by omega, by omega, hd⟩
    exact verify_unchecked hstart hsp (h.rejected (Nat.lt_of_not_le hlong)) hinit
  · intro h
    by_cases hlong : 20 < numBytes q.natAbs
    · constructor
      · intro ret calls hret d bytes rv hmem
        exact absurd hmem ((verify_quiet hq h hlong hret).2 d bytes rv)
      · intro _ ret calls hret
        exact verify_quiet hq h hlong hret
    · have hqlt := (numBytes_le_iff q.natAbs 20).mp (Nat.le_of_not_lt hlong)
      have hr' : sig.r.natAbs < 256 ^ 20 := by omega
      have hs' : sig.s.natAbs < 256 ^ 20 := by omega
      constructor
      · intro ret calls hret d bytes rv hmem
        rw [verify_encoded hq hret hmem, sigbuf_eq hr' hs']
        exact ⟨rfl, sigWrites_bounds ((numBytes_le_iff _ _).mpr hr') ((numBytes_le_iff _ _).mpr hs')⟩
      · intro hlong'
        exact absurd hlong' hlong

/-- What C_Sign stores is followed by zeros. -/
theorem stored_signature (hhalf : half ≤ 20) (r s : Nat) :
    writeAt 0 (lowBytes half r ++ lowBytes half s) (List.replicate dsaSignatureLen 0) =
      lowBytes half r ++ (lowBytes half s ++ List.replicate (40 - (half + half)) 0) := by
  have hlen : (lowBytes half r ++ lowBytes half s).length = half + half := by
    rw [List.length_append, length_lowBytes, length_lowBytes]
  have hwrite := writeAt_of_nonneg 0 (lowBytes half r ++ lowBytes half s) (List.replicate dsaSignatureLen 0) (by
    rw [hlen, List.length_replicate]
    unfold dsaSignatureLen
    omega)
  rw [hlen, List.take_zero, List.nil_append, List.drop_replicate, Nat.zero_add, List.append_assoc] at hwrite
  exact hwrite

theorem ofBytes_signature (hhalf : half ≤ 20) (hr : r < 256 ^ half) (s : Nat) :
    r * 256 ^ (20 - half) ≤
      ofBytes ((writeAt 0 (lowBytes half r ++ lowBytes half s) (List.replicate dsaSignatureLen 0)).take 20) := by
  have hlen : (lowBytes half s ++ List.replicate (40 - (half + half)) 0).length = half + (40 - (half + half)) := by
    rw [List.length_append, length_lowBytes, List.length_replicate]
  rw [stored_signature hhalf, List.take_append, length_lowBytes,
    List.take_of_length_le (by rw [length_lowBytes]; exact hhalf), ofBytes_append, ofBytes_lowBytes,
    Nat.mod_eq_of_lt hr, List.length_take, hlen]
  have hmin : min (20 - half) (half + (40 - (half + half))) = 20 - half := by omega
  rw [hmin]
  exact Nat.le_add_right _ _

theorem buildSig_full {env : SignResults} (hr : r < 256 ^ 20) (hs : s < 256 ^ 20) (hbn : env.bin2bn = true)
    (h1 : env.newS) (h2 : env.newR) (h3 : env.newSig) :
    buildSig (writeAt 0 (lowBytes 20 r ++ lowBytes 20 s) (List.replicate dsaSignatureLen 0)) env =
      some (some ⟨r, s⟩) := by
  have hlen : (lowBytes 20 r).length = 20 := length_lowBytes 20 r
  have hwrite : writeAt 0 (lowBytes 20 r ++ lowBytes 20 s) (List.replicate dsaSignatureLen 0) =
      lowBytes 20 r ++ lowBytes 20 s := by
    rw [stored_signature (le_refl 20)]
    exact congrArg _ (List.append_nil _)
  have hhalf : dsaSignatureLen / 2 = 20 := rfl
  simp only [buildSig, h1, h2, h3, hbn, hwrite, hhalf, Bool.not_true, Bool.or_self, Bool.false_eq_true, if_false]
  rw [List.take_left' hlen, List.drop_left' hlen, ofBytes_lowBytes, ofBytes_lowBytes, Nat.mod_eq_of_lt hr,
    Nat.mod_eq_of_lt hs]

theorem buildSig_short {env : SignResults} (hhalf : half < 20) (hr0 : 0 < r) (hr : r < 256 ^ half) (s : Nat) :
    buildSig (writeAt 0 (lowBytes half r ++ lowBytes half s) (List.replicate dsaSignatureLen 0)) env ≠
      some (some ⟨r, s⟩) := by
  have hle := ofBytes_signature (le_of_lt hhalf) hr s
  have hpow : 256 ≤ 256 ^ (20 - half) := by
    calc 256 = 256 ^ 1 := rfl
      _ ≤ 256 ^ (20 - half) := Nat.pow_le_pow_right (by omega) (by omega)
  have hmul : r * 256 ≤ r * 256 ^ (20 - half) := Nat.mul_le_mul_left r hpow
  intro h
  unfold buildSig at h
  split at h
  · cases h
  · split at h
    · cases h
    · have hrs := congrArg DsaSig.r (Option.some.inj (Option.some.inj h))
      have hhalf' : dsaSignatureLen / 2 = 20 := rfl
      dsimp only at hrs
      rw [hhalf'] at hrs
      omega

theorem buildSig_bin2bn {env : SignResults} (hbn : env.bin2bn = false) (sigret : List UInt8) (sig : DsaSig) :
    buildSig sigret env ≠ some (some sig) := by
  unfold buildSig
  split
  · simp
  · simp [hbn]

theorem sign_cases {env : SignResults} (h : (pk11DsaDoSign dgst dsa env).1 ≠ none) :
    SignStarts dgst dsa ∧ (env.newS ∧ env.newR ∧ env.newSig) ∧ ∃ sp, env.session = some sp ∧
      (CacheHit sp.priv dsa.addr dsa.privKey ∨ KeyFound dsa.privKey env.key → env.signInit = ckrOk ∧ env.sign = ckrOk) := by
  obtain ⟨hstart, sp, hsp⟩ := sign_rejects env h
  rw [sign_eq hstart env hsp] at h
  dsimp only at h
  by_cases hk : (currentPrivKey dsa env.key sp).1.priv.key = ckInvalidHandle
  · rw [if_neg (by simpa using hk)] at h
    refine ⟨hstart, (buildSig_ne_none _ _).mp h, sp, hsp, fun hkey => ?_⟩
    exact absurd hk ((currentPrivKey_key dsa env.key sp).mpr hkey)
  · rw [if_pos hk] at h
    by_cases hinit : env.signInit = ckrOk
    · by_cases hsign : env.sign = ckrOk
      · rw [if_neg (by simpa using hinit), if_neg (by simpa using hsign)] at h
        exact ⟨hstart, (buildSig_ne_none _ _).mp h, sp, hsp, fun _ => ⟨hinit, hsign⟩⟩
      · rw [if_neg (by simpa using hinit), if_pos hsign] at h
        exact absurd rfl h
    · rw [if_pos hinit] at h
      exact absurd rfl h

theorem sign_some {sp : DsaData} {env : SignResults} (hstart : SignStarts dgst dsa) (hsp : env.session = some sp)
    (h1 : env.newS) (h2 : env.newR) (h3 : env.newSig)
    (h : CacheHit sp.priv dsa.addr dsa.privKey ∨ KeyFound dsa.privKey env.key → env.signInit = ckrOk ∧ env.sign = ckrOk) :
    (pk11DsaDoSign dgst dsa env).1 ≠ none := by
  rw [← currentPrivKey_key dsa env.key sp] at h
  rw [sign_eq hstart env hsp]
  dsimp only
  by_cases hk : (currentPrivKey dsa env.key sp).1.priv.key = ckInvalidHandle
  · rw [if_neg (by simpa using hk)]
    exact (buildSig_ne_none _ _).mpr ⟨h1, h2, h3⟩
  · rw [if_pos hk, if_neg (by simpa using (h hk).1), if_neg (by simpa using (h hk).2)]
    exact (buildSig_ne_none _ _).mpr ⟨h1, h2, h3⟩

theorem sign_keyed {sp : DsaData} {env : SignResults} (hstart : SignStarts dgst dsa) (hsp : env.session = some sp)
    (hkey : CacheHit sp.priv dsa.addr dsa.privKey ∨ KeyFound dsa.privKey env.key) (hinit : env.signInit = ckrOk)
    (hsign : env.sign = ckrOk) :
    pk11DsaDoSign dgst dsa env = (buildSig (writeAt 0 env.signature (List.replicate dsaSignatureLen 0)) env,
      (currentPrivKey dsa env.key sp).2 ++
        [.signInit (currentPrivKey dsa env.key sp).1.priv.key ckrOk, .sign dgst ckrOk]) := by
  rw [sign_eq hstart env hsp]
  dsimp only
  rw [if_pos ((currentPrivKey_key dsa env.key sp).mpr hkey), if_neg (by simpa using hinit),
    if_neg (by simpa using hsign), hsign]

/-- Without a key handle C_Sign is not called. -/
theorem sign_keyless {sp : DsaData} {env : SignResults} (hstart : SignStarts dgst dsa) (hsp : env.session = some sp)
    (hkey : ¬ (CacheHit sp.priv dsa.addr dsa.privKey ∨ KeyFound dsa.privKey env.key)) :
    Call.sign dgst ckrOk ∉ (pk11DsaDoSign dgst dsa env).2 := by
  intro hmem
  rw [sign_eq hstart env hsp] at hmem
  dsimp only at hmem
  rw [if_neg (fun hk => hkey ((currentPrivKey_key dsa env.key sp).mp hk))] at hmem
  exact absurd (currentPrivKey_calls dsa env.key sp _ hmem) (by simp [keyCall])

theorem signDecodes_iff {env : SignResults} (htoken : TokenSigns env half r s) :
    SignDecodes dgst dsa q env r s ↔ SignFits dgst dsa q env half := by
  constructor
  · intro h hstart h1 h2 h3 sp hsp hops
    have hsome := sign_some hstart hsp h1 h2 h3 hops
    refine ⟨?_, fun hkey => ?_⟩
    · by_contra hlong
      exact hsome (h.rejected (Nat.lt_of_not_le hlong))
    · obtain ⟨hinit, hsign⟩ := hops hkey
      have heq := sign_keyed hstart hsp hkey hinit hsign
      have hres := (h.decoded (by rw [heq]; simp)).resolve_left hsome
      rw [heq, (htoken.signed hsign).2] at hres
      constructor
      · by_contra hbn
        exact buildSig_bin2bn (by simpa using hbn) _ _ hres
      · by_contra hne
        have hle : half ≤ 20 := (htoken.signed hsign).1
        exact buildSig_short (by omega) htoken.r_pos htoken.r_lt s hres
  · intro h
    constructor
    · intro hmem
      by_cases hnone : (pk11DsaDoSign dgst dsa env).1 = none
      · exact Or.inl hnone
      · obtain ⟨hstart, ⟨h1, h2, h3⟩, sp, hsp, hops⟩ := sign_cases hnone
        have hkey : CacheHit sp.priv dsa.addr dsa.privKey ∨ KeyFound dsa.privKey env.key := by
          by_contra hkey
          exact sign_keyless hstart hsp hkey hmem
        obtain ⟨hbn, rfl⟩ := (h hstart h1 h2 h3 sp hsp hops).2 hkey
        right
        rw [sign_keyed hstart hsp hkey (hops hkey).1 (hops hkey).2, (htoken.signed (hops hkey).2).2]
        exact buildSig_full htoken.r_lt htoken.s_lt hbn h1 h2 h3
    · intro hlong
      by_contra hsome
      obtain ⟨hstart, ⟨h1, h2, h3⟩, sp, hsp, hops⟩ := sign_cases hsome
      exact absurd (h hstart h1 h2 h3 sp hsp hops).1 (Nat.not_le.mpr hlong)

/-- The encodings are right, and keys with a longer q are rejected, if and only if no such key gets
past the guards and the token takes 20 bytes for each number. -/
theorem dsa_encoding_iff (dgst : List UInt8) (sig : DsaSig) (dsa : Dsa) (q : Int) (venv : VerifyResults)
    (senv : SignResults) (half r s : Nat) (hq : dsa.q = some q) (hr : 0 < sig.r ∧ sig.r < q)
    (hs : 0 < sig.s ∧ sig.s < q) (htoken : TokenSigns senv half r s) :
    (VerifyEncodes dgst sig dsa q venv ↔ VerifyFits dgst dsa q venv) ∧
      (SignDecodes dgst dsa q senv r s ↔ SignFits dgst dsa q senv half) :=
  ⟨verifyEncodes_iff hq hr.1 hr.2 hs.1 hs.2, signDecodes_iff htoken⟩

/-- A q of one byte and a token that takes 20 bytes for each number. -/
theorem dsa_encoding_iff_short :
    VerifyEncodes [1] ⟨3, 5⟩ ⟨1, some 23, some 11, some 4, some 8, some 7⟩ 11 {} ∧
      SignDecodes [1] ⟨1, some 23, some 11, some 4, some 8, some 7⟩ 11
        { signature := lowBytes 20 3 ++ lowBytes 20 5 } 3 5 := by
  have h := dsa_encoding_iff [1] ⟨3, 5⟩ ⟨1, some 23, some 11, some 4, some 8, some 7⟩ 11 {}
    { signature := lowBytes 20 3 ++ lowBytes 20 5 } 20 3 5 rfl (by decide) (by decide)
    ⟨fun _ => ⟨by decide, rfl⟩, by decide, by decide, by decide⟩
  exact ⟨h.1.mpr fun _ _ _ _ => by decide, h.2.mpr fun _ _ _ _ _ _ _ => ⟨by decide, fun _ => ⟨rfl, rfl⟩⟩⟩

/-- With a q of 21 bytes, an r of 21 bytes starts before the buffer, and C_Verify is called. -/
theorem dsa_long_q : ¬ ∀ (dgst : List UInt8) (sig : DsaSig) (dsa : Dsa) (q : Int) (venv : VerifyResults)
    (senv : SignResults) (half r s : Nat), dsa.q = some q → 0 < sig.r ∧ sig.r < q → 0 < sig.s ∧ sig.s < q →
      TokenSigns senv half r s → VerifyEncodes dgst sig dsa q venv ∧ SignDecodes dgst dsa q senv r s := by
  intro h
  have hv := (h [1] ⟨2 ^ 160, 1⟩ ⟨1, some 23, some (2 ^ 160 + 7), some 4, some 8, some 7⟩ (2 ^ 160 + 7)
    { key := { found := 1, foundKey := 5 } } { sign := 5 } 20 3 5 rfl (by decide) (by decide)
    ⟨fun h => absurd h (by decide), by decide, by decide, by decide⟩).1
  have hrej := hv.rejected (by decide) 1 _ rfl
  exact absurd hrej.1 (by decide)

theorem padded_ofBytes {b : List UInt8} (hlen : b.length = 20) : ofBytes b < 256 ^ 20 ∧ padded (ofBytes b) = b := by
  have hlt : ofBytes b < 256 ^ 20 := hlen ▸ ofBytes_lt b
  refine ⟨hlt, ofBytes_inj ?_ (ofBytes_padded _)⟩
  rw [length_padded hlt, hlen]

theorem sigbuf_buildSig {bytes : List UInt8} {env : SignResults} (hlen : bytes.length = dsaSignatureLen)
    (h : buildSig bytes env = some (some sig)) : sigbuf sig = bytes := by
  obtain ⟨hr, htake⟩ := padded_ofBytes (b := bytes.take 20) (by rw [List.length_take, hlen]; rfl)
  obtain ⟨hs, hdrop⟩ := padded_ofBytes (b := bytes.drop 20) (by rw [List.length_drop, hlen]; rfl)
  unfold buildSig at h
  split at h
  · cases h
  split at h
  · cases h
  · cases h
    refine Eq.trans (sigbuf_eq ?_ ?_) ((congrArg₂ (· ++ ·) htake hdrop).trans (List.take_append_drop 20 bytes))
    · exact hr
    · exact hs

/-- The signature that a token has made is handed to C_Verify as C_Sign has stored it. -/
theorem signature_returned {dgst' d bytes : List UInt8} {dsa' : Dsa} {senv : SignResults} {venv : VerifyResults}
    {ret : Int} {calls : List Call} {rv : Rv} (hlen : senv.signature.length = dsaSignatureLen)
    (hcall : Call.sign dgst ckrOk ∈ (pk11DsaDoSign dgst dsa senv).2)
    (hsig : (pk11DsaDoSign dgst dsa senv).1 = some (some sig)) (hq : dsa'.q = some q)
    (h : pk11DsaDoVerify dgst' sig dsa' venv = some (ret, calls)) (hmem : Call.verify d bytes rv ∈ calls) :
    bytes = senv.signature := by
  obtain ⟨hstart, -, sp, hsp, hops⟩ := sign_cases (hsig ▸ Option.some_ne_none _)
  have hkey : CacheHit sp.priv dsa.addr dsa.privKey ∨ KeyFound dsa.privKey senv.key := by
    by_contra hkey
    exact sign_keyless hstart hsp hkey hcall
  have hstored : writeAt 0 senv.signature (List.replicate dsaSignatureLen 0) = senv.signature := by
    have hwrite := writeAt_of_nonneg 0 senv.signature (List.replicate dsaSignatureLen 0) (by simp [hlen])
    simpa [hlen] using hwrite
  rw [sign_keyed hstart hsp hkey (hops hkey).1 (hops hkey).2, hstored] at hsig
  rw [verify_encoded hq h hmem, sigbuf_buildSig hlen hsig]

theorem signature_returned_short : sigbuf ⟨3, 5⟩ = lowBytes 20 3 ++ lowBytes 20 5 := by
  have hsig : (pk11DsaDoSign [1] ⟨1, some 23, some 11, some 4, some 8, some 7⟩
      { signature := lowBytes 20 3 ++ lowBytes 20 5 }).1 = some (some ⟨3, 5⟩) := rfl
  exact signature_returned rfl (by decide) hsig rfl
    (rfl : pk11DsaDoVerify [1] ⟨3, 5⟩ ⟨1, some 23, some 11, some 4, some 8, some 7⟩ {} = _)
    (List.mem_append_right _ (List.mem_cons_of_mem _ (List.mem_singleton_self _)))

end OiUserland.Pkcs11.DsaEncoding
