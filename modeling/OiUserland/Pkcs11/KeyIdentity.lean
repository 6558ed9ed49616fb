import OiUserland.Pkcs11.EngineInvariants

namespace OiUserland.Pkcs11.KeyIdentity

open Lib.Runs Types Process Sessions SessionSteps QuietGet SymmetricCiphers CipherSteps Contexts
  EngineInvariants

variable {e e' : Engine} {t : Pk11OpType} {r sp a : Addr} {s s' : Pk11Session} {key : List UInt8}

def Records (c : CipherData) (value : List UInt8) : Prop :=
  c.keyLen = min value.length pk11KeyLenMax ∧ c.key.take c.keyLen = value.take c.keyLen

structure KeysRecorded (e : Engine) : Prop extends OneProcess e where
  buffer : ∀ a s, e.session? a = some s → s.cipher.key.length = pk11KeyLenMax
  records : ∀ a s o, e.session? a = some s → s.cipher.cipherKey ≠ ckInvalidHandle →
    e.objects s.cipher.cipherKey = some o → o.creator = a → Records s.cipher o.value

theorem recordKey_length (c : CipherData) (hc : c.key.length = pk11KeyLenMax) (key : List UInt8) :
    (recordKey c key).key.length = pk11KeyLenMax := by
  simp only [recordKey, List.length_append, List.length_take, List.length_drop, hc]
  split <;> omega

theorem recordKey_records (c : CipherData) (key : List UInt8) : Records (recordKey c key) key := by
  have hmin : (if key.length > pk11KeyLenMax then pk11KeyLenMax else key.length) = min key.length pk11KeyLenMax := by
    split <;> omega
  simp only [Records, recordKey, hmin, true_and]
  rw [List.take_append_of_le_length (by simp), List.take_take, Nat.min_self]

theorem Records.eq_of_sameKey {c : CipherData} {value : List UInt8} (h : Records c value)
    (hfit : value.length ≤ pk11KeyLenMax) (hsame : SameKey c key) : value = key := by
  have hlen : c.keyLen = value.length := by rw [h.1, Nat.min_eq_left hfit]
  have htake := h.2
  rw [hlen, List.take_length] at htake
  rw [← htake, ← hsame.2, ← hsame.1, hlen]

theorem readySession_buffer (t : Pk11OpType) (h : Handle) (pid : Nat) :
    (readySession t {} h pid).cipher.key.length = pk11KeyLenMax := by
  cases t <;> rfl

theorem KeysRecorded.after_get {env : GetResults} (hinv : KeysRecorded e)
    (h : pk11GetSession e t env = some (e', r)) : KeysRecorded e' := by
  obtain ⟨hframe, hquiet⟩ := hinv.toOneProcess.get h
  refine ⟨hinv.toOneProcess.after_get h, fun a s hs => ?_, fun a s o hs hkey hobj hcreator => ?_⟩
  · cases hquiet with
    | nothing hmem _ => exact hinv.buffer a s ((hmem a).symm.trans hs)
    | reused hhead hs₀ hhere hothers =>
        by_cases ha : a = e.sessionCache t
        · subst ha
          obtain rfl := Option.some.inj (hhere.symm.trans hs)
          have hbuffer := hinv.buffer _ _ hs₀
          exact hbuffer
        · exact hinv.buffer a s ((hothers a ha).symm.trans hs)
    | new haddr hfresh hhere hothers =>
        by_cases ha : a = env.addr
        · subst ha
          obtain rfl := Option.some.inj (hhere.symm.trans hs)
          exact readySession_buffer ..
        · exact hinv.buffer a s ((hothers a ha).symm.trans hs)
  · have hobj' : e.objects s.cipher.cipherKey = some o := by
      rcases hframe.objects with heq | heq
      · rw [← heq, hobj]
      · rw [heq] at hobj
        cases hobj
    cases hquiet with
    | nothing hmem _ => exact hinv.records a s o ((hmem a).symm.trans hs) hkey hobj' hcreator
    | reused hhead hs₀ hhere hothers =>
        by_cases ha : a = e.sessionCache t
        · subst ha
          obtain rfl := Option.some.inj (hhere.symm.trans hs)
          have hrecords := hinv.records _ _ o hs₀ hkey hobj' hcreator
          exact hrecords
        · exact hinv.records a s o ((hothers a ha).symm.trans hs) hkey hobj' hcreator
    | new haddr hfresh hhere hothers =>
        by_cases ha : a = env.addr
        · subst ha
          obtain rfl := Option.some.inj (hhere.symm.trans hs)
          exact absurd (readySession_new ..) hkey
        · exact hinv.records a s o ((hothers a ha).symm.trans hs) hkey hobj' hcreator

theorem KeysRecorded.congr (hinv : KeysRecorded e) (hmem : ∀ a, e'.session? a = e.session? a)
    (hobjects : e'.objects = e.objects) (hpid : e'.pid = e.pid) (hself : e'.self = e.self) : KeysRecorded e' where
  self := by rw [hself]; exact hinv.self
  pid := by rw [hpid, hself]; exact hinv.pid
  sessions := fun a s hs => by rw [hself]; exact hinv.sessions a s ((hmem a).symm.trans hs)
  buffer := fun a s hs => hinv.buffer a s ((hmem a).symm.trans hs)
  records := fun a s o hs hkey hobj => hinv.records a s o ((hmem a).symm.trans hs) hkey (by rw [← hobjects, hobj])

theorem KeysRecorded.store (hinv : KeysRecorded e) (hs : e.session? a = some s) (hpid : s'.pid = s.pid)
    (hbuffer : s'.cipher.key.length = pk11KeyLenMax)
    (hrecords : ∀ o, s'.cipher.cipherKey ≠ ckInvalidHandle → e.objects s'.cipher.cipherKey = some o →
      o.creator = a → Records s'.cipher o.value) : KeysRecorded (e.store a s') := by
  refine ⟨hinv.toOneProcess.store hs hpid, fun b u hu => ?_, fun b u o hu hkey hobj hcreator => ?_⟩
  · by_cases hb : b = a
    · subst hb
      obtain rfl := Option.some.inj ((session?_store _ _ _).symm.trans hu)
      exact hbuffer
    · exact hinv.buffer b u ((session?_store_ne hb).symm.trans hu)
  · by_cases hb : b = a
    · subst hb
      obtain rfl := Option.some.inj ((session?_store _ _ _).symm.trans hu)
      exact hrecords o hkey hobj hcreator
    · exact hinv.records b u o ((session?_store_ne hb).symm.trans hu) hkey hobj hcreator

theorem KeysRecorded.store_same (hinv : KeysRecorded e) (hs : e.session? a = some s) (hpid : s'.pid = s.pid)
    (hkey : s'.cipher.key = s.cipher.key) (hlen : s'.cipher.keyLen = s.cipher.keyLen)
    (hhandle : s'.cipher.cipherKey = s.cipher.cipherKey) : KeysRecorded (e.store a s') := by
  refine hinv.store hs hpid (by rw [hkey]; exact hinv.buffer a s hs) fun o hne hobj hcreator => ?_
  rw [hhandle] at hne hobj
  have := hinv.records a s o hs hne hobj hcreator
  rwa [Records, hkey, hlen]

theorem KeysRecorded.after_return (hinv : KeysRecorded e) (h : pk11ReturnSession e sp t = some e') :
    KeysRecorded e' := by
  rcases pk11ReturnSession_cases h with rfl | ⟨-, s, hs, -, hput⟩
  · exact hinv
  · have hstored : KeysRecorded (e.store sp { s with next := e.sessionCache t }) :=
      hinv.store_same hs rfl rfl rfl rfl
    refine hstored.congr (fun a => ?_) hput.objects hput.pid hput.self
    by_cases ha : a = sp
    · subst ha
      rw [hput.here, session?_store]
    · rw [hput.others a ha, session?_store_ne ha]

theorem KeysRecorded.forget (hinv : KeysRecorded e) (h : Handle) :
    KeysRecorded (e.setObject h none) := by
  refine ⟨⟨hinv.self, hinv.pid, hinv.sessions⟩, hinv.buffer, fun a s o hs hkey hobj => ?_⟩
  refine hinv.records a s o hs hkey ?_
  by_cases hh : s.cipher.cipherKey = h
  · rw [hh, setObject_same] at hobj
    cases hobj
  · rwa [setObject_ne hh] at hobj

theorem KeysRecorded.after_check {destroy : Rv} (hinv : KeysRecorded e) (hs : e.session? sp = some s)
    (h : checkNewCipherKey e sp key destroy = some e') : KeysRecorded e' := by
  rcases checkNewCipherKey_cases h hs with ⟨-, rfl⟩ | ⟨-, ⟨-, rfl⟩ | ⟨-, -, rfl⟩ | ⟨-, -, rfl⟩⟩
  · exact hinv
  · exact hinv
  · exact hinv
  · exact (hinv.forget _).store (s := s) hs rfl (hinv.buffer sp s hs) fun _ hne _ _ => absurd rfl hne

theorem KeysRecorded.after_create {keyType : KeyType} {c : CreateResult} (hinv : KeysRecorded e)
    (h : pk11GetCipherKey e sp key keyType c = some e') : KeysRecorded e' := by
  obtain ⟨s, hs, h⟩ := Option.map_eq_some_iff.mp h
  have hbuffer := recordKey_length s.cipher (hinv.buffer sp s hs) key
  split at h
  · subst h
    exact hinv.store hs rfl (hinv.buffer sp s hs) fun _ hne _ _ => absurd rfl hne
  · subst h
    refine ⟨?_, fun b u hu => ?_, fun b u o hu hkey hobj hcreator => ?_⟩
    · have hone : OneProcess (e.setObject c.handle (some ⟨keyType, key, sp⟩)) := ⟨hinv.self, hinv.pid, hinv.sessions⟩
      exact hone.store hs rfl
    · by_cases hb : b = sp
      · subst hb
        obtain rfl := Option.some.inj ((session?_store _ _ _).symm.trans hu)
        exact hbuffer
      · exact hinv.buffer b u ((session?_store_ne hb).symm.trans hu)
    · by_cases hb : b = sp
      · subst hb
        obtain rfl := Option.some.inj ((session?_store _ _ _).symm.trans hu)
        obtain rfl := Option.some.inj ((setObject_same _ _ _).symm.trans hobj)
        exact recordKey_records s.cipher key
      · have hu : e.session? b = some u := (session?_store_ne hb).symm.trans hu
        by_cases hh : u.cipher.cipherKey = c.handle
        · rw [hh] at hobj
          obtain rfl := Option.some.inj ((setObject_same _ _ _).symm.trans hobj)
          exact absurd hcreator.symm hb
        · exact hinv.records b u o hu hkey ((setObject_ne hh).symm.trans hobj) hcreator

theorem KeysRecorded.after_final {close : Rv} {reopen : OpenResult} {ok : Bool} (hinv : KeysRecorded e)
    (h : pk11CipherFinal e sp close reopen = some (e', ok)) : KeysRecorded e' := by
  obtain ⟨s, hs, ⟨-, -, rfl⟩ | ⟨-, -, -, rfl⟩ | ⟨-, -, -, rfl⟩⟩ := pk11CipherFinal_cases h
  · exact hinv
  · exact hinv.congr (fun _ => rfl) rfl rfl rfl
  · have hstored : KeysRecorded (e.store sp { s with session := reopen.handle }) :=
      hinv.store_same hs rfl rfl rfl rfl
    exact hstored.congr (fun _ => rfl) rfl rfl rfl

theorem keysRecorded_stable : Stable KeysRecorded where
  get := fun _ _ _ _ _ hinv h => hinv.after_get h
  giveBack := fun _ _ _ _ hinv h => hinv.after_return h
  check := fun _ _ _ _ _ hinv h => by
    obtain ⟨s, hs, -⟩ := Option.map_eq_some_iff.mp h
    exact hinv.after_check hs h
  create := fun _ _ _ _ _ _ hinv h => hinv.after_create h
  final := fun _ _ _ _ _ _ hinv h => hinv.after_final h
  encrypt := fun _ _ _ _ hinv hs => hinv.store_same hs rfl rfl rfl rfl

def Keyed (e : Engine) (sp : Addr) (keyType : KeyType) (key : List UInt8) : Prop :=
  ∀ s, e.session? sp = some s → s.cipher.cipherKey ≠ ckInvalidHandle →
    ∃ o, e.objects s.cipher.cipherKey = some o ∧ o.keyType = keyType ∧ o.value = key

theorem Keyed.store {keyType : KeyType} (hkeyed : Keyed e sp keyType key) (hs : e.session? sp = some s)
    (hhandle : s'.cipher.cipherKey = s.cipher.cipherKey) : Keyed (e.store sp s') sp keyType key := by
  intro u hu hne
  obtain rfl := Option.some.inj ((session?_store _ _ _).symm.trans hu)
  rw [hhandle] at hne ⊢
  exact hkeyed s hs hne

/-- What pk11_cipher_init finds cached: an object of the session whose recorded
key compares equal has the type that is asked for now and a key that the session
could record in full, and one that has to go is destroyed. -/
def CachedFits (e : Engine) (sp : Addr) (keyType : KeyType) (key : List UInt8) (destroy : Rv) : Prop :=
  ∀ s ∈ e.session? sp, s.cipher.cipherKey ≠ ckInvalidHandle →
    if SameKey s.cipher key then
      ∃ o ∈ e.objects s.cipher.cipherKey, o.creator = sp ∧ o.keyType = keyType ∧ o.value.length ≤ pk11KeyLenMax
    else destroy = ckrOk

instance (e : Engine) (sp : Addr) (keyType : KeyType) (key : List UInt8) (destroy : Rv) :
    Decidable (CachedFits e sp keyType key destroy) := by
  unfold CachedFits
  infer_instance

theorem keyed_of_check {keyType : KeyType} {destroy : Rv} (hinv : KeysRecorded e)
    (hfits : CachedFits e sp keyType key destroy) (h : checkNewCipherKey e sp key destroy = some e') :
    Keyed e' sp keyType key := by
  obtain ⟨s, hs, -⟩ := Option.map_eq_some_iff.mp h
  intro u hu hne
  rcases checkNewCipherKey_cases h hs with ⟨hsame, rfl⟩ | ⟨hdiff, ⟨hnone, rfl⟩ | ⟨hkey, hrv, rfl⟩ | ⟨-, -, rfl⟩⟩
  · obtain rfl := Option.some.inj (hs.symm.trans hu)
    have hfit := hfits s hs hne
    rw [if_pos hsame] at hfit
    obtain ⟨o, ho, hcreator, htype, hlen⟩ := hfit
    exact ⟨o, ho, htype, (hinv.records sp s o hs hne ho hcreator).eq_of_sameKey hlen hsame⟩
  · obtain rfl := Option.some.inj (hs.symm.trans hu)
    exact absurd hnone hne
  · have hfit := hfits s hs hkey
    rw [if_neg hdiff] at hfit
    exact absurd hfit hrv
  · obtain rfl := Option.some.inj ((session?_store _ _ _).symm.trans hu)
    exact absurd rfl hne

theorem Keyed.after_create {row : Pk11Cipher} {c : CreateResult} (hkeyed : Keyed e sp row.keyType key)
    (h : makeKey e sp key row c = some e') : Keyed e' sp row.keyType key := by
  obtain ⟨s, hs, ⟨-, hcreate⟩ | ⟨-, rfl⟩⟩ := makeKey_cases h
  · obtain ⟨s', hs', hcreate⟩ := Option.map_eq_some_iff.mp hcreate
    obtain rfl := Option.some.inj (hs.symm.trans hs')
    intro u hu hne
    split at hcreate
    · subst hcreate
      obtain rfl := Option.some.inj ((session?_store _ _ _).symm.trans hu)
      exact absurd rfl hne
    · subst hcreate
      obtain rfl := Option.some.inj ((session?_store _ _ _).symm.trans hu)
      exact ⟨_, setObject_same _ _ _, rfl, rfl⟩
  · exact hkeyed

theorem Keyed.after_final {keyType : KeyType} {env : CipherInitResults} {ctx : CipherCtx} {ok : Bool}
    (hkeyed : Keyed e sp keyType key) (h : terminatePrevious e ctx sp env = some (e', ok)) :
    Keyed e' sp keyType key := by
  obtain ⟨u, -, ⟨-, -, hfinal⟩ | ⟨-, rfl⟩⟩ := terminatePrevious_cases h
  · obtain ⟨s, hs, ⟨-, -, rfl⟩ | ⟨-, -, -, rfl⟩ | ⟨-, -, -, rfl⟩⟩ := pk11CipherFinal_cases hfinal
    · exact hkeyed
    · exact hkeyed
    · exact (hkeyed : Keyed { e with opened := _ } sp keyType key).store hs rfl
  · exact hkeyed

def UsesKey (e : Engine) (ctx : CipherCtx) (keyType : KeyType) (key : List UInt8) : Prop :=
  ∃ s o, e.session? ctx.sp = some s ∧ e.objects s.cipher.cipherKey = some o ∧ o.keyType = keyType ∧ o.value = key

theorem usesKey_of_initWithSession {ctx ctx' : CipherCtx} {row : Pk11Cipher} {env : CipherInitResults}
    (hinv : KeysRecorded e) (hfits : CachedFits e sp row.keyType key env.destroy)
    (h : initWithSession e ctx sp key row env = some (e', ctx', true)) : UsesKey e' ctx' row.keyType key := by
  obtain ⟨e₁, s, hcheck, hs, ⟨hne, -, rfl, hsym⟩ | hkey⟩ := initWithSession_cases h
  · have hkeyed := keyed_of_check hinv hfits hcheck
    rcases pk11InitSymmetric_cases hsym with ⟨-, -, rfl⟩ | ⟨-, hno, -⟩
    · obtain ⟨o, ho, htype, hvalue⟩ := hkeyed s hs hne
      exact ⟨s, o, hs, ho, htype, hvalue⟩
    · cases hno
  · obtain ⟨e₂, e₃, ok, hmade, hended, ⟨-, -, hno⟩ | ⟨-, -, rfl, u, hu, hne, rfl⟩⟩ := initWithKey_cases hkey
    · cases hno
    · have hkeyed := ((keyed_of_check hinv hfits hcheck).after_create hmade).after_final hended
      obtain ⟨o, ho, htype, hvalue⟩ := hkeyed u hu hne
      exact ⟨_, o, session?_store _ _ _, ho, htype, hvalue⟩

theorem cachedFits_of_get {ctx : CipherCtx} {e₁ : Engine} {env : GetResults} {keyType : KeyType} {destroy : Rv}
    (hinv : KeysRecorded e) (hfits : CachedFits e (nextSession e ctx) keyType key destroy)
    (hret : pk11ReturnSession e ctx.sp .cipher = some e₁) (hget : pk11GetSession e₁ .cipher env = some (e', sp))
    (hsp : sp ≠ 0) : CachedFits e' sp keyType key destroy := by
  intro s hs hne
  rcases cipher_of_get hinv.toOneProcess hret hget hsp hs with hnone | ⟨rfl, hobjects, u, hu, hcipher⟩
  · exact absurd hnone hne
  · have hfit := hfits u hu (by rw [hcipher]; exact hne)
    rw [hcipher] at hfit
    rw [hobjects]
    exact hfit

theorem usesKey_of_init {ctx ctx' : CipherCtx} {env : CipherInitResults} (hinv : KeysRecorded e)
    (hfits : ∀ row, cipherRow ctx = some row → CachedFits e (nextSession e ctx) row.keyType key env.destroy)
    (h : pk11CipherInit e ctx key env = some (e', ctx', true)) :
    ∃ row, cipherRow ctx = some row ∧ UsesKey e' ctx' row.keyType key := by
  obtain ⟨e₁, hret, ⟨-, -, hno⟩ | ⟨row, e₂, sp, hrow, hget, ⟨-, -, -, hno⟩ | ⟨hsp, hinit⟩⟩⟩ := pk11CipherInit_cases h
  · cases hno
  · cases hno
  · have hcached := cachedFits_of_get hinv (hfits row hrow) hret hget hsp
    exact ⟨row, hrow, usesKey_of_initWithSession ((hinv.after_return hret).after_get hget) hcached hinit⟩

/-- The calls of a process that does not fork, in which pk11_cipher_init finds
cached what its comparison takes it for. -/
def ReusesRightly (o : Op) (w : World) : Prop :=
  match o with
  | .fork _ => False
  | .cipherInit c q key env =>
      ∀ row ∈ cipherRow (q.ctx key (w.ciphers c)),
        CachedFits w.eng (nextSession w.eng (w.ciphers c)) row.keyType key env.destroy
  | _ => True

theorem started_keysRecorded {w : World} (h : Started w) : KeysRecorded w.eng where
  self := h.self
  pid := .inl h.pid
  sessions := fun a s hs => by
    rw [h.heap] at hs
    cases hs
  buffer := fun a s hs => by
    rw [h.heap] at hs
    cases hs
  records := fun a s o hs => by
    rw [h.heap] at hs
    cases hs

/-- In every such run pk11_cipher_init, when it succeeds, uses a key object of the
type of the cipher that was asked for and of the complete key. -/
theorem reachable_usesKey {w : World} {c : Nat} {q : CipherRequest} {env : CipherInitResults} {ctx' : CipherCtx}
    (hw : Reachable step ReusesRightly Started w) (hok : ReusesRightly (.cipherInit c q key env) w)
    (h : pk11CipherInit w.eng (q.ctx key (w.ciphers c)) key env = some (e', ctx', true)) :
    ∃ row, cipherRow (q.ctx key (w.ciphers c)) = some row ∧ UsesKey e' ctx' row.keyType key := by
  have hnofork : Reachable step NoFork Started w := hw.mono fun o v ho child hc => by
    subst hc
    exact ho
  exact usesKey_of_init (keysRecorded_stable.reachable (fun _ => started_keysRecorded) hnofork) hok h

/-- A key is used, and the next initialization finds it cached. -/
theorem reachable_usesKey_cached :
    ∃ e ctx row, UsesKey e ctx row.keyType (List.replicate 16 7) ∧ ctx.sp = 1 ∧ row ∈ ciphers ∧ row.keyType = .aes := by
  have h₁ : Reachable step ReusesRightly Started _ :=
    .next (.cipherInit 0 { nid := .aes128Cbc } (List.replicate 16 7) {}) (.start started_default)
      (fun _ _ _ hs => nomatch hs) rfl
  have h₂ : Reachable step ReusesRightly Started _ := .next (.cipherCleanup 0 ckrOk) h₁ trivial rfl
  have huse := fun hok => @reachable_usesKey _ (List.replicate 16 7) _ 1 { nid := .aes128Cbc } {} _ h₂ hok rfl
  obtain ⟨row, hrow, huses⟩ := huse (by unfold ReusesRightly; decide +kernel)
  obtain rfl := Option.some.inj hrow
  exact ⟨_, _, _, huses, rfl, by decide, rfl⟩

/-- A Blowfish key is taken for the AES key of the same bytes, which the session
has cached. -/
theorem reachable_wrongKey : ∃ (w : World) (e' : Engine) (ctx' : CipherCtx),
    Reachable step NoFork Started w ∧
      pk11CipherInit w.eng (CipherRequest.ctx { nid := .bfCbc } (List.replicate 16 7) (w.ciphers 0))
        (List.replicate 16 7) {} = some (e', ctx', true) ∧
      ¬ ∃ row, cipherRow (CipherRequest.ctx { nid := .bfCbc } (List.replicate 16 7) (w.ciphers 0)) = some row ∧
        UsesKey e' ctx' row.keyType (List.replicate 16 7) := by
  have h₁ : Reachable step NoFork Started _ :=
    .next (.cipherInit 0 { nid := .aes128Cbc } (List.replicate 16 7) {}) (.start started_default)
      (by simp [NoFork]) rfl
  have h₂ : Reachable step NoFork Started _ := .next (.cipherCleanup 0 ckrOk) h₁ (by simp [NoFork]) rfl
  refine ⟨_, _, _, h₂, rfl, ?_⟩
  rintro ⟨row, hrow, s, o, hs, ho, htype, -⟩
  obtain rfl := Option.some.inj hrow
  obtain rfl := Option.some.inj hs
  obtain rfl := Option.some.inj ho
  cases htype

end OiUserland.Pkcs11.KeyIdentity
