import OiUserland.Pkcs11.SessionSteps
import OiUserland.Pkcs11.SymmetricCiphers

namespace OiUserland.Pkcs11.CipherSteps

open Types Process Sessions SymmetricCiphers

variable {e e' : Engine} {sp : Addr} {s : Pk11Session} {key : List UInt8} {ctx ctx' : CipherCtx} {ret : Bool}

theorem checkNewCipherKey_cases {destroy : Rv} (h : checkNewCipherKey e sp key destroy = some e')
    (hs : e.session? sp = some s) :
    (SameKey s.cipher key ∧ e' = e) ∨
      (¬ SameKey s.cipher key ∧
        ((s.cipher.cipherKey = ckInvalidHandle ∧ e' = e) ∨
          (s.cipher.cipherKey ≠ ckInvalidHandle ∧ destroy ≠ ckrOk ∧ e' = e) ∨
          (s.cipher.cipherKey ≠ ckInvalidHandle ∧ destroy = ckrOk ∧
            e' = (e.setObject s.cipher.cipherKey none).store sp
              { s with cipher := { s.cipher with cipherKey := ckInvalidHandle } }))) := by
  rw [checkNewCipherKey, hs, Option.map_some] at h
  have h := Option.some.inj h
  by_cases hsame : SameKey s.cipher key
  · rw [if_pos hsame] at h
    exact .inl ⟨hsame, h.symm⟩
  · rw [if_neg hsame, pk11DestroyCipherKeyObjects] at h
    refine .inr ⟨hsame, ?_⟩
    by_cases hkey : s.cipher.cipherKey = ckInvalidHandle
    · rw [if_pos hkey] at h
      exact .inl ⟨hkey, h.symm⟩
    · rw [if_neg hkey] at h
      by_cases hrv : destroy = ckrOk
      · rw [if_neg (not_not.mpr hrv)] at h
        exact .inr (.inr ⟨hkey, hrv, h.symm⟩)
      · rw [if_pos hrv] at h
        exact .inr (.inl ⟨hkey, hrv, h.symm⟩)

theorem pk11CipherFinal_cases {close : Rv} {reopen : OpenResult} {ok : Bool}
    (h : pk11CipherFinal e sp close reopen = some (e', ok)) :
    ∃ s, e.session? sp = some s ∧
      ((close ≠ ckrOk ∧ ok = false ∧ e' = e) ∨
        (close = ckrOk ∧ reopen.rv ≠ ckrOk ∧ ok = false ∧ e' = { e with opened := e.opened.erase s.session }) ∨
        (close = ckrOk ∧ reopen.rv = ckrOk ∧ ok = true ∧
          e' = ({ e with opened := reopen.handle :: e.opened.erase s.session }).store sp
            { s with session := reopen.handle })) := by
  obtain ⟨s, hs, h⟩ := Option.map_eq_some_iff.mp h
  refine ⟨s, hs, ?_⟩
  by_cases hclose : close = ckrOk
  · have hstep : cCloseSession e s.session close = { e with opened := e.opened.erase s.session } := if_pos hclose
    simp only [hstep] at h
    rw [if_neg (not_not.mpr hclose)] at h
    by_cases hopen : reopen.rv = ckrOk
    · rw [if_neg (not_not.mpr hopen), cOpenSession, if_pos hopen] at h
      cases h
      exact .inr (.inr ⟨hclose, hopen, rfl, rfl⟩)
    · rw [if_pos hopen, cOpenSession, if_neg hopen] at h
      cases h
      exact .inr (.inl ⟨hclose, hopen, rfl, rfl⟩)
  · have hstep : cCloseSession e s.session close = e := if_neg hclose
    simp only [hstep] at h
    rw [if_pos hclose] at h
    cases h
    exact .inl ⟨hclose, rfl, rfl⟩

theorem pk11InitSymmetric_cases {rv : Rv} {ok : Bool} (h : pk11InitSymmetric e sp rv = some (e', ok)) :
    (rv = ckrOk ∧ ok = true ∧ e' = e) ∨ (rv ≠ ckrOk ∧ ok = false ∧ pk11ReturnSession e sp .cipher = some e') := by
  rw [pk11InitSymmetric] at h
  by_cases hrv : rv = ckrOk
  · rw [if_neg (not_not.mpr hrv)] at h
    cases h
    exact .inl ⟨hrv, rfl, rfl⟩
  · rw [if_pos hrv] at h
    obtain ⟨e₁, hret, h⟩ := Option.map_eq_some_iff.mp h
    cases h
    exact .inr ⟨hrv, rfl, hret⟩

theorem pk11CipherCleanup_cases {final : Rv} (h : pk11CipherCleanup e ctx final = some (e', ctx', ret)) :
    (ctx.sp = 0 ∧ e' = e ∧ ctx' = ctx ∧ ret = true) ∨
      (ctx.sp ≠ 0 ∧ pk11ReturnSession e ctx.sp .cipher = some e' ∧
        ((final = ckrOk ∧ ctx' = { ctx with sp := 0 } ∧ ret = true) ∨
          (final ≠ ckrOk ∧ ctx' = ctx ∧ ret = false))) := by
  rw [pk11CipherCleanup] at h
  by_cases hsp : ctx.sp = 0
  · rw [if_pos hsp] at h
    cases h
    exact .inl ⟨hsp, rfl, rfl, rfl⟩
  · rw [if_neg hsp] at h
    obtain ⟨s, -, h⟩ := Option.bind_eq_some_iff.mp h
    obtain ⟨e₁, hret, h⟩ := Option.map_eq_some_iff.mp h
    by_cases hfinal : final = ckrOk
    · rw [if_neg (not_not.mpr hfinal)] at h
      cases h
      exact .inr ⟨hsp, hret, .inl ⟨hfinal, rfl, rfl⟩⟩
    · rw [if_pos hfinal] at h
      cases h
      exact .inr ⟨hsp, hret, .inr ⟨hfinal, rfl, rfl⟩⟩

theorem makeKey_cases {row : Pk11Cipher} {r : CreateResult} (h : makeKey e sp key row r = some e') :
    ∃ s, e.session? sp = some s ∧
      ((s.cipher.cipherKey = ckInvalidHandle ∧ pk11GetCipherKey e sp key row.keyType r = some e') ∨
        (s.cipher.cipherKey ≠ ckInvalidHandle ∧ e' = e)) := by
  obtain ⟨s, hs, h⟩ := Option.bind_eq_some_iff.mp h
  refine ⟨s, hs, ?_⟩
  by_cases hkey : s.cipher.cipherKey = ckInvalidHandle
  · rw [if_pos hkey] at h
    exact .inl ⟨hkey, h⟩
  · rw [if_neg hkey] at h
    exact .inr ⟨hkey, (Option.some.inj h).symm⟩

theorem terminatePrevious_cases {env : CipherInitResults} {ok : Bool}
    (h : terminatePrevious e ctx sp env = some (e', ok)) :
    ∃ s, e.session? sp = some s ∧
      ((s.cipher.encrypt ≠ ctx.encrypt ∧ s.cipher.encrypt ≠ -1 ∧
          pk11CipherFinal e sp env.close env.reopen = some (e', ok)) ∨
        (ok = true ∧ e' = e)) := by
  obtain ⟨s, hs, h⟩ := Option.bind_eq_some_iff.mp h
  refine ⟨s, hs, ?_⟩
  split at h
  · rename_i henc
    exact .inl ⟨henc.1, henc.2, h⟩
  · cases h
    exact .inr ⟨rfl, rfl⟩

theorem initContext_cases {env : CipherInitResults} (h : initContext e ctx sp env = some (e', ctx', ret)) :
    (pk11ReturnSession e sp .cipher = some e' ∧ ctx' = ctx ∧ ret = false) ∨
      (ret = true ∧ ctx' = { ctx with sp := sp } ∧
        ∃ s, e.session? sp = some s ∧ s.cipher.cipherKey ≠ ckInvalidHandle ∧
          e' = e.store sp { s with cipher := { s.cipher with encrypt := ctx.encrypt } }) := by
  obtain ⟨s, hs, h⟩ := Option.bind_eq_some_iff.mp h
  by_cases hkey : s.cipher.cipherKey = ckInvalidHandle
  · rw [if_pos hkey] at h
    obtain ⟨e₁, hret, h⟩ := Option.map_eq_some_iff.mp h
    cases h
    exact .inl ⟨hret, rfl, rfl⟩
  · rw [if_neg hkey] at h
    obtain ⟨⟨e₁, ok⟩, hinit, hdone⟩ := Option.map_eq_some_iff.mp h
    rcases pk11InitSymmetric_cases hinit with ⟨-, rfl, rfl⟩ | ⟨-, rfl, hret⟩
    · cases hdone
      exact .inr ⟨rfl, rfl, s, hs, hkey, rfl⟩
    · cases hdone
      exact .inl ⟨hret, rfl, rfl⟩

/-- pk11_cipher_init without a key for the same operation gives the session back
when it fails. -/
theorem initWithKey_cases {row : Pk11Cipher} {env : CipherInitResults}
    (h : initWithKey e ctx sp key row env = some (e', ctx', ret)) :
    ∃ e₁ e₂ ok, makeKey e sp key row env.create = some e₁ ∧ terminatePrevious e₁ ctx sp env = some (e₂, ok) ∧
      ((pk11ReturnSession e₂ sp .cipher = some e' ∧ ctx' = ctx ∧ ret = false) ∨
        (ok = true ∧ ret = true ∧ ctx' = { ctx with sp := sp } ∧
          ∃ s, e₂.session? sp = some s ∧ s.cipher.cipherKey ≠ ckInvalidHandle ∧
            e' = e₂.store sp { s with cipher := { s.cipher with encrypt := ctx.encrypt } })) := by
  obtain ⟨e₁, hmade, h⟩ := Option.bind_eq_some_iff.mp h
  obtain ⟨⟨e₂, ok⟩, hended, h⟩ := Option.bind_eq_some_iff.mp h
  refine ⟨e₁, e₂, ok, hmade, hended, ?_⟩
  cases ok
  · obtain ⟨e₃, hret, h⟩ := Option.map_eq_some_iff.mp h
    cases h
    exact .inl ⟨hret, rfl, rfl⟩
  · rcases initContext_cases h with hback | ⟨hok, hctx, hdone⟩
    · exact .inl hback
    · exact .inr ⟨rfl, hok, hctx, hdone⟩

/-- pk11_cipher_init with the session that it got: a cached key is used as it is,
or else the longer way is taken. -/
theorem initWithSession_cases {row : Pk11Cipher} {env : CipherInitResults}
    (h : initWithSession e ctx sp key row env = some (e', ctx', ret)) :
    ∃ e₁ s, checkNewCipherKey e sp key env.destroy = some e₁ ∧ e₁.session? sp = some s ∧
      ((s.cipher.cipherKey ≠ ckInvalidHandle ∧ s.cipher.encrypt = ctx.encrypt ∧ ctx' = { ctx with sp := sp } ∧
          pk11InitSymmetric e₁ sp env.init = some (e', ret)) ∨
        initWithKey e₁ ctx sp key row env = some (e', ctx', ret)) := by
  simp only [initWithSession, Option.bind_eq_bind] at h
  obtain ⟨e₁, hcheck, h⟩ := Option.bind_eq_some_iff.mp h
  obtain ⟨s, hs, h⟩ := Option.bind_eq_some_iff.mp h
  refine ⟨e₁, s, hcheck, hs, ?_⟩
  split at h
  · rename_i hhit
    obtain ⟨⟨e₂, ok⟩, hinit, h⟩ := Option.bind_eq_some_iff.mp h
    cases h
    exact .inl ⟨hhit.1, hhit.2, rfl, hinit⟩
  · exact .inr h

/-- pk11_cipher_init gives back the session of its context before it gets one. -/
theorem pk11CipherInit_cases {env : CipherInitResults} (h : pk11CipherInit e ctx key env = some (e', ctx', ret)) :
    ∃ e₁, pk11ReturnSession e ctx.sp .cipher = some e₁ ∧
      ((e' = e₁ ∧ ctx' = { ctx with sp := 0 } ∧ ret = false) ∨
        ∃ row e₂ sp, cipherRow ctx = some row ∧ pk11GetSession e₁ .cipher env.get = some (e₂, sp) ∧
          ((sp = 0 ∧ e' = e₂ ∧ ctx' = { ctx with sp := 0 } ∧ ret = false) ∨
            (sp ≠ 0 ∧ initWithSession e₂ { ctx with sp := 0 } sp key row env = some (e', ctx', ret)))) := by
  simp only [pk11CipherInit, Option.bind_eq_bind] at h
  obtain ⟨⟨e₁, ctx₁, b⟩, hclean, h⟩ := Option.bind_eq_some_iff.mp h
  have hreturn : pk11ReturnSession e ctx.sp .cipher = some e₁ := by
    rcases pk11CipherCleanup_cases hclean with ⟨hsp, rfl, -⟩ | ⟨-, hret, -⟩
    · rw [pk11ReturnSession, if_pos hsp]
    · exact hret
  have hctx : ({ ctx₁ with sp := 0 } : CipherCtx) = { ctx with sp := 0 } := by
    rcases pk11CipherCleanup_cases hclean with ⟨-, -, rfl, -⟩ | ⟨-, -, ⟨-, rfl, -⟩ | ⟨-, rfl, -⟩⟩ <;> rfl
  have hrow : cipherRow { ctx with sp := 0 } = cipherRow ctx := rfl
  refine ⟨e₁, hreturn, ?_⟩
  simp only [hctx, hrow] at h
  cases hr : cipherRow ctx with
  | none =>
      simp only [hr] at h
      cases h
      exact .inl ⟨rfl, rfl, rfl⟩
  | some row =>
      simp only [hr] at h
      obtain ⟨⟨e₂, sp⟩, hget, h⟩ := Option.bind_eq_some_iff.mp h
      refine .inr ⟨row, e₂, sp, rfl, hget, ?_⟩
      split at h
      · rename_i hsp
        cases h
        exact .inl ⟨hsp, rfl, rfl, rfl⟩
      · rename_i hsp
        exact .inr ⟨hsp, h⟩

/-- What pk11_cipher_init does to the engine while it holds a session, besides
the PKCS#11 sessions and objects. -/
structure Works (e e' : Engine) (sp : Addr) : Prop where
  others : ∀ a, a ≠ sp → e'.session? a = e.session? a
  here : (e'.session? sp).map Pk11Session.pid = (e.session? sp).map Pk11Session.pid
  sessionCache : e'.sessionCache = e.sessionCache
  pid : e'.pid = e.pid
  self : e'.self = e.self

theorem Works.refl (e : Engine) (sp : Addr) : Works e e sp := ⟨fun _ _ => rfl, rfl, rfl, rfl, rfl⟩

theorem Works.trans {e'' : Engine} (h : Works e e' sp) (h' : Works e' e'' sp) : Works e e'' sp where
  others := fun a ha => (h'.others a ha).trans (h.others a ha)
  here := h'.here.trans h.here
  sessionCache := h'.sessionCache.trans h.sessionCache
  pid := h'.pid.trans h.pid
  self := h'.self.trans h.self

theorem works_heap (hheap : e'.heap = e.heap) (hcache : e'.sessionCache = e.sessionCache) (hpid : e'.pid = e.pid)
    (hself : e'.self = e.self) : Works e e' sp := by
  have hmem (a : Addr) : e'.session? a = e.session? a := by rw [Engine.session?, hheap, Engine.session?]
  exact ⟨fun a _ => hmem a, by rw [hmem sp], hcache, hpid, hself⟩

theorem works_store {e₁ : Engine} {s' : Pk11Session} (hs : e.session? sp = some s) (hpid : s'.pid = s.pid)
    (h : Works e e₁ sp) : Works e (e₁.store sp s') sp where
  others := fun a ha => (session?_store_ne ha).trans (h.others a ha)
  here := by rw [session?_store, hs, Option.map_some, Option.map_some, hpid]
  sessionCache := h.sessionCache
  pid := h.pid
  self := h.self

theorem checkNewCipherKey_works {destroy : Rv} (h : checkNewCipherKey e sp key destroy = some e') : Works e e' sp := by
  obtain ⟨s, hs, -⟩ := Option.map_eq_some_iff.mp h
  rcases checkNewCipherKey_cases h hs with ⟨-, rfl⟩ | ⟨-, ⟨-, rfl⟩ | ⟨-, -, rfl⟩ | ⟨-, -, rfl⟩⟩
  · exact .refl _ _
  · exact .refl _ _
  · exact .refl _ _
  · exact works_store hs rfl (works_heap rfl rfl rfl rfl)

theorem pk11GetCipherKey_works {keyType : KeyType} {r : CreateResult}
    (h : pk11GetCipherKey e sp key keyType r = some e') : Works e e' sp := by
  obtain ⟨s, hs, h⟩ := Option.map_eq_some_iff.mp h
  split at h
  · subst h
    exact works_store hs rfl (works_heap rfl rfl rfl rfl)
  · subst h
    exact works_store hs rfl (works_heap rfl rfl rfl rfl)

theorem pk11CipherFinal_works {close : Rv} {reopen : OpenResult} {ok : Bool}
    (h : pk11CipherFinal e sp close reopen = some (e', ok)) : Works e e' sp := by
  obtain ⟨s, hs, ⟨-, -, rfl⟩ | ⟨-, -, -, rfl⟩ | ⟨-, -, -, rfl⟩⟩ := pk11CipherFinal_cases h
  · exact .refl _ _
  · exact works_heap rfl rfl rfl rfl
  · exact works_store hs rfl (works_heap rfl rfl rfl rfl)

def Hits (e : Engine) (sp : Addr) (encrypt : Int) (key : List UInt8) (destroy : Rv) : Prop :=
  ∃ s ∈ e.session? sp, s.cipher.cipherKey ≠ ckInvalidHandle ∧ s.cipher.encrypt = encrypt ∧
    (SameKey s.cipher key ∨ destroy ≠ ckrOk)

/-- The session that pk11_cipher_init got belongs to the context in the end, or is
given back. A context that hit a cached key keeps it all the same. -/
theorem initWithSession_spec {row : Pk11Cipher} {env : CipherInitResults}
    (h : initWithSession e ctx sp key row env = some (e', ctx', ret)) :
    ∃ e₁, Works e e₁ sp ∧
      ((ret = true ∧ ctx' = { ctx with sp := sp } ∧ e' = e₁) ∨
        (ret = false ∧ pk11ReturnSession e₁ sp .cipher = some e' ∧
          (ctx' = ctx ∨
            (ctx' = { ctx with sp := sp } ∧ Hits e sp ctx.encrypt key env.destroy ∧ env.init ≠ ckrOk)))) := by
  obtain ⟨e₁, s, hcheck, hs, ⟨hne, henc, rfl, hsym⟩ | hkey⟩ := initWithSession_cases h
  · have hworks := checkNewCipherKey_works hcheck
    rcases pk11InitSymmetric_cases hsym with ⟨-, rfl, rfl⟩ | ⟨hinit, rfl, hret⟩
    · exact ⟨_, hworks, .inl ⟨rfl, rfl, rfl⟩⟩
    · refine ⟨e₁, hworks, .inr ⟨rfl, hret, .inr ⟨rfl, ?_, hinit⟩⟩⟩
      obtain ⟨u, hu, -⟩ := Option.map_eq_some_iff.mp hcheck
      refine ⟨u, hu, ?_⟩
      rcases checkNewCipherKey_cases hcheck hu with ⟨hsame, rfl⟩ | ⟨-, ⟨hnone, rfl⟩ | ⟨-, hrv, rfl⟩ | ⟨-, -, rfl⟩⟩
      · obtain rfl := Option.some.inj (hs.symm.trans hu)
        exact ⟨hne, henc, .inl hsame⟩
      · obtain rfl := Option.some.inj (hs.symm.trans hu)
        exact absurd hnone hne
      · obtain rfl := Option.some.inj (hs.symm.trans hu)
        exact ⟨hne, henc, .inr hrv⟩
      · obtain rfl := Option.some.inj ((session?_store _ _ _).symm.trans hs)
        exact absurd rfl hne
  · obtain ⟨e₂, e₃, ok, hmade, hended, hdone⟩ := initWithKey_cases hkey
    have hworks₂ : Works e₁ e₂ sp := by
      obtain ⟨u, -, ⟨-, hcreate⟩ | ⟨-, rfl⟩⟩ := makeKey_cases hmade
      · exact pk11GetCipherKey_works hcreate
      · exact .refl _ _
    have hworks₃ : Works e₂ e₃ sp := by
      obtain ⟨v, -, ⟨-, -, hfinal⟩ | ⟨-, rfl⟩⟩ := terminatePrevious_cases hended
      · exact pk11CipherFinal_works hfinal
      · exact .refl _ _
    have hworks := ((checkNewCipherKey_works hcheck).trans hworks₂).trans hworks₃
    rcases hdone with ⟨hret, hctx, rfl⟩ | ⟨-, rfl, hctx, u, hu, -, rfl⟩
    · exact ⟨e₃, hworks, .inr ⟨rfl, hret, .inl hctx⟩⟩
    · refine ⟨_, hworks.trans ?_, .inl ⟨rfl, hctx, rfl⟩⟩
      exact works_store hu rfl (.refl _ _)

end OiUserland.Pkcs11.CipherSteps
