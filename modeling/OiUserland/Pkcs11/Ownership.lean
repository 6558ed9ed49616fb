import OiUserland.Pkcs11.EngineInvariants
import OiUserland.Pkcs11.FreeLists

namespace OiUserland.Pkcs11.Ownership

open Lib.Runs Lib.Chains Types Process Sessions SessionSteps QuietGet SymmetricCiphers Digests CipherSteps
  DigestSteps Contexts EngineInvariants ForkedGet FreeLists

variable {e e' : Engine} {lists lists' : Pk11OpType → List Addr} {F : Addr → Prop} {a sp r : Addr} {t : Pk11OpType}

structure InUse (e : Engine) (lists : Pk11OpType → List Addr) (a : Addr) : Prop where
  ne_zero : a ≠ 0
  allocated : (e.session? a).isSome
  notListed : ∀ t, a ∉ lists t

theorem InUse.mono (h : InUse e lists a) (hmem : (e.session? a).isSome → (e'.session? a).isSome)
    (hlists : ∀ t, a ∈ lists' t → a ∈ lists t) : InUse e' lists' a :=
  ⟨h.ne_zero, hmem h.allocated, fun t ht => h.notListed t (hlists t ht)⟩

structure Apart (e : Engine) (lists : Pk11OpType → List Addr) (F : Addr → Prop) (a : Addr) : Prop where
  chains : IsChains e.next e.sessionCache lists
  others : ∀ b, F b → InUse e lists b
  own : a ≠ 0 → InUse e lists a ∧ ¬ F a

def Owns (e : Engine) (F : Addr → Prop) (a : Addr) : Prop := ∃ lists, Apart e lists F a

theorem Owns.forget (h : Owns e F a) : Owns e F 0 := by
  obtain ⟨lists, hap⟩ := h
  exact ⟨lists, hap.chains, hap.others, fun h => absurd rfl h⟩

theorem Owns.quiet {env : GetResults} (hown : Owns e F 0) (h : Quiet e t env e' r) : Owns e' F r := by
  obtain ⟨lists, hchains, hothers, -⟩ := hown
  obtain ⟨lists', hchains', hsub⟩ := quiet_chains hchains h
  have hF (hr : r ≠ 0) : ¬ F r := fun hF => by
    rcases (quiet_given h hr).2 with heq | hnone
    · refine (hothers r hF).notListed t ?_
      rw [heq]
      exact head_mem hchains (by rwa [← heq])
    · have := (hothers r hF).allocated
      rw [hnone] at this
      cases this
  refine ⟨lists', hchains', fun b hb => (hothers b hb).mono (fun hs => ?_) fun t' hin => (hsub t' b hin).1,
    fun hr => ⟨⟨hr, (quiet_given h hr).1, fun t' hin => (hsub t' r hin).2 rfl⟩, hF hr⟩⟩
  by_cases hbr : b = r
  · subst hbr
    exact absurd hb (hF (hothers b hb).ne_zero)
  · rwa [quiet_others h hbr]

/-- pk11_get_session finds a new owner for a session that has none. -/
theorem Owns.get {env : GetResults} (hone : OneProcess e) (hown : Owns e F 0)
    (h : pk11GetSession e t env = some (e', r)) : Owns e' F r :=
  hown.quiet (hone.get h).2

theorem Owns.same (hown : Owns e F a) (h : SameSessions e e') : Owns e' F a := by
  obtain ⟨lists, hchains, hothers, huse⟩ := hown
  have hmem (b : Addr) (hb : (e.session? b).isSome) : (e'.session? b).isSome := by rwa [h.session?]
  refine ⟨lists, ?_, fun b hb => (hothers b hb).mono (hmem b) fun _ => id,
    fun hne => ⟨(huse hne).1.mono (hmem a) fun _ => id, (huse hne).2⟩⟩
  rw [h.sessionCache]
  exact hchains.congr fun _ c _ => next_congr (h.session? c)

theorem Owns.renewed {addr : Addr} {tail : List Addr} (hown : Owns e F 0) (horigin : Origin e t addr sp tail)
    (h : Renewed e t sp tail e' r) : Owns e' F r := by
  obtain ⟨lists, hchains, hothers, -⟩ := hown
  obtain ⟨lists', hchains', hsub⟩ := renewed_chains hchains horigin h
  obtain ⟨-, htail⟩ := origin_lists hchains horigin
  have hF : ¬ F sp := fun hF => by
    rcases horigin with ⟨-, -, hfresh, rfl, -⟩ | ⟨hhead, rfl, -⟩
    · have := (hothers _ hF).allocated
      rw [hfresh] at this
      cases this
    · exact (hothers _ hF).notListed t (head_mem hchains hhead)
  refine ⟨lists', hchains', fun b hb => ?_, fun hr => ?_⟩
  · have hne : b ≠ sp := by
      rintro rfl
      exact hF hb
    refine (hothers b hb).mono (fun hs => ?_) fun t' hin => ?_
    · rw [h.others b hne, if_neg fun hin => (hothers b hb).notListed t (htail b hin)]
      exact hs
    · rcases hsub t' b hin with ⟨heq, -⟩ | ⟨hold, -⟩
      · exact absurd heq hne
      · exact hold
  · obtain ⟨rfl, halloc, -⟩ := h.given hr
    refine ⟨⟨hr, halloc, fun t' hin => ?_⟩, hF⟩
    rcases hsub t' r hin with ⟨-, -, hzero⟩ | ⟨-, -, hne, -⟩
    · exact hr hzero
    · exact hne rfl

theorem Owns.giveBack (hown : Owns e F sp) (h : pk11ReturnSession e sp t = some e') : Owns e' F 0 := by
  rcases pk11ReturnSession_cases h with rfl | ⟨hsp, s, hs, -, hput⟩
  · exact hown.forget
  · obtain ⟨lists, hchains, hothers, huse⟩ := hown
    obtain ⟨⟨-, -, hout⟩, hF⟩ := huse hsp
    obtain ⟨lists', hchains', hsub⟩ := putBack_chains hchains hput hsp hout
    refine ⟨lists', hchains', fun b hb => ?_, fun h => absurd rfl h⟩
    have hne : b ≠ sp := by
      rintro rfl
      exact hF hb
    refine (hothers b hb).mono (fun hs => by rwa [hput.others b hne]) fun t' hin => ?_
    exact (hsub t' b hin).resolve_left fun h => hne h.1

theorem Owns.works (hown : Owns e F sp) (hsp : sp ≠ 0) (h : Works e e' sp) : Owns e' F sp := by
  obtain ⟨lists, hchains, hothers, huse⟩ := hown
  obtain ⟨hin, hF⟩ := huse hsp
  have hmem (b : Addr) (hb : (e.session? b).isSome) : (e'.session? b).isSome := by
    by_cases hbsp : b = sp
    · subst hbsp
      rw [← Option.isSome_map (f := Pk11Session.pid), h.here, Option.isSome_map]
      exact hb
    · rwa [h.others b hbsp]
  refine ⟨lists, ?_, fun b hb => (hothers b hb).mono (hmem b) fun _ => id,
    fun _ => ⟨hin.mono (hmem sp) fun _ => id, hF⟩⟩
  rw [h.sessionCache]
  refine hchains.congr fun t c hc => next_congr (h.others c ?_)
  rintro rfl
  exact hin.notListed t hc

section Calls

variable {ctx ctx' : CipherCtx} {dctx dctx' : DigestCtx} {key : List UInt8} {ret : Bool}

theorem Owns.cipherCleanup {final : Rv} (hown : Owns e F ctx.sp)
    (hfinal : ctx.sp ≠ 0 → final = ckrOk) (h : pk11CipherCleanup e ctx final = some (e', ctx', ret)) :
    Owns e' F ctx'.sp := by
  rcases pk11CipherCleanup_cases h with ⟨-, rfl, rfl, -⟩ | ⟨hsp, hret, ⟨-, rfl, -⟩ | ⟨hrv, -⟩⟩
  · exact hown
  · exact hown.giveBack hret
  · exact absurd (hfinal hsp) hrv

theorem Owns.initWithSession {row : Pk11Cipher} {env : CipherInitResults} (hown : Owns e F sp) (hsp : sp ≠ 0) (hctx : ctx.sp = 0)
    (hinit : Hits e sp ctx.encrypt key env.destroy → env.init = ckrOk)
    (h : initWithSession e ctx sp key row env = some (e', ctx', ret)) : Owns e' F ctx'.sp := by
  obtain ⟨e₁, hworks, ⟨-, rfl, rfl⟩ | ⟨-, hret, rfl | ⟨-, hhit, hrv⟩⟩⟩ := initWithSession_spec h
  · exact hown.works hsp hworks
  · rw [hctx]
    exact (hown.works hsp hworks).giveBack hret
  · exact absurd (hinit hhit) hrv

theorem Owns.cipherInit {env : CipherInitResults} (hone : OneProcess e) (hown : Owns e F ctx.sp)
    (hinit : (cipherRow ctx).isSome → Hits e (nextSession e ctx) ctx.encrypt key env.destroy → env.init = ckrOk)
    (h : pk11CipherInit e ctx key env = some (e', ctx', ret)) : Owns e' F ctx'.sp := by
  obtain ⟨e₁, hret, hrest⟩ := pk11CipherInit_cases h
  have hone₁ := hone.after_return hret
  have hown₁ := hown.giveBack hret
  rcases hrest with ⟨rfl, rfl, -⟩ | ⟨row, e₂, sp, hrow, hget, hrest⟩
  · exact hown₁
  have hown₂ := hown₁.get hone₁ hget
  rcases hrest with ⟨rfl, rfl, rfl, -⟩ | ⟨hsp, hwith⟩
  · exact hown₂
  refine hown₂.initWithSession hsp rfl (fun ⟨s, hs, hkey, henc, hsame⟩ => ?_) hwith
  rcases cipher_of_get hone hret hget hsp hs with hnone | ⟨rfl, -, u, hu, hcipher⟩
  · exact absurd hnone hkey
  · refine hinit (by rw [hrow, Option.isSome_some]) ⟨u, hu, ?_⟩
    rw [hcipher]
    exact ⟨hkey, henc, hsame⟩

theorem Owns.digestInit {env : DigestInitResults} (hone : OneProcess e) (hown : Owns e F dctx.sp)
    (h : pk11DigestInit e dctx env = some (e', dctx', ret)) : Owns e' F dctx'.sp := by
  rcases pk11DigestInit_cases h with ⟨rfl, rfl, -⟩ | ⟨e₁, sp, hget, hrest⟩
  · exact hown.forget
  have hown₁ := hown.forget.get hone hget
  rcases hrest with ⟨-, rfl, rfl, -⟩ | ⟨-, hret, rfl, -⟩ | ⟨-, rfl, rfl, -⟩
  · exact hown₁.forget
  · exact hown₁.giveBack hret
  · exact hown₁

theorem Owns.kept (hown : Owns e F dctx.sp) (h : Kept e dctx e' dctx') : Owns e' F dctx'.sp := by
  cases h with
  | same => exact hown
  | givenBack _ hret => exact hown.giveBack hret

end Calls

/-- Whoever may hold a session: a context of a cipher or of a digest, or another
caller of pk11_get_session. -/
inductive Owner
  | cipher (c : Nat)
  | digest (d : Nat)
  | holder (h : Nat)
  deriving DecidableEq

variable {w w' : World} {o : Owner}

def ref (w : World) : Owner → Addr
  | .cipher c => (w.ciphers c).sp
  | .digest d => (w.digests d).sp
  | .holder h => (w.holders h).1

def others (w : World) (o : Owner) (a : Addr) : Prop := a ≠ 0 ∧ ∃ o', o' ≠ o ∧ ref w o' = a

def Owned (w : World) : Prop := ∀ o, Owns w.eng (others w o) (ref w o)

theorem Owned.update (hw : Owned w) (h : Owns w'.eng (others w o) (ref w' o))
    (hrest : ∀ o', o' ≠ o → ref w' o' = ref w o') : Owned w' := by
  obtain ⟨lists, hchains, hothers, hown⟩ := h
  have huse (o' : Owner) (hne : ref w' o' ≠ 0) : InUse w'.eng lists (ref w' o') := by
    by_cases ho : o' = o
    · subst ho
      exact (hown hne).1
    · rw [hrest o' ho] at hne ⊢
      exact hothers _ ⟨hne, o', ho, rfl⟩
  intro o₁
  refine ⟨lists, hchains, fun b ⟨hb, o', _, hr⟩ => ?_, fun hne => ⟨huse o₁ hne, fun ⟨_, o₂, hne₂, hr⟩ => ?_⟩⟩
  · subst hr
    exact huse o' hb
  · by_cases h₁ : o₁ = o
    · subst h₁
      refine (hown hne).2 ⟨hne, o₂, hne₂, ?_⟩
      rw [← hrest o₂ hne₂, hr]
    · by_cases h₂ : o₂ = o
      · subst h₂
        rw [hrest o₁ h₁] at hr hne
        rw [← hr] at hne
        exact (hown hne).2 ⟨hne, o₁, h₁, hr.symm⟩
      · rw [hrest o₁ h₁] at hr hne
        rw [hrest o₂ h₂] at hr
        obtain ⟨lists', -, -, hown'⟩ := hw o₁
        exact (hown' hne).2 ⟨hne, o₂, hne₂, hr⟩

theorem Owned.withCipher (hw : Owned w) {c : Nat} {r : Engine × CipherCtx × Bool}
    (h : Owns r.1 (others w (.cipher c)) r.2.1.sp) : Owned (w.withCipher c r) := by
  refine hw.update (o := .cipher c) ?_ fun o' ho => ?_
  · rw [ref, withCipher_same]
    exact h
  · cases o' with
    | cipher c' =>
        rw [ref, withCipher_ne (fun hc => ho (congrArg Owner.cipher hc)), ref]
    | digest d => rfl
    | holder h => rfl

theorem Owned.withDigest (hw : Owned w) {d : Nat} {r : Engine × DigestCtx × Bool}
    (h : Owns r.1 (others w (.digest d)) r.2.1.sp) : Owned (w.withDigest d r) := by
  refine hw.update (o := .digest d) ?_ fun o' ho => ?_
  · rw [ref, withDigest_same]
    exact h
  · cases o' with
    | cipher c => rfl
    | digest d' =>
        rw [ref, withDigest_ne (fun hd => ho (congrArg Owner.digest hd)), ref]
    | holder h => rfl

theorem Owned.withHolder (hw : Owned w) {h : Nat} {r : Engine × Addr × Pk11OpType}
    (hown : Owns r.1 (others w (.holder h)) r.2.1) : Owned (w.withHolder h r) := by
  refine hw.update (o := .holder h) ?_ fun o' ho => ?_
  · rw [ref, withHolder_same]
    exact hown
  · cases o' with
    | cipher c => rfl
    | digest d => rfl
    | holder h' => rw [ref, withHolder_ne (fun hh => ho (congrArg Owner.holder hh)), ref]

/-- The calls of a process that does not fork, in which a context that has given
its session back does not go on referring to it: pk11_cipher_cleanup ends the
operation, and pk11_cipher_init starts it again on a cached key. -/
def HandsOver (o : Op) (w : World) : Prop :=
  match o with
  | .fork _ => False
  | .cipherCleanup c final => (w.ciphers c).sp ≠ 0 → final = ckrOk
  | .cipherInit c q key env =>
      (cipherRow (q.ctx key (w.ciphers c))).isSome →
        Hits w.eng (nextSession w.eng (w.ciphers c)) q.encrypt key env.destroy → env.init = ckrOk
  | _ => True

theorem Owned.perform {o : Op} (hone : OneProcess w.eng) (hw : Owned w) (ho : HandsOver o w)
    (h : perform o w = some w') : Owned w' := by
  cases o with
  | fork child => exact absurd ho id
  | getSession k t env =>
      obtain ⟨⟨e₁, sp⟩, hget, rfl⟩ := Option.map_eq_some_iff.mp h
      exact hw.withHolder ((hw (.holder k)).forget.get hone hget)
  | returnSession k =>
      obtain ⟨e₁, hret, rfl⟩ := Option.map_eq_some_iff.mp h
      exact hw.withHolder ((hw (.holder k)).giveBack hret)
  | cipherInit c q key env =>
      obtain ⟨⟨e₁, ctx, ok⟩, hinit, rfl⟩ := Option.map_eq_some_iff.mp h
      have hown : Owns w.eng (others w (.cipher c)) (q.ctx key (w.ciphers c)).sp := hw (.cipher c)
      exact hw.withCipher (hown.cipherInit hone ho hinit)
  | doCipher c inl r =>
      obtain ⟨b, -, rfl⟩ := Option.map_eq_some_iff.mp h
      exact hw
  | cipherCleanup c final =>
      obtain ⟨⟨e₁, ctx, ok⟩, hclean, rfl⟩ := Option.map_eq_some_iff.mp h
      exact hw.withCipher ((hw (.cipher c)).cipherCleanup ho hclean)
  | digestInit d nid mdSize env =>
      obtain ⟨⟨e₁, ctx, ok⟩, hinit, rfl⟩ := Option.map_eq_some_iff.mp h
      have hown : Owns w.eng (others w (.digest d)) { w.digests d with nid := nid, mdSize := mdSize }.sp :=
        hw (.digest d)
      exact hw.withDigest (hown.digestInit hone hinit)
  | digestUpdate d count rv =>
      obtain ⟨⟨e₁, ctx, ok⟩, hkept, rfl⟩ := Option.map_eq_some_iff.mp h
      exact hw.withDigest ((hw (.digest d)).kept (pk11DigestUpdate_kept hkept))
  | digestFinal d r =>
      obtain ⟨⟨e₁, ctx, ok⟩, hkept, rfl⟩ := Option.map_eq_some_iff.mp h
      exact hw.withDigest ((hw (.digest d)).kept (pk11DigestFinal_kept hkept))
  | digestCopy d source env =>
      obtain ⟨⟨e₁, ctx, ok⟩, hcopy, rfl⟩ := Option.map_eq_some_iff.mp h
      refine hw.withDigest ?_
      rcases pk11DigestCopy_cases hcopy with ⟨rfl, rfl⟩ | ⟨ok', hinit⟩
      · exact hw (.digest d)
      · exact (hw (.digest d)).digestInit hone hinit
  | digestCleanup d r =>
      obtain ⟨⟨e₁, ctx, ok⟩, hkept, rfl⟩ := Option.map_eq_some_iff.mp h
      exact hw.withDigest ((hw (.digest d)).kept (pk11DigestCleanup_kept hkept))

theorem started_owned (h : Started w) : Owned w := by
  have hzero (o : Owner) : ref w o = 0 := by
    cases o with
    | cipher c => exact h.ciphers c
    | digest d => exact h.digests d
    | holder k => exact h.holders k
  refine fun o => ⟨fun _ => [], ⟨fun t => ?_, fun _ _ _ hin => absurd hin (by simp)⟩, fun b hb => ?_, fun hne => ?_⟩
  · rw [h.cache]
    exact .nil
  · obtain ⟨hb, o', -, hr⟩ := hb
    exact absurd (hr.symm.trans (hzero o')) hb
  · exact absurd (hzero o) hne

/-- Every session has at most one owner: it is once in one of the free lists, or
one context or caller refers to it. -/
structure OneOwner (w : World) (lists : Pk11OpType → List Addr) : Prop where
  chains : ∀ t, IsChain w.eng.next (w.eng.sessionCache t) (lists t)
  once : ∀ t, (lists t).Nodup
  apart : ∀ t t' a, a ∈ lists t → a ∈ lists t' → t = t'
  notListed : ∀ o t, ref w o ≠ 0 → ref w o ∉ lists t
  notShared : ∀ o o', ref w o ≠ 0 → ref w o = ref w o' → o = o'

theorem Owned.oneOwner (hw : Owned w) : ∃ lists, OneOwner w lists := by
  obtain ⟨lists, hchains, hothers, hown⟩ := hw (.cipher 0)
  refine ⟨lists, hchains.chain, fun t => (hchains.chain t).nodup, hchains.apart, fun o t hne => ?_, fun o o' hne heq => ?_⟩
  · by_cases ho : o = .cipher 0
    · subst ho
      exact (hown hne).1.notListed t
    · exact (hothers _ ⟨hne, o, ho, rfl⟩).notListed t
  · obtain ⟨lists', -, -, hown'⟩ := hw o
    by_contra ho
    exact (hown' hne).2 ⟨hne, o', Ne.symm ho, heq.symm⟩

/-- In every run of a process that does not fork and hands its sessions over,
every session has at most one owner. -/
theorem reachable_oneOwner (h : Reachable step HandsOver Started w) : ∃ lists, OneOwner w lists := by
  have hinv : OneProcess w.eng ∧ Owned w := by
    refine h.invariant (fun w => OneProcess w.eng ∧ Owned w) (fun w hw => ⟨started_oneProcess hw, started_owned hw⟩)
      fun o w w' hw ho hs => ?_
    have hp := perform_of_step hs
    refine ⟨oneProcess_stable.perform (fun child hc => ?_) hw.1 hp, hw.2.perform hw.1 ho hp⟩
    subst hc
    exact ho
  exact hinv.2.oneOwner

/-- The session of a context that is done is in the list. -/
theorem reachable_oneOwner_returned : ∃ w lists, OneOwner w lists ∧ w.eng.sessionCache .cipher = 1 := by
  have h₁ : Reachable step HandsOver Started _ :=
    .next (.cipherInit 0 { nid := .aes128Cbc } (List.replicate 16 7) {}) (.start started_default)
      (fun _ ⟨_, hs, _⟩ => nomatch hs) rfl
  have h₂ : Reachable step HandsOver Started _ := .next (.cipherCleanup 0 ckrOk) h₁ (fun _ => rfl) rfl
  obtain ⟨lists, hone⟩ := reachable_oneOwner h₂
  exact ⟨_, lists, hone, rfl⟩

def sharing : List Op :=
  [.cipherInit 0 { nid := .aes128Cbc } (List.replicate 16 7) {}, .cipherCleanup 0 5,
    .cipherInit 1 { nid := .aes128Cbc } (List.replicate 16 7) {}]

/-- A cleanup whose C_EncryptFinal fails leaves its context with the session that
the next context gets. -/
theorem reachable_twoOwners : ∃ w, Reachable step NoFork Started w ∧ ¬ ∃ lists, OneOwner w lists := by
  have hrun : (exec step sharing {}).any
      (fun w => decide ((w.ciphers 0).sp ≠ 0 ∧ (w.ciphers 0).sp = (w.ciphers 1).sp)) = true := by decide +kernel
  obtain ⟨w, hw, hshared⟩ := (Option.any_eq_true _ _).mp hrun
  obtain ⟨hne, heq⟩ := of_decide_eq_true hshared
  refine ⟨w, reachable_of_exec sharing (by simp [sharing, NoFork]) (.start started_default) hw, fun ⟨lists, hone⟩ => ?_⟩
  cases hone.notShared (.cipher 0) (.cipher 1) hne heq

end OiUserland.Pkcs11.Ownership
