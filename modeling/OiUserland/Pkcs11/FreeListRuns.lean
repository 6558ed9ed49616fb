import OiUserland.Pkcs11.ForkRuns
import OiUserland.Pkcs11.SessionHandles

namespace OiUserland.Pkcs11.FreeListRuns

open Lib.Runs Lib.Chains Types Process Sessions SessionSteps ForkedGet FreeLists SymmetricCiphers
  CipherSteps Contexts Ownership ForkRuns SessionHandles

variable {e e' e₁ : Engine} {F : Addr → Prop} {t : Pk11OpType} {a sp r : Addr} {env : GetResults}
  {key : List UInt8} {ctx ctx' : CipherCtx} {ret : Bool}

structure Sound (e : Engine) (F : Addr → Prop) (a : Addr) : Prop where
  owns : Owns e F a
  processes : Processes e
  handles : OpenHandles e

/-- pk11_get_session gets over a fork if there is one, with the library that is
documented. -/
structure GetSafe (e : Engine) (t : Pk11OpType) (env : GetResults) : Prop where
  recovers : Forked e → Recovers e t env
  documented : Documented e env.setup

def Given (e : Engine) (e' : Engine) (r : Addr) : Prop :=
  (¬ Forked e ∧ r = e.sessionCache .cipher ∧ Undisturbed e e' ∧
      ∀ s, e'.session? r = some s → ∃ u, e.session? r = some u ∧ u.pid = s.pid ∧ u.cipher = s.cipher) ∨
    ∀ s, e'.session? r = some s → s.cipher.cipherKey = ckInvalidHandle ∧ s.cipher.encrypt = -1

theorem Sound.get (h : Sound e F 0) (hsafe : GetSafe e t env) (hget : pk11GetSession e t env = some (e', r)) :
    Sound e' F r := by
  by_cases hforked : Forked e
  · obtain ⟨lists, hap⟩ := h.owns
    rcases pk11GetSession_forked hget hforked h.processes.self (hsafe.recovers hforked) (hap.chains.chain t) with
      ⟨rfl, hsame⟩ | ⟨sp, tail, horigin, hrenewed⟩
    · refine ⟨h.owns.same hsame, h.processes.same hsame, h.handles.back (fun a s hs => ?_) hsame.self hsame.opened⟩
      exact ⟨s, (hsame.session? a).symm.trans hs, rfl, rfl⟩
    · exact ⟨h.owns.renewed horigin hrenewed, h.processes.renewed hrenewed,
        openHandles_renewed h.processes hforked hrenewed⟩
  · obtain ⟨hframe, hquiet⟩ := h.processes.get_quiet hforked hget
    exact ⟨h.owns.quiet hquiet, h.processes.quiet hframe hquiet, h.handles.quiet hsafe.documented hframe hquiet⟩

theorem Sound.given (h : Sound e F 0) (hsafe : GetSafe e .cipher env) (hr : r ≠ 0)
    (hget : pk11GetSession e .cipher env = some (e', r)) : Given e e' r := by
  by_cases hforked : Forked e
  · obtain ⟨lists, hap⟩ := h.owns
    rcases pk11GetSession_forked hget hforked h.processes.self (hsafe.recovers hforked)
      (hap.chains.chain .cipher) with ⟨rfl, -⟩ | ⟨sp, tail, -, hrenewed⟩
    · exact absurd rfl hr
    · obtain ⟨rfl, -, -⟩ := hrenewed.given hr
      exact .inr fun s hs => (hrenewed.ready s hs).cipher rfl
  · obtain ⟨hframe, hquiet⟩ := h.processes.get_quiet hforked hget
    cases hquiet with
    | nothing => exact absurd rfl hr
    | reused _ hs hhere hmem _ _ hopened =>
        refine .inl ⟨hforked, rfl, undisturbed_store hs hhere hmem rfl rfl rfl hframe.self hopened, fun u hu => ?_⟩
        obtain rfl := Option.some.inj (hhere.symm.trans hu)
        exact ⟨_, hs, rfl, rfl⟩
    | new _ _ hhere _ _ _ _ =>
        refine .inr fun s hs => ?_
        obtain rfl := Option.some.inj (hhere.symm.trans hs)
        exact ⟨rfl, rfl⟩

theorem Sound.giveBack (h : Sound e F sp) (hret : pk11ReturnSession e sp t = some e') : Sound e' F 0 :=
  ⟨h.owns.giveBack hret, h.processes.giveBack hret, h.handles.congr (undisturbed_giveBack hret)⟩

theorem processes_works (hp : Processes e) (h : Works e e' sp) : Processes e' := by
  refine hp.congr (fun a => ?_) h.pid h.self
  by_cases ha : a = sp
  · rw [ha]
    exact h.here
  · rw [h.others a ha]

theorem Sound.initWithSession {row : Pk11Cipher} {env : CipherInitResults} (hsound : Sound e F sp)
    (h : initWithSession e ctx sp key row env = some (e', ctx', ret)) (hsp : sp ≠ 0) (hctx : ctx.sp = 0)
    (hinit : (∀ s, e.session? sp = some s → s.pid = e.self) → Hits e sp ctx.encrypt key env.destroy → env.init = ckrOk)
    (hsafe : FinalSafe e sp ctx.encrypt env) : Sound e' F ctx'.sp := by
  have hhandles := hsound.handles.initWithSession hsafe h
  obtain ⟨e₁, hworks, hdone⟩ := initWithSession_spec h
  have hown := hsound.owns.works hsp hworks
  have hproc := processes_works hsound.processes hworks
  rcases hdone with ⟨-, rfl, rfl⟩ | ⟨-, hret, hkept⟩
  · exact ⟨hown, hproc, hhandles⟩
  refine ⟨?_, hproc.giveBack hret, hhandles⟩
  rcases hkept with rfl | ⟨rfl, hhit, hrv⟩
  · rw [hctx]
    exact hown.giveBack hret
  · -- the context refers to a session that has not been put back
    obtain ⟨s, hs, hpid⟩ : ∃ s, e.session? sp = some s ∧ s.pid ≠ e.self := by
      by_contra hno
      refine hrv (hinit (fun s hs => ?_) hhit)
      by_contra hpid
      exact hno ⟨s, hs, hpid⟩
    have hhere := hworks.here
    rw [hs, Option.map_some] at hhere
    obtain ⟨u, hu, hupid⟩ := Option.map_eq_some_iff.mp hhere
    rw [← hworks.self, ← hupid] at hpid
    rw [giveBack_other (fun _ v hv => Option.some.inj (hu.symm.trans hv) ▸ hpid) hret]
    exact hown

def nextOf (e : Engine) (ctx : CipherCtx) : Addr :=
  if ctx.sp ≠ 0 ∧ ∃ s ∈ e.session? ctx.sp, s.pid = e.self then ctx.sp else e.sessionCache .cipher

theorem nextOf_giveBack (h : pk11ReturnSession e ctx.sp .cipher = some e₁) :
    e₁.sessionCache .cipher = nextOf e ctx ∧ e₁.pid = e.pid ∧ Undisturbed e e₁ ∧
      ∀ a s, e₁.session? a = some s → ∃ u, e.session? a = some u ∧ u.pid = s.pid ∧ u.cipher = s.cipher := by
  have hsame := undisturbed_giveBack h
  rw [nextOf]
  by_cases hown : ctx.sp ≠ 0 ∧ ∃ s ∈ e.session? ctx.sp, s.pid = e.self
  · rw [if_pos hown]
    obtain ⟨hsp, s, hs, hpid⟩ := hown
    have hput := putBack_own hsp hs hpid h
    refine ⟨by rw [hput.cache, Function.update_self], hput.pid, hsame, fun a u hu => ?_⟩
    by_cases ha : a = ctx.sp
    · rw [ha, hput.here] at hu
      obtain rfl := Option.some.inj hu
      rw [ha]
      exact ⟨s, hs, rfl, rfl⟩
    · exact ⟨u, (hput.others a ha).symm.trans hu, rfl, rfl⟩
  · rw [if_neg hown]
    obtain rfl := giveBack_other (fun hsp s hs hpid => hown ⟨hsp, s, hs, hpid⟩) h
    exact ⟨rfl, rfl, hsame, fun a s hs => ⟨s, hs, rfl, rfl⟩⟩

/-- pk11_cipher_init gets over a fork; it starts an operation on a key that its
session has cached without failure; and where it ends the previous operation of
the session it opens a new one. -/
structure InitSafe (e : Engine) (ctx : CipherCtx) (key : List UInt8) (env : CipherInitResults) : Prop where
  get : GetSafe e .cipher env.get
  init : ¬ Forked e → (∀ s, e.session? (nextOf e ctx) = some s → s.pid = e.self) →
    Hits e (nextOf e ctx) ctx.encrypt key env.destroy → env.init = ckrOk
  final : ¬ Forked e → FinalSafe e (nextOf e ctx) ctx.encrypt env

theorem GetSafe.giveBack (h : GetSafe e t env) (hp : Processes e) (hret : pk11ReturnSession e sp .cipher = some e₁) :
    GetSafe e₁ t env := by
  have hsame := undisturbed_giveBack hret
  refine ⟨fun hforked => ?_, ?_, fun hr => ?_⟩
  · -- nothing is given back before the fork is noticed
    have hpid : e₁.pid = e.pid := by
      rcases pk11ReturnSession_cases hret with rfl | ⟨-, _, -, -, hput⟩
      · rfl
      · exact hput.pid
    have hforked' : Forked e := by rwa [Forked, hpid, hsame.self] at hforked
    rw [giveBack_other (fun _ s hs => hp.inherited hforked' _ s hs) hret]
    exact h.recovers hforked'
  · rw [hsame.opened]
    exact h.documented.fresh
  · rw [hsame.opened]
    exact h.documented.restarts hr

theorem Sound.cipherInit {env : CipherInitResults} (h : Sound e F ctx.sp)
    (hsafe : (cipherRow ctx).isSome → InitSafe e ctx key env)
    (hinit : pk11CipherInit e ctx key env = some (e', ctx', ret)) : Sound e' F ctx'.sp := by
  obtain ⟨e₁, hret, hrest⟩ := pk11CipherInit_cases hinit
  have h₁ := h.giveBack hret
  rcases hrest with ⟨rfl, rfl, -⟩ | ⟨row, e₂, sp, hrow, hget, hrest⟩
  · exact h₁
  have hsafe := hsafe (by rw [hrow, Option.isSome_some])
  have hgetSafe := hsafe.get.giveBack h.processes hret
  have h₂ := h₁.get hgetSafe hget
  rcases hrest with ⟨rfl, rfl, rfl, -⟩ | ⟨hsp, hwith⟩
  · exact h₂
  obtain ⟨hhead, hpid, hsame, hback⟩ := nextOf_giveBack hret
  rcases h₁.given hgetSafe hsp hget with ⟨hquiet, rfl, hsame', hback'⟩ | hnew
  · have hquiet' : ¬ Forked e := by rwa [Forked, hpid, hsame.self] at hquiet
    rw [hhead] at *
    refine h₂.initWithSession hwith hsp rfl (fun hown hhit => ?_) ((hsafe.final hquiet').congr (hsame.trans hsame'))
    obtain ⟨s, hs, hkey⟩ := hhit
    obtain ⟨u, hu, hupid, hucipher⟩ := hback' s hs
    obtain ⟨v, hv, hvpid, hvcipher⟩ := hback _ u hu
    refine hsafe.init hquiet' (fun v' hv' => ?_) ⟨v, hv, ?_⟩
    · obtain rfl := Option.some.inj (hv.symm.trans hv')
      rw [hvpid, hupid, hown s hs, hsame'.self, hsame.self]
    · rw [hvcipher, hucipher]
      exact hkey
  · refine h₂.initWithSession hwith hsp rfl (fun _ h => h.elim fun s hs => absurd (hnew s hs.1).1 hs.2.1) fun s hs hne hne' => ?_
    exact absurd (hnew s hs).2 hne'

/-- pk11_cipher_cleanup ends the operation, if the session is put back. -/
def CleanupSafe (e : Engine) (ctx : CipherCtx) (final : Rv) : Prop :=
  ∀ s, e.session? ctx.sp = some s → s.pid = e.self → final = ckrOk

theorem Sound.cipherCleanup {final : Rv} (h : Sound e F ctx.sp) (hsafe : CleanupSafe e ctx final)
    (hclean : pk11CipherCleanup e ctx final = some (e', ctx', ret)) : Sound e' F ctx'.sp := by
  rcases pk11CipherCleanup_cases hclean with ⟨-, rfl, rfl, -⟩ | ⟨hsp, hret, ⟨-, rfl, -⟩ | ⟨hrv, rfl, -⟩⟩
  · exact h
  · exact h.giveBack hret
  · rw [giveBack_other (fun _ s hs hpid => hrv (hsafe s hs hpid)) hret]
    exact h

/-- Forks, calls of pk11_get_session and pk11_return_session, and operations of
symmetric ciphers. -/
def Safe (o : Op) (w : World) : Prop :=
  match o with
  | .fork child => FreshPid w.eng child
  | .getSession _ t env => GetSafe w.eng t env
  | .cipherInit c q key env =>
      (cipherRow (q.ctx key (w.ciphers c))).isSome → InitSafe w.eng (q.ctx key (w.ciphers c)) key env
  | .cipherCleanup c final => CleanupSafe w.eng (w.ciphers c) final
  | .returnSession _ | .doCipher .. => True
  | .digestInit .. | .digestUpdate .. | .digestFinal .. | .digestCopy .. | .digestCleanup .. => False

variable {w w' : World} {o : Op}

structure SoundWorld (w : World) : Prop where
  owned : Owned w
  processes : Processes w.eng
  handles : OpenHandles w.eng

theorem SoundWorld.view (h : SoundWorld w) (o : Owner) : Sound w.eng (others w o) (ref w o) :=
  ⟨h.owned o, h.processes, h.handles⟩

theorem SoundWorld.perform (h : SoundWorld w) (ho : Safe o w) (hp : perform o w = some w') : SoundWorld w' := by
  cases o with
  | fork child =>
      obtain rfl := Option.some.inj hp
      exact ⟨owned_fork h.owned, h.processes.fork ho, .fork ho⟩
  | getSession k t env =>
      obtain ⟨⟨e₁, sp⟩, hget, rfl⟩ := Option.map_eq_some_iff.mp hp
      have hview := h.view (.holder k)
      have hsound := Sound.get ⟨hview.owns.forget, hview.processes, hview.handles⟩ ho hget
      exact ⟨h.owned.withHolder hsound.owns, hsound.processes, hsound.handles⟩
  | returnSession k =>
      obtain ⟨e₁, hret, rfl⟩ := Option.map_eq_some_iff.mp hp
      have hsound := (h.view (.holder k)).giveBack hret
      exact ⟨h.owned.withHolder hsound.owns, hsound.processes, hsound.handles⟩
  | cipherInit c q key env =>
      obtain ⟨⟨e₁, ctx, ok⟩, hinit, rfl⟩ := Option.map_eq_some_iff.mp hp
      have hview : Sound w.eng (others w (.cipher c)) (q.ctx key (w.ciphers c)).sp := h.view (.cipher c)
      have hsound := hview.cipherInit ho hinit
      exact ⟨h.owned.withCipher hsound.owns, hsound.processes, hsound.handles⟩
  | doCipher c inl r =>
      obtain ⟨b, -, rfl⟩ := Option.map_eq_some_iff.mp hp
      exact h
  | cipherCleanup c final =>
      obtain ⟨⟨e₁, ctx, ok⟩, hclean, rfl⟩ := Option.map_eq_some_iff.mp hp
      have hsound := (h.view (.cipher c)).cipherCleanup ho hclean
      exact ⟨h.owned.withCipher hsound.owns, hsound.processes, hsound.handles⟩
  | digestInit | digestUpdate | digestFinal | digestCopy | digestCleanup => exact absurd ho id

theorem started_sound (h : Started w) : SoundWorld w := by
  have hnone (a : Addr) (s : Pk11Session) (hs : w.eng.session? a = some s) : False := by
    rw [h.heap] at hs
    cases hs
  exact ⟨started_owned h, started_processes h, fun a s hs _ => (hnone a s hs).elim,
    fun a _ s _ hs _ _ _ _ => (hnone a s hs).elim⟩

def ListsOpen (e : Engine) : Prop :=
  ∃ lists : Pk11OpType → List Addr, ∀ t, IsChain e.next (e.sessionCache t) (lists t) ∧
    ∀ a ∈ lists t, ∃ s, e.session? a = some s ∧ (s.pid = e.self → s.session ∈ e.opened)

theorem SoundWorld.listsOpen (h : SoundWorld w) : ListsOpen w.eng := by
  obtain ⟨lists, hc⟩ := owned_chains h.owned
  refine ⟨lists, fun t => ⟨hc.chain t, fun a ha => ?_⟩⟩
  obtain ⟨s, hs⟩ := allocated_of_mem hc ha
  exact ⟨s, hs, h.handles.opened a s hs⟩

/-- In every such run, with all its forks and failures, the lists stay so. -/
theorem reachable_listsOpen (h : Reachable step Safe Started w) : ListsOpen w.eng :=
  (h.invariant SoundWorld (fun _ => started_sound) fun _ _ _ hw ho hs => hw.perform ho (perform_of_step hs)).listsOpen

/-- A session that has encrypted is in the list. -/
theorem reachable_listsOpen_returned : ∃ w : World, ListsOpen w.eng ∧ w.eng.sessionCache .cipher = 1 := by
  have h₁ : Reachable step Safe Started _ :=
    .next (.cipherInit 0 { nid := .aes128Cbc } (List.replicate 16 7) {}) (.start started_default)
      (fun _ => ⟨⟨fun hf => absurd rfl hf.1, ⟨fun _ => List.not_mem_nil, fun _ => rfl⟩⟩,
        fun _ _ ⟨_, hs, _⟩ => (nomatch hs), fun _ _ hs => (nomatch hs)⟩) rfl
  have h₂ : Reachable step Safe Started _ := .next (.cipherCleanup 0 ckrOk) h₁ (fun _ _ _ => rfl) rfl
  exact ⟨_, reachable_listsOpen h₂, rfl⟩

def closing : List Op :=
  [.cipherInit 0 { nid := .aes128Cbc } (List.replicate 16 7) {}, .cipherCleanup 0 ckrOk,
    .cipherInit 1 { nid := .aes128Cbc, encrypt := 0 } (List.replicate 16 7) { reopen := { rv := 5 } }]

/-- The session is put back with the handle that pk11_cipher_final has closed. -/
theorem reachable_closed : ∃ w, Reachable step NoFork Started w ∧ ¬ ListsOpen w.eng := by
  have hrun : (exec step closing {}).any (fun w => decide (w.eng.sessionCache .cipher ≠ 0) &&
      (w.eng.session? (w.eng.sessionCache .cipher)).any fun s =>
        decide (s.pid = w.eng.self ∧ s.session ∉ w.eng.opened)) = true := by decide +kernel
  obtain ⟨w, hw, hclosed⟩ := (Option.any_eq_true _ _).mp hrun
  obtain ⟨hhead, hclosed⟩ := Bool.and_eq_true_iff.mp hclosed
  obtain ⟨s, hs, hclosed⟩ := (Option.any_eq_true _ _).mp hclosed
  obtain ⟨hpid, hclosed⟩ := of_decide_eq_true hclosed
  refine ⟨w, reachable_of_exec closing (by simp [closing, NoFork]) (.start started_default) hw, fun ⟨lists, hl⟩ => ?_⟩
  obtain ⟨_, _, _, _, hlist⟩ := (hl .cipher).1.head_mem (of_decide_eq_true hhead)
  obtain ⟨u, hu, hopen⟩ := (hl .cipher).2 _ (by rw [hlist]; exact List.mem_cons_self ..)
  obtain rfl := Option.some.inj (hs.symm.trans hu)
  exact hclosed (hopen hpid)

end OiUserland.Pkcs11.FreeListRuns
