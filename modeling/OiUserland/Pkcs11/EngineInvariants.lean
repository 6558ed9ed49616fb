import OiUserland.Lib.Runs
import OiUserland.Pkcs11.Digests
import OiUserland.Pkcs11.CipherSteps
import OiUserland.Pkcs11.QuietGet

open OiUserland.Pkcs11
open Types Process Sessions SymmetricCiphers Digests

namespace OiUserland.Pkcs11.Contexts

open Library

/-- A process that uses the engine: the contexts of its symmetric ciphers and
digests, and what other callers of pk11_get_session hold. -/
structure World where
  eng : Engine := {}
  ciphers : Nat → CipherCtx := fun _ => {}
  digests : Nat → DigestCtx := fun _ => {}
  holders : Nat → Addr × Pk11OpType := fun _ => (0, .rand)

/-- What the caller of pk11_cipher_init has stored in the context. -/
structure CipherRequest where
  nid : Nid
  ivLen : Nat := 16
  blockSize : Nat := 16
  encrypt : Int := 1

def CipherRequest.ctx (q : CipherRequest) (key : List UInt8) (ctx : CipherCtx) : CipherCtx :=
  { ctx with nid := q.nid, ivLen := q.ivLen, blockSize := q.blockSize, keyLen := key.length, encrypt := q.encrypt }

/-- A call of the engine, or a fork after which the child is looked at. -/
inductive Op
  | fork (child : Nat)
  | getSession (h : Nat) (t : Pk11OpType) (env : GetResults)
  | returnSession (h : Nat)
  | cipherInit (c : Nat) (q : CipherRequest) (key : List UInt8) (env : CipherInitResults)
  | doCipher (c : Nat) (inl : Nat) (r : UpdateResult)
  | cipherCleanup (c : Nat) (final : Rv)
  | digestInit (d : Nat) (nid : MdNid) (mdSize : Nat) (env : DigestInitResults)
  | digestUpdate (d : Nat) (count : Nat) (rv : Rv)
  | digestFinal (d : Nat) (r : FinalResult)
  | digestCopy (d source : Nat) (env : CopyResults)
  | digestCleanup (d : Nat) (r : FinalResult)

def World.withCipher (w : World) (c : Nat) (r : Engine × CipherCtx × Bool) : World :=
  { w with eng := r.1, ciphers := Function.update w.ciphers c r.2.1 }

def World.withDigest (w : World) (d : Nat) (r : Engine × DigestCtx × Bool) : World :=
  { w with eng := r.1, digests := Function.update w.digests d r.2.1 }

def World.withHolder (w : World) (h : Nat) (r : Engine × Addr × Pk11OpType) : World :=
  { w with eng := r.1, holders := Function.update w.holders h r.2 }

section Lemmas

variable {w : World} {c c' d d' h h' : Nat} {rc : Engine × CipherCtx × Bool} {rd : Engine × DigestCtx × Bool}
  {rh : Engine × Addr × Pk11OpType}

@[simp] theorem withCipher_same : (w.withCipher c rc).ciphers c = rc.2.1 := Function.update_self ..

theorem withCipher_ne (hc : c' ≠ c) : (w.withCipher c rc).ciphers c' = w.ciphers c' := Function.update_of_ne hc ..

@[simp] theorem withDigest_same : (w.withDigest d rd).digests d = rd.2.1 := Function.update_self ..

theorem withDigest_ne (hd : d' ≠ d) : (w.withDigest d rd).digests d' = w.digests d' := Function.update_of_ne hd ..

@[simp] theorem withHolder_same : (w.withHolder h rh).holders h = rh.2 := Function.update_self ..

theorem withHolder_ne (hh : h' ≠ h) : (w.withHolder h rh).holders h' = w.holders h' := Function.update_of_ne hh ..

end Lemmas

def perform : Op → World → Option World
  | .fork child, w => some { w with eng := forkInChild child w.eng }
  | .getSession h t env, w => (pk11GetSession w.eng t env).map fun (e, sp) => w.withHolder h (e, sp, t)
  | .returnSession h, w => (pk11ReturnSession w.eng (w.holders h).1 (w.holders h).2).map fun e =>
      w.withHolder h (e, 0, (w.holders h).2)
  | .cipherInit c q key env, w => (pk11CipherInit w.eng (q.ctx key (w.ciphers c)) key env).map (w.withCipher c)
  | .doCipher c inl r, w => (pk11CipherDoCipher w.eng (w.ciphers c) inl r).map fun _ => w
  | .cipherCleanup c final, w => (pk11CipherCleanup w.eng (w.ciphers c) final).map (w.withCipher c)
  | .digestInit d nid mdSize env, w =>
      (pk11DigestInit w.eng { w.digests d with nid := nid, mdSize := mdSize } env).map (w.withDigest d)
  | .digestUpdate d count rv, w => (pk11DigestUpdate w.eng (w.digests d) count rv).map (w.withDigest d)
  | .digestFinal d r, w => (pk11DigestFinal w.eng (w.digests d) r).map (w.withDigest d)
  | .digestCopy d source env, w => (pk11DigestCopy w.eng (w.digests d) (w.digests source) env).map (w.withDigest d)
  | .digestCleanup d r, w => (pk11DigestCleanup w.eng (w.digests d) r).map (w.withDigest d)

/-- A call that waits for a lock of its own thread does not come back. -/
def step (o : Op) (w : World) : Option World :=
  (perform o w).bind fun w => if w.eng.locks.blocked then none else some w

/-- The calls of a process that does not fork. -/
def NoFork (o : Op) (_ : World) : Prop := ∀ child, o ≠ .fork child

/-- An engine that has just been initialized. -/
structure Started (w : World) : Prop where
  heap : ∀ a, w.eng.session? a = none
  cache : ∀ t, w.eng.sessionCache t = 0
  pid : w.eng.pid = 0
  self : w.eng.self ≠ 0
  ciphers : ∀ c, (w.ciphers c).sp = 0
  digests : ∀ d, (w.digests d).sp = 0
  holders : ∀ h, (w.holders h).1 = 0

theorem started_default : Started {} := ⟨fun _ => rfl, fun _ => rfl, rfl, by simp, fun _ => rfl, fun _ => rfl, fun _ => rfl⟩

theorem perform_of_step {o : Op} {w w' : World} (h : step o w = some w') : perform o w = some w' := by
  obtain ⟨v, hv, h⟩ := Option.bind_eq_some_iff.mp h
  split at h
  · cases h
  · cases h
    exact hv

end OiUserland.Pkcs11.Contexts

namespace OiUserland.Pkcs11.EngineInvariants

open Lib.Runs SessionSteps QuietGet CipherSteps DigestSteps
  Contexts

variable {P : Engine → Prop} {e e' : Engine} {key : List UInt8} {ret : Bool}

structure Stable (P : Engine → Prop) : Prop where
  get : ∀ e e' t env r, P e → pk11GetSession e t env = some (e', r) → P e'
  giveBack : ∀ e e' sp t, P e → pk11ReturnSession e sp t = some e' → P e'
  check : ∀ e e' sp key destroy, P e → checkNewCipherKey e sp key destroy = some e' → P e'
  create : ∀ e e' sp key keyType r, P e → pk11GetCipherKey e sp key keyType r = some e' → P e'
  final : ∀ e e' sp close reopen ok, P e → pk11CipherFinal e sp close reopen = some (e', ok) → P e'
  encrypt : ∀ e sp s enc, P e → e.session? sp = some s →
    P (e.store sp { s with cipher := { s.cipher with encrypt := enc } })

theorem Stable.initSymmetric (hP : Stable P) {sp : Addr} {rv : Rv} {ok : Bool} (he : P e)
    (h : pk11InitSymmetric e sp rv = some (e', ok)) : P e' := by
  rcases pk11InitSymmetric_cases h with ⟨-, -, rfl⟩ | ⟨-, -, hret⟩
  · exact he
  · exact hP.giveBack _ _ _ _ he hret

theorem Stable.initWithKey (hP : Stable P) {ctx ctx' : CipherCtx} {sp : Addr} {row : Pk11Cipher}
    {env : CipherInitResults} (he : P e) (h : initWithKey e ctx sp key row env = some (e', ctx', ret)) : P e' := by
  obtain ⟨e₁, e₂, ok, hmade, hended, hdone⟩ := initWithKey_cases h
  have h₁ : P e₁ := by
    obtain ⟨s, -, ⟨-, hcreate⟩ | ⟨-, rfl⟩⟩ := makeKey_cases hmade
    · exact hP.create _ _ _ _ _ _ he hcreate
    · exact he
  have h₂ : P e₂ := by
    obtain ⟨s, -, ⟨-, -, hfinal⟩ | ⟨-, rfl⟩⟩ := terminatePrevious_cases hended
    · exact hP.final _ _ _ _ _ _ h₁ hfinal
    · exact h₁
  rcases hdone with ⟨hret, -⟩ | ⟨-, -, -, s, hs, -, rfl⟩
  · exact hP.giveBack _ _ _ _ h₂ hret
  · exact hP.encrypt _ _ _ _ h₂ hs

theorem Stable.cipherInit (hP : Stable P) {ctx ctx' : CipherCtx} {env : CipherInitResults} (he : P e)
    (h : pk11CipherInit e ctx key env = some (e', ctx', ret)) : P e' := by
  obtain ⟨e₁, hret, hrest⟩ := pk11CipherInit_cases h
  have h₁ := hP.giveBack _ _ _ _ he hret
  rcases hrest with ⟨rfl, -⟩ | ⟨row, e₂, sp, -, hget, hrest⟩
  · exact h₁
  have h₂ := hP.get _ _ _ _ _ h₁ hget
  rcases hrest with ⟨-, rfl, -⟩ | ⟨-, hinit⟩
  · exact h₂
  obtain ⟨e₃, s, hcheck, -, ⟨-, -, -, hsym⟩ | hkey⟩ := initWithSession_cases hinit
  · exact hP.initSymmetric (hP.check _ _ _ _ _ h₂ hcheck) hsym
  · exact hP.initWithKey (hP.check _ _ _ _ _ h₂ hcheck) hkey

theorem Stable.cipherCleanup (hP : Stable P) {ctx ctx' : CipherCtx} {final : Rv} (he : P e)
    (h : pk11CipherCleanup e ctx final = some (e', ctx', ret)) : P e' := by
  rcases pk11CipherCleanup_cases h with ⟨-, rfl, -⟩ | ⟨-, hret, -⟩
  · exact he
  · exact hP.giveBack _ _ _ _ he hret

theorem Stable.digestInit (hP : Stable P) {ctx ctx' : DigestCtx} {env : DigestInitResults} (he : P e)
    (h : pk11DigestInit e ctx env = some (e', ctx', ret)) : P e' := by
  rcases pk11DigestInit_cases h with ⟨rfl, -⟩ | ⟨e₁, sp, hget, hrest⟩
  · exact he
  have h₁ := hP.get _ _ _ _ _ he hget
  rcases hrest with ⟨-, rfl, -⟩ | ⟨-, hret, -⟩ | ⟨-, rfl, -⟩
  · exact h₁
  · exact hP.giveBack _ _ _ _ h₁ hret
  · exact h₁

theorem Stable.kept (hP : Stable P) {ctx ctx' : DigestCtx} (he : P e) (h : Kept e ctx e' ctx') : P e' := by
  cases h with
  | same => exact he
  | givenBack _ hret => exact hP.giveBack _ _ _ _ he hret

theorem Stable.perform (hP : Stable P) {o : Op} {w w' : World} (ho : NoFork o w) (hw : P w.eng)
    (h : perform o w = some w') : P w'.eng := by
  cases o with
  | fork child => exact absurd rfl (ho child)
  | getSession h t env =>
      obtain ⟨⟨e₁, sp⟩, hget, rfl⟩ := Option.map_eq_some_iff.mp h
      exact hP.get _ _ _ _ _ hw hget
  | returnSession h =>
      obtain ⟨e₁, hret, rfl⟩ := Option.map_eq_some_iff.mp h
      exact hP.giveBack _ _ _ _ hw hret
  | cipherInit c q key env =>
      obtain ⟨⟨e₁, ctx, ok⟩, hinit, rfl⟩ := Option.map_eq_some_iff.mp h
      exact hP.cipherInit hw hinit
  | doCipher c inl r =>
      obtain ⟨b, -, rfl⟩ := Option.map_eq_some_iff.mp h
      exact hw
  | cipherCleanup c final =>
      obtain ⟨⟨e₁, ctx, ok⟩, hclean, rfl⟩ := Option.map_eq_some_iff.mp h
      exact hP.cipherCleanup hw hclean
  | digestInit d nid mdSize env =>
      obtain ⟨⟨e₁, ctx, ok⟩, hinit, rfl⟩ := Option.map_eq_some_iff.mp h
      exact hP.digestInit hw hinit
  | digestUpdate d count rv =>
      obtain ⟨⟨e₁, ctx, ok⟩, hkept, rfl⟩ := Option.map_eq_some_iff.mp h
      exact hP.kept hw (pk11DigestUpdate_kept hkept)
  | digestFinal d r =>
      obtain ⟨⟨e₁, ctx, ok⟩, hkept, rfl⟩ := Option.map_eq_some_iff.mp h
      exact hP.kept hw (pk11DigestFinal_kept hkept)
  | digestCopy d source env =>
      obtain ⟨⟨e₁, ctx, ok⟩, hcopy, rfl⟩ := Option.map_eq_some_iff.mp h
      rcases pk11DigestCopy_cases hcopy with ⟨heq, -⟩ | ⟨ok', hinit⟩
      · have hsame : e₁ = w.eng := heq
        exact hsame ▸ hw
      · exact hP.digestInit hw hinit
  | digestCleanup d r =>
      obtain ⟨⟨e₁, ctx, ok⟩, hkept, rfl⟩ := Option.map_eq_some_iff.mp h
      exact hP.kept hw (pk11DigestCleanup_kept hkept)

theorem Stable.reachable (hP : Stable P) (hstart : ∀ w, Started w → P w.eng) {w : World}
    (h : Reachable step NoFork Started w) : P w.eng :=
  h.invariant (fun w => P w.eng) hstart fun _ _ _ hw ho hs => hP.perform ho hw (perform_of_step hs)

theorem OneProcess.works {sp : Addr} (hone : OneProcess e) (h : Works e e' sp) : OneProcess e' := by
  refine ⟨by rw [h.self]; exact hone.self, by rw [h.pid, h.self]; exact hone.pid, fun a s hs => ?_⟩
  rw [h.self]
  by_cases ha : a = sp
  · subst ha
    have hhere := h.here
    rw [hs, Option.map_some] at hhere
    obtain ⟨u, hu, hpid⟩ := Option.map_eq_some_iff.mp hhere.symm
    rw [← hpid]
    exact hone.sessions a u hu
  · exact hone.sessions a s ((h.others a ha).symm.trans hs)

theorem oneProcess_stable : Stable OneProcess where
  get := fun _ _ _ _ _ hone h => hone.after_get h
  giveBack := fun _ _ _ _ hone h => hone.after_return h
  check := fun _ _ _ _ _ hone h => OneProcess.works hone (checkNewCipherKey_works h)
  create := fun _ _ _ _ _ _ hone h => OneProcess.works hone (pk11GetCipherKey_works h)
  final := fun _ _ _ _ _ _ hone h => OneProcess.works hone (pk11CipherFinal_works h)
  encrypt := fun _ _ _ _ hone hs => hone.store hs rfl

theorem started_oneProcess {w : World} (h : Contexts.Started w) : OneProcess w.eng where
  self := h.self
  pid := .inl h.pid
  sessions := fun a s hs => by
    rw [h.heap] at hs
    cases hs

/-- The session that pk11_cipher_init gets from the list: the one that it has just
given back, or the first. -/
def nextSession (e : Engine) (ctx : CipherCtx) : Addr := if ctx.sp = 0 then e.sessionCache .cipher else ctx.sp

theorem cipher_of_get {ctx : CipherCtx} {e₁ : Engine} {sp : Addr} {s : Pk11Session} {env : GetResults}
    (hone : OneProcess e) (hret : pk11ReturnSession e ctx.sp .cipher = some e₁)
    (hget : pk11GetSession e₁ .cipher env = some (e', sp)) (hsp : sp ≠ 0) (hs : e'.session? sp = some s) :
    s.cipher.cipherKey = ckInvalidHandle ∨
      (sp = nextSession e ctx ∧ e'.objects = e.objects ∧ ∃ u, e.session? sp = some u ∧ u.cipher = s.cipher) := by
  -- the list after the old session has been given back
  have hlist : e₁.objects = e.objects ∧ e₁.sessionCache .cipher = nextSession e ctx ∧
      ∀ s, e₁.session? (nextSession e ctx) = some s →
        ∃ u, e.session? (nextSession e ctx) = some u ∧ u.cipher = s.cipher := by
    by_cases hctx : ctx.sp = 0
    · rw [pk11ReturnSession, if_pos hctx] at hret
      cases hret
      rw [nextSession, if_pos hctx]
      exact ⟨rfl, rfl, fun s hs => ⟨s, hs, rfl⟩⟩
    · rw [nextSession, if_neg hctx]
      obtain ⟨u, hu, hput⟩ := hone.returned hctx hret
      refine ⟨hput.objects, by rw [hput.cache, Function.update_self], fun s hs => ⟨u, hu, ?_⟩⟩
      obtain rfl := Option.some.inj (hput.here.symm.trans hs)
      rfl
  obtain ⟨-, hquiet⟩ := (hone.after_return hret).get hget
  cases hquiet with
  | nothing => exact absurd rfl hsp
  | reused hhead hs₀ hhere _ _ hobjects _ =>
      obtain rfl := Option.some.inj (hhere.symm.trans hs)
      rw [hlist.2.1] at hs₀
      obtain ⟨u, hu, hcipher⟩ := hlist.2.2 _ hs₀
      refine .inr ⟨hlist.2.1, hobjects.trans hlist.1, u, ?_, hcipher⟩
      rw [hlist.2.1]
      exact hu
  | new _ _ hhere =>
      obtain rfl := Option.some.inj (hhere.symm.trans hs)
      exact .inl (readySession_new ..)

end OiUserland.Pkcs11.EngineInvariants
