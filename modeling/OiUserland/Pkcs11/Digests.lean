import OiUserland.Pkcs11.Sessions

namespace OiUserland.Pkcs11.Digests

open Types Process Sessions

/-- NID_* of the digests of the table, and any other. -/
inductive MdNid
  | md5
  | sha1
  | sha224
  | sha256
  | sha384
  | sha512
  | undef
  | other (n : Nat)
  deriving DecidableEq

def digests : List (Nat × MdNid) :=
  [(0, .md5), (1, .sha1), (2, .sha224), (3, .sha256), (4, .sha384), (5, .sha512), (0, .undef)]

def pk11DigestMax : Nat := 6

def mdNidToPk11 (nid : MdNid) : Option Nat := ((digests.take pk11DigestMax).find? fun d => d.2 = nid).map Prod.fst

structure DigestCtx where
  nid : MdNid := .undef
  mdSize : Nat := 0
  ctxSize : Nat := 8
  mdData : Bool := true
  sp : Addr := 0
  deriving DecidableEq

structure DigestInitResults where
  get : GetResults := {}
  init : Rv := ckrOk

def pk11DigestInit (e : Engine) (ctx : DigestCtx) (env : DigestInitResults) :
    Option (Engine × DigestCtx × Bool) := do
  let ctx := { ctx with sp := 0 }
  match mdNidToPk11 ctx.nid with
  | none => some (e, ctx, false)
  | some _ =>
      let (e, sp) ← pk11GetSession e .digest env.get
      if sp = 0 then some (e, ctx, false)
      else if env.init ≠ ckrOk then (pk11ReturnSession e sp .digest).map fun e => (e, ctx, false)
      else some (e, { ctx with sp := sp }, true)

def giveBack (e : Engine) (ctx : DigestCtx) (ret : Bool) : Option (Engine × DigestCtx × Bool) :=
  (pk11ReturnSession e ctx.sp .digest).map fun e => (e, { ctx with sp := 0 }, ret)

def pk11DigestUpdate (e : Engine) (ctx : DigestCtx) (count : Nat) (rv : Rv) : Option (Engine × DigestCtx × Bool) :=
  if count = 0 then some (e, ctx, true)
  else if !ctx.mdData ∨ ctx.sp = 0 then some (e, ctx, false)
  else (e.session? ctx.sp).bind fun _ => if rv ≠ ckrOk then giveBack e ctx false else some (e, ctx, true)

/-- The outcome of C_DigestFinal: its value and the length of the digest. -/
structure FinalResult where
  rv : Rv := ckrOk
  len : Nat := 0

def pk11DigestFinal (e : Engine) (ctx : DigestCtx) (r : FinalResult) : Option (Engine × DigestCtx × Bool) :=
  if !ctx.mdData ∨ ctx.sp = 0 then some (e, ctx, false)
  else (e.session? ctx.sp).bind fun _ =>
    if r.rv ≠ ckrOk then giveBack e ctx false
    else if ctx.mdSize ≠ r.len then some (e, ctx, false)
    else giveBack e ctx true

/-- The outcomes in pk11_digest_copy: of pk11_digest_init, of the two calls of
C_GetOperationState with the length, of the allocation and C_SetOperationState. -/
structure CopyResults where
  init : DigestInitResults := {}
  getLen : Rv := ckrOk
  len : Nat := 1
  malloc : Bool := true
  getState : Rv := ckrOk
  setState : Rv := ckrOk

def pk11DigestCopy (e : Engine) (ctx source : DigestCtx) (env : CopyResults) : Option (Engine × DigestCtx × Bool) :=
  if !source.mdData ∨ ctx.ctxSize = 0 then some (e, ctx, true)
  else if source.sp = 0 then some (e, ctx, false)
  else (pk11DigestInit e ctx env.init).bind fun (e, ctx, ok) =>
    if !ok then some (e, ctx, false)
    else (e.session? source.sp).map fun _ =>
      (e, ctx, env.getLen = ckrOk ∧ env.len ≠ 0 ∧ env.malloc = true ∧ env.getState = ckrOk ∧ env.setState = ckrOk)

def pk11DigestCleanup (e : Engine) (ctx : DigestCtx) (r : FinalResult) : Option (Engine × DigestCtx × Bool) :=
  if ctx.mdData ∧ ctx.sp ≠ 0 then pk11DigestFinal e ctx r else some (e, ctx, true)

end OiUserland.Pkcs11.Digests

namespace OiUserland.Pkcs11.DigestSteps

open Types Process Sessions Digests

variable {e e' : Engine} {ctx ctx' source : DigestCtx} {ret : Bool}

/-- pk11_digest_init forgets the session of its context, and takes another one
unless something fails. -/
theorem pk11DigestInit_cases {env : DigestInitResults} (h : pk11DigestInit e ctx env = some (e', ctx', ret)) :
    (e' = e ∧ ctx' = { ctx with sp := 0 } ∧ ret = false) ∨
      ∃ e₁ sp, pk11GetSession e .digest env.get = some (e₁, sp) ∧
        ((sp = 0 ∧ e' = e₁ ∧ ctx' = { ctx with sp := 0 } ∧ ret = false) ∨
          (sp ≠ 0 ∧ pk11ReturnSession e₁ sp .digest = some e' ∧ ctx' = { ctx with sp := 0 } ∧ ret = false) ∨
          (sp ≠ 0 ∧ e' = e₁ ∧ ctx' = { ctx with sp := sp } ∧ ret = true)) := by
  simp only [pk11DigestInit, Option.bind_eq_bind] at h
  cases hnid : mdNidToPk11 ctx.nid with
  | none =>
      simp only [hnid] at h
      cases h
      exact .inl ⟨rfl, rfl, rfl⟩
  | some i =>
      simp only [hnid] at h
      obtain ⟨⟨e₁, sp⟩, hget, hdone⟩ := Option.bind_eq_some_iff.mp h
      refine .inr ⟨e₁, sp, hget, ?_⟩
      by_cases hsp : sp = 0
      · simp only [hsp, if_true] at hdone
        cases hdone
        exact .inl ⟨hsp, rfl, rfl, rfl⟩
      · simp only [hsp, if_false] at hdone
        by_cases hinit : env.init = ckrOk
        · rw [if_neg (not_not.mpr hinit)] at hdone
          cases hdone
          exact .inr (.inr ⟨hsp, rfl, rfl, rfl⟩)
        · rw [if_pos hinit] at hdone
          obtain ⟨e₂, hret, hdone⟩ := Option.map_eq_some_iff.mp hdone
          cases hdone
          exact .inr (.inl ⟨hsp, hret, rfl, rfl⟩)

inductive Kept (e : Engine) (ctx : DigestCtx) : Engine → DigestCtx → Prop
  | same : Kept e ctx e ctx
  | givenBack {e' : Engine} (hsp : ctx.sp ≠ 0) (h : pk11ReturnSession e ctx.sp .digest = some e') :
      Kept e ctx e' { ctx with sp := 0 }

theorem giveBack_kept (hsp : ctx.sp ≠ 0) {ok : Bool} (h : giveBack e ctx ok = some (e', ctx', ret)) :
    Kept e ctx e' ctx' := by
  obtain ⟨e₁, hret, hdone⟩ := Option.map_eq_some_iff.mp h
  cases hdone
  exact .givenBack hsp hret

theorem pk11DigestUpdate_kept {count : Nat} {rv : Rv} (h : pk11DigestUpdate e ctx count rv = some (e', ctx', ret)) :
    Kept e ctx e' ctx' := by
  rw [pk11DigestUpdate] at h
  split at h
  · cases h
    exact .same
  · split at h
    · cases h
      exact .same
    · rename_i hsp
      obtain ⟨s, -, h⟩ := Option.bind_eq_some_iff.mp h
      split at h
      · exact giveBack_kept (fun h => hsp (.inr h)) h
      · cases h
        exact .same

theorem pk11DigestFinal_kept {r : FinalResult} (h : pk11DigestFinal e ctx r = some (e', ctx', ret)) :
    Kept e ctx e' ctx' := by
  rw [pk11DigestFinal] at h
  split at h
  · cases h
    exact .same
  · rename_i hsp
    have hsp : ctx.sp ≠ 0 := fun h => hsp (.inr h)
    obtain ⟨s, -, h⟩ := Option.bind_eq_some_iff.mp h
    split at h
    · exact giveBack_kept hsp h
    · split at h
      · cases h
        exact .same
      · exact giveBack_kept hsp h

theorem pk11DigestCleanup_kept {r : FinalResult} (h : pk11DigestCleanup e ctx r = some (e', ctx', ret)) :
    Kept e ctx e' ctx' := by
  rw [pk11DigestCleanup] at h
  split at h
  · exact pk11DigestFinal_kept h
  · cases h
    exact .same

theorem pk11DigestCopy_cases {env : CopyResults} (h : pk11DigestCopy e ctx source env = some (e', ctx', ret)) :
    (e' = e ∧ ctx' = ctx) ∨ ∃ ok, pk11DigestInit e ctx env.init = some (e', ctx', ok) := by
  rw [pk11DigestCopy] at h
  split at h
  · cases h
    exact .inl ⟨rfl, rfl⟩
  · split at h
    · cases h
      exact .inl ⟨rfl, rfl⟩
    · obtain ⟨⟨e₁, ctx₁, ok⟩, hinit, h⟩ := Option.bind_eq_some_iff.mp h
      refine .inr ⟨ok, ?_⟩
      cases ok
      · cases h
        exact hinit
      · obtain ⟨s, -, h⟩ := Option.map_eq_some_iff.mp h
        cases h
        exact hinit

end OiUserland.Pkcs11.DigestSteps
