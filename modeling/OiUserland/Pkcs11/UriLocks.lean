import OiUserland.Pkcs11.Uri

namespace OiUserland.Pkcs11.UriLocks

open Lib.Mutexes Types Process Library Uri

variable {e e' e'' : Engine}

def Handlers (e : Engine) : Prop := e.atforkInitialized = true ∧ e.libraryInitialized = true

def HoldsForkLock (e : Engine) : Prop := ∃ k ∈ forkLocks e, k ∈ e.locks.held

theorem nodup_forkLocks (e : Engine) : (forkLocks e).Nodup := by
  simp [forkLocks, Engine.lockOf]

theorem perm_forkUnlocks (e : Engine) : (forkUnlocks e).Perm (forkLocks e) :=
  List.Perm.map _ (by decide)

/-- Getting a PIN changes nothing but the copies of the PIN and the locks. -/
def PinFrame (e e' : Engine) : Prop := e' = { e with pins := e'.pins, locks := e'.locks }

theorem PinFrame.refl (e : Engine) : PinFrame e e := rfl

theorem PinFrame.trans (h : PinFrame e e') (h' : PinFrame e' e'') : PinFrame e e'' :=
  Eq.trans h' (congrArg (fun x : Engine => { x with pins := e''.pins, locks := e''.locks }) h)

theorem pinFrame_locks (e : Engine) (k : LockState Lock) : PinFrame e { e with locks := k } := rfl

theorem forkInParent_frame (e : Engine) : PinFrame e (forkInParent e) := by
  have hprepare (e : Engine) : PinFrame e (pk11ForkPrepare e) := by
    rw [pk11ForkPrepare]
    split
    · exact .refl e
    · exact pinFrame_locks e _
  have hparent (e : Engine) : PinFrame e (pk11ForkParent e) := by
    rw [pk11ForkParent]
    split
    · exact .refl e
    · exact pinFrame_locks e _
  rw [forkInParent]
  split
  · exact (hprepare e).trans (hparent _)
  · exact .refl e

theorem forkInParent_outcome (e : Engine) :
    Outcome (Handlers e ∧ HoldsForkLock e) e.locks (forkInParent e).locks := by
  by_cases hh : Handlers e
  · have heq : (forkInParent e).locks = unlockAll (forkUnlocks e) (lockAll (forkLocks e) e.locks) := by
      simp [forkInParent, pk11ForkPrepare, pk11ForkParent, hh.1, hh.2, forkUnlocks, Engine.lockOf]
    rw [heq]
    refine ⟨fun ⟨_, k, hk, hheld⟩ => ?_, fun hno => ?_⟩
    · rw [blocked_unlockAll]
      exact lockAll_of_mem hk hheld
    · exact unlockAll_lockAll (nodup_forkLocks e) (fun k hk hheld => hno ⟨hh, k, hk, hheld⟩) (perm_forkUnlocks e)
  · refine ⟨fun h => absurd h.1 hh, fun _ => ?_⟩
    cases ha : e.atforkInitialized <;> cases hl : e.libraryInitialized
    · simp [forkInParent, ha]
    · simp [forkInParent, ha]
    · simp [forkInParent, pk11ForkPrepare, pk11ForkParent, ha, hl]
    · exact absurd ⟨ha, hl⟩ hh

/-- pk11_get_pin forks to run a command. -/
def PinForks (dialog : Dialog) (env : PinResults) : Prop :=
  (∃ s, dialog = .spec s ∧ s.getLast? = some '|') ∧ env.strndup = true ∧ env.pipe = true

/-- pk11_get_pin gets a PIN. -/
def PinGiven (dialog : Dialog) (env : PinResults) : Prop :=
  match dialog with
  | .builtin => env.getpassphrase.isSome ∧ env.strdup = true
  | .spec _ => PinForks dialog env ∧ env.fork = true ∧ env.malloc = true ∧ env.read.isSome

theorem runAskpass_frame (e : Engine) (env : PinResults) : PinFrame e (runAskpass e env).1 := by
  have hfork := forkInParent_frame e
  simp only [runAskpass]
  split
  · exact .refl e
  · split
    · exact hfork
    · split
      · exact hfork
      · split
        · exact hfork
        · exact hfork.trans rfl

theorem runAskpass_locks (e : Engine) (env : PinResults) :
    (runAskpass e env).1.locks = if env.pipe then (forkInParent e).locks else e.locks := by
  cases hpipe : env.pipe
  · simp [runAskpass, hpipe]
  · cases hfork : env.fork
    · simp [runAskpass, hpipe, hfork]
    · cases hmalloc : env.malloc
      · simp [runAskpass, hpipe, hfork, hmalloc]
      · cases hread : env.read <;> simp [runAskpass, hpipe, hfork, hmalloc, hread]

theorem runAskpass_outcome (e : Engine) (env : PinResults) :
    Outcome (env.pipe = true ∧ Handlers e ∧ HoldsForkLock e) e.locks (runAskpass e env).1.locks := by
  rw [runAskpass_locks]
  cases hpipe : env.pipe
  · exact (Outcome.refl _).congr (by simp)
  · exact (forkInParent_outcome e).congr (by simp)

theorem pk11GetPin_frame (e : Engine) (d : Dialog) (env : PinResults) : PinFrame e (pk11GetPin e d env).1 := by
  cases d with
  | builtin =>
      simp only [pk11GetPin]
      split
      · rfl
      · split <;> rfl
  | spec s =>
      simp only [pk11GetPin]
      split
      · split
        · exact .refl e
        · exact runAskpass_frame e env
      · exact .refl e

theorem pk11GetPin_outcome (d : Dialog) (env : PinResults) (huri : e.lockOf .uri ∉ e.locks.held) :
    Outcome (PinForks d env ∧ Handlers e ∧ HoldsForkLock e) e.locks (pk11GetPin e d env).1.locks := by
  cases d with
  | builtin =>
      have hlocks : (pk11GetPin e .builtin env).1.locks = unlock (e.lockOf .uri) (lock (e.lockOf .uri) e.locks) := by
        simp only [pk11GetPin]
        split
        · rfl
        · split <;> rfl
      rw [hlocks, unlock_lock huri]
      exact (Outcome.refl _).congr (by simp [PinForks])
  | spec s =>
      by_cases hbar : s.getLast? = some '|'
      · cases hdup : env.strndup
        · simp only [pk11GetPin, hbar, hdup, if_true, Bool.not_false]
          exact (Outcome.refl _).congr (by simp [PinForks, hdup])
        · simp only [pk11GetPin, hbar, hdup, if_true, Bool.not_true, Bool.false_eq_true, if_false]
          exact (runAskpass_outcome e env).congr (by simp [PinForks, hbar, hdup])
      · simp only [pk11GetPin, hbar, if_false]
        exact (Outcome.refl _).congr (by simp [PinForks, hbar])

theorem runAskpass_isSome (e : Engine) (env : PinResults) :
    (runAskpass e env).2.isSome ↔ env.pipe = true ∧ env.fork = true ∧ env.malloc = true ∧ env.read.isSome := by
  cases hpipe : env.pipe
  · simp [runAskpass, hpipe]
  · cases hfork : env.fork
    · simp [runAskpass, hpipe, hfork]
    · cases hmalloc : env.malloc
      · simp [runAskpass, hpipe, hfork, hmalloc]
      · cases hread : env.read <;> simp [runAskpass, hpipe, hfork, hmalloc, hread]

theorem pk11GetPin_isSome (e : Engine) (d : Dialog) (env : PinResults) :
    (pk11GetPin e d env).2.isSome ↔ PinGiven d env := by
  cases d with
  | builtin =>
      cases hpass : env.getpassphrase with
      | none => simp [pk11GetPin, PinGiven, hpass]
      | some pin => cases hdup : env.strdup <;> simp [pk11GetPin, PinGiven, hpass, hdup]
  | spec s =>
      by_cases hbar : s.getLast? = some '|'
      · cases hdup : env.strndup
        · simp [pk11GetPin, PinGiven, PinForks, hbar, hdup]
        · simp only [pk11GetPin, hbar, hdup, if_true, Bool.not_true, Bool.false_eq_true, if_false,
            runAskpass_isSome, PinGiven, PinForks]
          simp [hbar]
      · simp [pk11GetPin, PinGiven, PinForks, hbar]

def policyInForce (e : Engine) : Policy := if e.policy ≠ .notInitialized then e.policy else policyOf e.policyEnv

theorem pk11GetPinCachingPolicy_snd (e : Engine) : (pk11GetPinCachingPolicy e).2 = policyInForce e := by
  simp only [pk11GetPinCachingPolicy, policyInForce]
  split
  · rfl
  · split <;> rfl

theorem pk11GetPinCachingPolicy_eq (e : Engine) : ∃ p, (pk11GetPinCachingPolicy e).1 = { e with policy := p } := by
  simp only [pk11GetPinCachingPolicy]
  split
  · exact ⟨e.policy, rfl⟩
  · split
    · exact ⟨e.policy, rfl⟩
    · exact ⟨_, rfl⟩

theorem policyOf_ne (value : Option (List Char)) : policyOf value ≠ .notInitialized := by
  cases value with
  | none => simp [policyOf]
  | some value =>
      simp only [policyOf]
      split_ifs <;> simp

theorem policyInForce_ne (e : Engine) : policyInForce e ≠ .notInitialized := by
  by_cases h : e.policy ≠ .notInitialized
  · rw [policyInForce, if_pos h]
    exact h
  · rw [policyInForce, if_neg h]
    exact policyOf_ne _

theorem pk11GetPinCachingPolicy_again (e : Engine) :
    policyInForce (pk11GetPinCachingPolicy e).1 = policyInForce e := by
  by_cases hp : e.policy ≠ .notInitialized
  · rw [pk11GetPinCachingPolicy, if_pos hp]
  · by_cases hw : policyOf e.policyEnv = .wrongValue
    · simp only [pk11GetPinCachingPolicy, if_neg hp, hw, if_true]
    · simp only [pk11GetPinCachingPolicy, if_neg hp, if_neg hw, policyInForce, if_pos (policyOf_ne e.policyEnv)]

theorem pk11GetPinCachingPolicy_locks (e : Engine) : (pk11GetPinCachingPolicy e).1.locks = e.locks := by
  obtain ⟨p, hp⟩ := pk11GetPinCachingPolicy_eq e
  rw [hp]

theorem storePin_locks (e : Engine) (pin : Pin) (env : CacheResults) : (storePin e pin env).1.locks = e.locks := by
  have hmlock (e : Engine) : (mlockPinInMemory e pin env).1.locks = e.locks := by
    simp only [mlockPinInMemory]
    split_ifs <;> rfl
  simp only [storePin]
  split_ifs
  · rfl
  · exact pk11GetPinCachingPolicy_locks e
  · exact pk11GetPinCachingPolicy_locks e
  · rw [hmlock, pk11GetPinCachingPolicy_locks, pk11GetPinCachingPolicy_locks]
  · rw [pk11GetPinCachingPolicy_locks, pk11GetPinCachingPolicy_locks]

/-- pk11_cache_pin holds uri_lock throughout. -/
theorem pk11CachePin_locks (e : Engine) (pin : Pin) (env : CacheResults) :
    (pk11CachePin e pin env).1.locks = unlock (e.lockOf .uri) (lock (e.lockOf .uri) e.locks) :=
  congrArg (unlock (e.lockOf .uri)) (storePin_locks (e.acquire (e.lockOf .uri)) pin env)

theorem pk11CachePin_outcome (pin : Pin) (env : CacheResults) :
    Outcome (e.lockOf .uri ∈ e.locks.held) e.locks (pk11CachePin e pin env).1.locks := by
  rw [pk11CachePin_locks]
  by_cases h : e.lockOf .uri ∈ e.locks.held
  · exact (Outcome.relock h).congr (by simp [h])
  · rw [unlock_lock h]
    exact (Outcome.refl _).congr (by simp [h])

def PolicyCaches (e : Engine) : Prop := policyInForce e = .memory ∨ policyInForce e = .mlockedMemory

theorem cacheByPolicy_outcome (pin : Pin) (env : CacheResults) (huri : e.lockOf .uri ∈ e.locks.held) :
    Outcome (PolicyCaches e) e.locks (cacheByPolicy e pin env).1.locks := by
  have hlocks := pk11GetPinCachingPolicy_locks
  have hlock : ∀ e : Engine, (pk11GetPinCachingPolicy e).1.lockOf .uri = e.lockOf .uri := by
    intro e
    obtain ⟨p, hp⟩ := pk11GetPinCachingPolicy_eq e
    rw [hp]
    rfl
  have hne := policyInForce_ne e
  simp only [cacheByPolicy, pk11GetPinCachingPolicy_snd, pk11GetPinCachingPolicy_again]
  by_cases hw : policyInForce e = .wrongValue
  · rw [if_pos hw, hlocks]
    exact (Outcome.refl _).congr (by simp [PolicyCaches, hw])
  · by_cases hn : policyInForce e = .none
    · rw [if_neg hw, if_neg (not_not.mpr hn), hlocks, hlocks]
      exact (Outcome.refl _).congr (by simp [PolicyCaches, hn])
    · rw [if_neg hw, if_pos hn]
      have hcache := pk11CachePin_outcome (e := (pk11GetPinCachingPolicy (pk11GetPinCachingPolicy e).1).1) pin env
      rw [hlocks, hlocks, hlock, hlock] at hcache
      refine hcache.congr ⟨fun _ => ?_, fun _ => huri⟩
      cases hp : policyInForce e with
      | notInitialized => exact absurd hp hne
      | none => exact absurd hp hn
      | wrongValue => exact absurd hp hw
      | memory => exact .inl hp
      | mlockedMemory => exact .inr hp

/-- After C_Login the PIN goes to the cache. -/
def PinCached (e : Engine) (d : Dialog) (env : LoginResults) : Prop :=
  (e.passphrasedialog ≠ none ∨ d = .builtin ∨ env.strdupDialog = true) ∧ PolicyCaches e

theorem keepLogin_outcome (d : Dialog) (pin : Pin) (env : LoginResults) (huri : e.lockOf .uri ∈ e.locks.held) :
    Outcome (PinCached e d env) e.locks (keepLogin e d pin env).1.locks := by
  simp only [keepLogin]
  by_cases hcopy : e.passphrasedialog = none ∧ ¬ (d = .builtin ∨ env.strdupDialog = true)
  · rw [if_pos hcopy]
    refine (Outcome.refl _).congr ⟨False.elim, fun h => ?_⟩
    rcases h.1 with h | h
    · exact h hcopy.1
    · exact hcopy.2 h
  · have hremember : (rememberDialog e d).locks = e.locks ∧ (rememberDialog e d).lockOf .uri = e.lockOf .uri ∧
        policyInForce (rememberDialog e d) = policyInForce e := by
      rw [rememberDialog]
      split <;> exact ⟨rfl, rfl, rfl⟩
    obtain ⟨hl, hu, hp⟩ := hremember
    rw [if_neg hcopy]
    have hcache := cacheByPolicy_outcome (e := rememberDialog e d) pin env.cache (by rw [hl, hu]; exact huri)
    rw [hl, PolicyCaches, hp] at hcache
    refine hcache.congr ⟨fun h => ⟨?_, h⟩, fun h => h.2⟩
    tauto

theorem loginLocked_outcome (d : Dialog) (pin : Pin) (env : LoginResults) (huri : e.lockOf .uri ∈ e.locks.held) :
    Outcome (env.raced = false ∧ env.login = ckrOk ∧ PinCached e d env) e.locks (loginLocked e d pin env).1.locks := by
  cases hraced : env.raced
  · by_cases hlogin : env.login = ckrOk
    · simp only [loginLocked, hraced, hlogin, ne_eq, not_true_eq_false, if_false, Bool.false_eq_true]
      exact (keepLogin_outcome d pin env huri).congr (by simp)
    · simp only [loginLocked, hraced, hlogin, ne_eq, not_false_eq_true, if_true, if_false, Bool.false_eq_true]
      exact (Outcome.refl _).congr (by simp)
  · simp only [loginLocked, hraced, if_true]
    exact (Outcome.refl _).congr (by simp)

theorem loginWithPin_outcome (d : Dialog) (pin : Pin) (env : LoginResults) (hfree : e.locks.held = []) :
    Outcome (env.raced = false ∧ env.login = ckrOk ∧ PinCached e d env) e.locks (loginWithPin e d pin env).1.locks := by
  have huri : e.lockOf .uri ∉ e.locks.held := by simp [hfree]
  have hheld : (e.acquire (e.lockOf .uri)).locks.held = [e.lockOf .uri] := by
    rw [Engine.acquire, lock_of_notMem huri, hfree]
  have hlogin := loginLocked_outcome (e := e.acquire (e.lockOf .uri)) d pin env (by
    rw [hheld]
    exact List.mem_cons_self ..)
  exact hlogin.locked huri

theorem loginFirst_outcome (d : Dialog) (env : LoginResults) (hfree : e.locks.held = []) :
    Outcome (PinGiven d env.pin ∧ env.raced = false ∧ env.login = ckrOk ∧ PinCached e d env) e.locks
      (loginFirst e (some d) env).1.locks := by
  have hpin := pk11GetPin_outcome (e := e) d env.pin (by simp [hfree])
  have hframe := pk11GetPin_frame e d env.pin
  have hgiven := pk11GetPin_isSome e d env.pin
  cases hget : pk11GetPin e d env.pin with
  | mk e₁ r =>
      rw [hget] at hpin hframe hgiven
      have hlocks : e₁.locks = e.locks := hpin.2 (by simp [HoldsForkLock, hfree])
      simp only [loginFirst, hget]
      cases r with
      | none =>
          have hno : ¬ PinGiven d env.pin := fun h => by simpa using hgiven.mpr h
          simp only [hlocks]
          exact (Outcome.refl _).congr (by simp [hno])
      | some pin =>
          have hlogin := loginWithPin_outcome (e := e₁) d pin env (hlocks ▸ hfree)
          have hsame : PinCached e₁ d env ↔ PinCached e d env := by
            rw [show e₁ = { e with pins := e₁.pins, locks := e₁.locks } from hframe]
            exact Iff.rfl
          rw [hlocks] at hlogin
          exact hlogin.congr (by rw [hsame]; simp [hgiven.mp rfl])

/-- pk11_token_login gets as far as to cache the PIN. -/
def LoginCaches (e : Engine) (loginDone : Bool) (pinfile : Option Dialog) (isPrivate : Bool) (env : LoginResults) :
    Prop :=
  e.pubkeyTokenFlags.tokenInitialized = true ∧ e.pubkeyTokenFlags.userPinInitialized = true ∧
    (e.pubkeyTokenFlags.loginRequired = true ∨ isPrivate = true) ∧ loginDone = false ∧
    ∃ d, pinfile = some d ∧ PinGiven d env.pin ∧ env.raced = false ∧ env.login = ckrOk ∧ PinCached e d env

theorem pk11TokenLogin_outcome (loginDone : Bool) (pinfile : Option Dialog) (isPrivate : Bool) (env : LoginResults)
    (hfree : e.locks.held = []) :
    Outcome (LoginCaches e loginDone pinfile isPrivate env) e.locks
      (pk11TokenLogin e loginDone pinfile isPrivate env).1.locks := by
  have huri : e.lockOf .uri ∉ e.locks.held := by simp [hfree]
  have hstay (h : ¬ LoginCaches e loginDone pinfile isPrivate env) :
      Outcome (LoginCaches e loginDone pinfile isPrivate env) e.locks e.locks :=
    (Outcome.refl _).congr (by simp [h])
  simp only [pk11TokenLogin]
  split_ifs with h1 h2 h3 h4
  · exact hstay fun h => by simp [h.1] at h1
  · exact hstay fun h => by simp [h.2.1] at h2
  · refine hstay fun h => ?_
    rcases h.2.2.1 with h | h <;> simp [h] at h3
  · simp only [Engine.acquire, Engine.release, unlock_lock huri]
    exact hstay fun h => by simp [h.2.2.2.1] at h4
  · have hflags : e.pubkeyTokenFlags.tokenInitialized = true ∧ e.pubkeyTokenFlags.userPinInitialized = true ∧
        (e.pubkeyTokenFlags.loginRequired = true ∨ isPrivate = true) ∧ loginDone = false := by
      cases hl : e.pubkeyTokenFlags.loginRequired <;> cases isPrivate <;> simp_all
    obtain ⟨f1, f2, f3, f4⟩ := hflags
    cases pinfile with
    | none => exact hstay fun ⟨_, _, _, _, d, hd, _⟩ => absurd hd (by simp)
    | some d => exact (loginFirst_outcome d env hfree).congr (by simp [LoginCaches, f1, f2, f3, f4])

/-- pk11_token_relogin runs a command to get the PIN. -/
def ReloginForks (e : Engine) (env : ReloginResults) : Prop :=
  ∃ d, e.passphrasedialog = some d ∧ e.tokenPin = none ∧ PinForks d env.pin

theorem pinForRelogin_frame (e : Engine) (d : Dialog) (env : PinResults) : PinFrame e (pinForRelogin e d env).1 := by
  rw [pinForRelogin]
  split
  · exact .refl e
  · exact pk11GetPin_frame e d env

/-- pk11_token_relogin has nothing to log in for, or logs in. -/
def Relogs (e : Engine) (env : ReloginResults) : Prop :=
  ∀ d, e.passphrasedialog = some d → (e.tokenPin.isSome ∨ PinGiven d env.pin) ∧ env.login = ckrOk

theorem pinForRelogin_isSome (e : Engine) (d : Dialog) (env : PinResults) :
    (pinForRelogin e d env).2.isSome ↔ e.tokenPin.isSome ∨ PinGiven d env := by
  by_cases hpin : e.tokenPin.isSome
  · simp [pinForRelogin, hpin]
  · simp [pinForRelogin, hpin, pk11GetPin_isSome]

theorem pk11TokenRelogin_ok (e : Engine) (env : ReloginResults) :
    (pk11TokenRelogin e env).2 = true ↔ Relogs e env := by
  cases hd : e.passphrasedialog with
  | none => simp [pk11TokenRelogin, Relogs, hd]
  | some d =>
      have hpin := pinForRelogin_isSome e d env.pin
      have hrelogs : Relogs e env ↔ (e.tokenPin.isSome ∨ PinGiven d env.pin) ∧ env.login = ckrOk := by
        simp [Relogs, hd]
      rw [hrelogs, ← hpin]
      simp only [pk11TokenRelogin, hd]
      cases hget : pinForRelogin e d env.pin with
      | mk e₁ r =>
          cases r with
          | none => simp
          | some pin => by_cases hrv : env.login = ckrOk <;> simp [hrv]; split <;> rfl

theorem pk11TokenRelogin_frame (e : Engine) (env : ReloginResults) : PinFrame e (pk11TokenRelogin e env).1 := by
  have hlocked (e : Engine) (k : Lock) : PinFrame e ((e.acquire k).release k) := pinFrame_locks e _
  simp only [pk11TokenRelogin]
  split
  · exact .refl e
  · rename_i d _
    have hpin := pinForRelogin_frame e d env.pin
    split
    · rename_i hget
      rw [hget] at hpin
      exact hpin
    · rename_i hget
      rw [hget] at hpin
      split_ifs
      · exact hpin.trans (hlocked _ _)
      · exact hpin.trans (hlocked _ _)
      · exact (hpin.trans (hlocked _ _)).trans rfl

theorem pinForRelogin_outcome (d : Dialog) (env : PinResults) (huri : e.lockOf .uri ∉ e.locks.held) :
    Outcome (e.tokenPin = none ∧ PinForks d env ∧ Handlers e ∧ HoldsForkLock e) e.locks
      (pinForRelogin e d env).1.locks := by
  cases hpin : e.tokenPin with
  | none =>
      simp only [pinForRelogin, hpin, Option.isSome_none, Bool.false_eq_true, if_false]
      exact (pk11GetPin_outcome d env huri).congr (by simp)
  | some pin =>
      simp only [pinForRelogin, hpin, Option.isSome_some, if_true]
      exact (Outcome.refl _).congr (by simp)

theorem pk11TokenRelogin_locks {d : Dialog} (env : ReloginResults) (hd : e.passphrasedialog = some d) :
    (pk11TokenRelogin e env).1.locks = (pinForRelogin e d env.pin).1.locks ∨
      (pk11TokenRelogin e env).1.locks =
        unlock (e.lockOf .uri) (lock (e.lockOf .uri) (pinForRelogin e d env.pin).1.locks) := by
  have hframe := pinForRelogin_frame e d env.pin
  simp only [pk11TokenRelogin, hd]
  cases hget : pinForRelogin e d env.pin with
  | mk e₁ r =>
      rw [hget] at hframe
      have hlock : e₁.lockOf .uri = e.lockOf .uri := by rw [show e₁ = _ from hframe]; rfl
      cases r with
      | none => exact .inl rfl
      | some pin =>
          right
          simp only [hlock]
          split_ifs <;> rfl

theorem pk11TokenRelogin_outcome (env : ReloginResults) (huri : e.lockOf .uri ∉ e.locks.held) :
    Outcome (ReloginForks e env ∧ Handlers e ∧ HoldsForkLock e) e.locks (pk11TokenRelogin e env).1.locks := by
  cases hd : e.passphrasedialog with
  | none =>
      simp only [pk11TokenRelogin, hd]
      exact (Outcome.refl _).congr (by simp [ReloginForks, hd])
  | some d =>
      have hpin := pinForRelogin_outcome d env.pin huri
      have hiff : (e.tokenPin = none ∧ PinForks d env.pin ∧ Handlers e ∧ HoldsForkLock e) ↔
          ReloginForks e env ∧ Handlers e ∧ HoldsForkLock e := by
        simp [ReloginForks, hd, and_assoc]
      replace hpin := hpin.congr hiff
      rcases pk11TokenRelogin_locks env hd with heq | heq
      · rw [heq]
        exact hpin
      · rw [heq]
        refine ⟨fun hb => blocked_lock (hpin.1 hb), fun hb => ?_⟩
        rw [hpin.2 hb, unlock_lock huri]

end OiUserland.Pkcs11.UriLocks
