import OiUserland.Pkcs11.SessionSteps

namespace OiUserland.Pkcs11.LockDiscipline

open Lib.Mutexes Types Process Library Uri UriLocks Sessions SessionSteps

variable {e e' e₁ e₂ : Engine} {sp freelist r : Addr} {t : Pk11OpType} {k : Lock}

/-- A call by a thread that holds none of the locks. -/
inductive Call
  | getSession (t : Pk11OpType) (env : GetResults)
  | returnSession (sp : Addr) (t : Pk11OpType)
  | tokenLogin (loginDone : Bool) (pinfile : Option Dialog) (isPrivate : Bool) (env : LoginResults)
  | tokenRelogin (env : ReloginResults)
  | cachePin (pin : Pin) (env : CacheResults)
  | getPin (dialog : Dialog) (env : PinResults)

def call (e : Engine) : Call → Option Engine
  | .getSession t env => (pk11GetSession e t env).map Prod.fst
  | .returnSession sp t => pk11ReturnSession e sp t
  | .tokenLogin loginDone pinfile isPrivate env => some (pk11TokenLogin e loginDone pinfile isPrivate env).1
  | .tokenRelogin env => some (pk11TokenRelogin e env).1
  | .cachePin pin env => some (pk11CachePin e pin env).1
  | .getPin dialog env => some (pk11GetPin e dialog env).1

/-- pk11_get_session, with the lock of its free list held, runs a command to get
the PIN for the token. -/
def GetForks (e : Engine) (t : Pk11OpType) (env : GetResults) : Prop :=
  Forked e ∧ (e.sessionCache t ≠ 0 ∨ env.addr ≠ 0) ∧ initialized env.cInitialize ∧ env.slots.ok = true ∧
    env.openGlobal.rv = ckrOk ∧ env.setup.openFirst.rv = ckrOk ∧ ReloginForks e env.relogin ∧ Handlers e

/-- The calls that wait for a lock of their own thread. -/
def BlocksItself (e : Engine) : Call → Prop
  | .getSession t env => GetForks e t env
  | .tokenLogin loginDone pinfile isPrivate env => LoginCaches e loginDone pinfile isPrivate env
  | _ => False

theorem pk11SetupSession_locks {env : SetupResults} {ok : Bool} (h : pk11SetupSession e sp t env = some (e', ok)) :
    e'.locks = e.locks := by
  obtain ⟨s, e₁, -, hopening, -, ⟨-, rfl⟩ | ⟨-, rfl, -⟩⟩ := pk11SetupSession_spec h
  · exact hopening.locks
  · exact hopening.locks

theorem initSession_locks {env : SetupResults} (h : initSession e sp t env = some (e', r)) : e'.locks = e.locks := by
  obtain ⟨s, -, ⟨-, rfl, -⟩ | ⟨-, ⟨hsetup, -⟩ | ⟨e₁, hsetup, rfl, -⟩⟩⟩ := initSession_spec h
  · rfl
  · exact pk11SetupSession_locks hsetup
  · exact (pk11SetupSession_locks hsetup : e₁.locks = e.locks)

theorem leaveSession_locks (h : leaveSession e sp k = some (e', r)) : e'.locks = unlock k e.locks := by
  obtain ⟨-, ⟨-, rfl⟩ | ⟨-, s, -, rfl⟩⟩ := leaveSession_spec h <;> rfl

theorem pk11FreeActiveList_locks (hheld : e.lockOf (.find t) ∉ e.locks.held) :
    (pk11FreeActiveList e t).locks = e.locks := by
  rw [pk11FreeActiveList]
  split
  · exact unlock_lock hheld
  · rfl

theorem pk11FreeActiveList_frame (e : Engine) (t : Pk11OpType) :
    pk11FreeActiveList e t = { e with locks := (pk11FreeActiveList e t).locks } := by
  rw [pk11FreeActiveList]
  split <;> rfl

theorem holdsForkLock_iff {g : Nat} (hheld : e.locks.held = [⟨.cache t, g⟩]) :
    HoldsForkLock e ↔ g = e.generation := by
  have hmem : (⟨.cache t, g⟩ : Lock) ∈ forkLocks e ↔ g = e.generation := by
    cases t <;> simp [forkLocks, Engine.lockOf]
  simp only [HoldsForkLock, hheld, List.mem_singleton, exists_eq_right, hmem]

/-- The part of `GetForks` that is settled in the new process. -/
def StartForks (e : Engine) (env : GetResults) : Prop :=
  initialized env.cInitialize ∧ env.slots.ok = true ∧ env.openGlobal.rv = ckrOk ∧
    env.setup.openFirst.rv = ckrOk ∧ ReloginForks e env.relogin ∧ Handlers e

theorem setupAndLogin_outcome {env : GetResults} (hopens : Opens e e₁) (hsame : SameHandlers e e₁)
    (hinit : initialized env.cInitialize) (hslots : env.slots.ok = true) (hopened : env.openGlobal.rv = ckrOk)
    (hsetup : pk11SetupSession e₁ sp t env.setup = some (e₂, true))
    (hheld : e.locks.held = [e.lockOf (.cache t)]) :
    Outcome (StartForks e env) e.locks (pk11TokenRelogin e₂ env.relogin).1.locks := by
  have hlocks : e₂.locks = e.locks := (pk11SetupSession_locks hsetup).trans hopens.locks
  have hheld₂ : e₂.locks.held = [⟨.cache t, e.generation⟩] := by
    rw [hlocks, hheld]
    rfl
  have hrelogin := pk11TokenRelogin_outcome (e := e₂) env.relogin (by simp [hheld₂, Engine.lockOf])
  rw [hlocks, holdsForkLock_iff hheld₂] at hrelogin
  obtain ⟨s, e₁', hs, hopening, hfirst, ⟨h, -⟩ | ⟨-, rfl, -⟩⟩ := pk11SetupSession_spec hsetup
  · cases h
  refine hrelogin.congr ?_
  by_cases hr : Restarts env.setup
  · have hrv : env.setup.openFirst.rv ≠ ckrOk := by
      rw [show env.setup.openFirst.rv = ckrCryptokiNotInitialized from hr]
      decide
    have hgen : e.generation ≠ e₁'.generation := by
      rw [hopening.renewed hr]
      exact fun h => absurd (h.trans (congrArg (· + 1) hopens.generation)) (by simp)
    exact ⟨fun h => absurd h.2.2 hgen, fun h => absurd h.2.2.2.1 hrv⟩
  · obtain ⟨hkept, hflags⟩ := hopening.kept hr
    have hgen : e.generation = e₁'.generation := (hkept.generation.trans hopens.generation).symm
    have hforks : ReloginForks (e₁'.store sp (readySession t { s with session := ckInvalidHandle }
        (setupHandle env.setup) e₁.self)) env.relogin ↔ ReloginForks e env.relogin := by
      simp only [ReloginForks, Engine.store, hopening.passphrasedialog, hopening.tokenPin, hopens.passphrasedialog,
        hopens.tokenPin]
    have hhandlers : Handlers (e₁'.store sp (readySession t { s with session := ckInvalidHandle }
        (setupHandle env.setup) e₁.self)) ↔ Handlers e := by
      simp only [Handlers, Engine.store, hflags.1, hflags.2, hsame.1, hsame.2]
    rw [hforks, hhandlers]
    exact ⟨fun h => ⟨hinit, hslots, hopened, (hfirst hr).mp rfl, h.1, h.2.1⟩, fun h => ⟨h.2.2.2.2.1, h.2.2.2.2.2, hgen⟩⟩

theorem started_outcome {env : GetResults} {exit : Option Addr} (h : Started e sp t env e' exit)
    (hheld : e.locks.held = [e.lockOf (.cache t)]) : Outcome (StartForks e env) e.locks e'.locks := by
  have hstay (hno : ¬ StartForks e env) (hl : e'.locks = e.locks) : Outcome (StartForks e env) e.locks e'.locks := by
    rw [hl]
    exact (Outcome.refl _).congr (by simp [hno])
  cases h with
  | notInitialized hopens h => exact hstay (fun hf => h hf.1) hopens.locks
  | noSlots hopens _ h => exact hstay (fun hf => absurd hf.2.1 (by simp [h])) hopens.locks
  | notOpened hopens _ _ h => exact hstay (fun hf => h hf.2.2.1) hopens.locks
  | notSetUp hopens hinit hslots hopened h =>
      refine hstay (fun hf => ?_) ((pk11SetupSession_locks h).trans hopens.locks)
      obtain ⟨s, e₁', -, -, hfirst, -⟩ := pk11SetupSession_spec h
      have hr : ¬ Restarts env.setup := fun hr => by
        have := hf.2.2.2.1.symm.trans hr
        simp [ckrOk, ckrCryptokiNotInitialized] at this
      exact absurd ((hfirst hr).mpr hf.2.2.2.1) (by simp)
  | notLoggedIn hopens hsame hinit hslots hopened hsetup h =>
      have := setupAndLogin_outcome hopens hsame hinit hslots hopened hsetup hheld
      rwa [h] at this
  | ready hopens hsame hinit hslots hopened hsetup h =>
      have := setupAndLogin_outcome hopens hsame hinit hslots hopened hsetup hheld
      rwa [h] at this

theorem gotForked_outcome {env : GetResults} (h : GotForked e t sp freelist k env e' r)
    (hk : k = e.lockOf (.cache t)) (hheld : e.locks.held = [k]) :
    ∃ m, e'.locks = unlock k m ∧ Outcome (StartForks e env) e.locks m := by
  obtain ⟨heap, e₁, exit, -, hstart, hexit⟩ := h
  have hfree : (pk11FreeActiveList { e with pid := e.self, heap := heap } t).locks = e.locks :=
    pk11FreeActiveList_locks (e := { e with pid := e.self, heap := heap }) (by simp [hheld, hk, Engine.lockOf])
  have hbase : pk11FreeActiveList { e with pid := e.self, heap := heap } t = { e with pid := e.self, heap := heap } := by
    rw [pk11FreeActiveList_frame, hfree]
  rw [hbase] at hstart
  have hout := started_outcome hstart (hheld.trans (congrArg (fun k => [k]) hk))
  refine ⟨e₁.locks, ?_, hout⟩
  rcases hexit with ⟨sp', -, hleave⟩ | ⟨-, e₂, sp₂, hinit, hleave⟩
  · exact leaveSession_locks hleave
  · have hlocks := initSession_locks hinit
    rw [leaveSession_locks hleave, Engine.setHead, hlocks]

theorem pk11GetSession_outcome {env : GetResults} (h : pk11GetSession e t env = some (e', r))
    (hfree : e.locks.held = []) : Outcome (GetForks e t env) e.locks e'.locks := by
  obtain ⟨e₁, sp, freelist, htaken, hrest⟩ := pk11GetSession_cases h
  have hk : e.lockOf (.cache t) ∉ e.locks.held := by simp [hfree]
  have hlock : (underLock e t).locks = lock (e.lockOf (.cache t)) e.locks := rfl
  have hlocks : e₁.locks = lock (e.lockOf (.cache t)) e.locks := by
    cases htaken <;> exact hlock
  rcases hrest with ⟨hsp, -, rfl⟩ | ⟨-, hquiet, e₂, sp₂, hinit, hleave⟩ | ⟨hsp, hforked, hgot⟩
  · have hno : ¬ GetForks e t env := by
      rintro ⟨-, hmem, -⟩
      cases htaken with
      | noMemory hempty haddr => exact hmem.elim (fun h => h hempty) (fun h => h haddr)
      | new _ haddr _ => exact haddr hsp
      | reused hhead _ => exact hhead hsp
    have hback : (e₁.release (e.lockOf (.cache t))).locks = e.locks := by
      rw [Engine.release, hlocks, unlock_lock hk]
    rw [hback]
    exact (Outcome.refl _).congr (by simp [hno])
  · have hback : e'.locks = e.locks := by
      rw [leaveSession_locks hleave]
      have := initSession_locks hinit
      rw [Engine.setHead, this, hlocks, unlock_lock hk]
    rw [hback]
    exact (Outcome.refl _).congr (by simp [GetForks, hquiet])
  · have hsame : e₁.generation = e.generation ∧ (StartForks e₁ env ↔ StartForks e env) := by
      cases htaken <;> exact ⟨rfl, Iff.rfl⟩
    have hheld : e₁.locks.held = [e.lockOf (.cache t)] := by rw [hlocks, lock_of_notMem hk, hfree]
    obtain ⟨m, hm, hout⟩ := gotForked_outcome hgot (by rw [Engine.lockOf, Engine.lockOf, hsame.1]) hheld
    rw [hm]
    rw [hlocks] at hout
    refine (hout.locked hk).congr ⟨fun hf => ?_, fun hf => hsame.2.mpr hf.2.2⟩
    refine ⟨hforked, ?_, hsame.2.mp hf⟩
    cases htaken with
    | noMemory => exact absurd rfl hsp
    | new _ haddr _ => exact .inr haddr
    | reused hhead _ => exact .inl hhead

theorem pk11ReturnSession_locks (h : pk11ReturnSession e sp t = some e') (hfree : e.locks.held = []) :
    e'.locks = e.locks := by
  have hk : e.lockOf (.cache t) ∉ e.locks.held := by simp [hfree]
  rw [pk11ReturnSession] at h
  split at h
  · cases h
    rfl
  · obtain ⟨s, -, h⟩ := Option.map_eq_some_iff.mp h
    split at h
    · cases h
      rfl
    · subst h
      exact unlock_lock hk

theorem call_outcome {c : Call} (h : call e c = some e') (hfree : e.locks.held = []) :
    Outcome (BlocksItself e c) e.locks e'.locks := by
  have huri : e.lockOf .uri ∉ e.locks.held := by simp [hfree]
  have hholds : ¬ HoldsForkLock e := by simp [HoldsForkLock, hfree]
  cases c with
  | getSession t env =>
      obtain ⟨⟨e₁, r⟩, hget, rfl⟩ := Option.map_eq_some_iff.mp h
      exact pk11GetSession_outcome hget hfree
  | returnSession sp t =>
      rw [pk11ReturnSession_locks h hfree]
      exact .refl _
  | tokenLogin loginDone pinfile isPrivate env =>
      cases h
      exact pk11TokenLogin_outcome loginDone pinfile isPrivate env hfree
  | tokenRelogin env =>
      cases h
      exact (pk11TokenRelogin_outcome env huri).congr (by simp [BlocksItself, hholds])
  | cachePin pin env =>
      cases h
      exact (pk11CachePin_outcome pin env).congr (by simp [BlocksItself, huri])
  | getPin dialog env =>
      cases h
      exact (pk11GetPin_outcome dialog env huri).congr (by simp [BlocksItself, hholds])

/-- A call made without a lock neither takes a lock twice nor keeps one, exactly
when it is not one of two: pk11_get_session that has to run a command for the
PIN after a fork, and pk11_token_login that has to cache the PIN. -/
theorem locks_disciplined_iff {c : Call} (hfree : e.locks = {}) (h : call e c = some e') :
    e'.locks = {} ↔ ¬ BlocksItself e c := by
  have hout := call_outcome h (by rw [hfree])
  rw [hfree] at hout
  by_cases hb : BlocksItself e c
  · have := hout.1 hb
    refine ⟨fun heq => ?_, fun hno => absurd hb hno⟩
    rw [heq] at this
    cases this
  · exact ⟨fun _ => hb, fun _ => hout.2 hb⟩

/-- The first session of a process. -/
theorem locks_disciplined_first : ∃ e', call {} (.getSession .rsa {}) = some e' ∧ e'.locks = {} := by
  have hsome : (call {} (.getSession .rsa {})).isSome = true := by decide
  obtain ⟨e', he'⟩ := Option.isSome_iff_exists.mp hsome
  exact ⟨e', he', (locks_disciplined_iff rfl he').mpr fun hf => hf.1.1 rfl⟩

/-- A child that needs a command to get the PIN, and a first login with the PIN
to be kept in memory. -/
theorem locks_undisciplined :
    ¬ (∀ (e e' : Engine) (t : Pk11OpType) (env : GetResults), e.locks = {} →
        call e (.getSession t env) = some e' → e'.locks = {}) ∧
      ¬ (∀ (e e' : Engine) (d : Dialog) (env : LoginResults), e.locks = {} →
        call e (.tokenLogin false (some d) true env) = some e' → e'.locks = {}) := by
  constructor
  · intro h
    have hrun : (call { pid := 1, self := 2, passphrasedialog := some (.spec ['|']) } (.getSession .rsa {})).any
        (fun e' => e'.locks.blocked) = true := by decide
    obtain ⟨e', he', hblocked⟩ := (Option.any_eq_true _ _).mp hrun
    rw [h _ e' _ _ rfl he'] at hblocked
    cases hblocked
  · intro h
    have hrun : (call { policy := .memory } (.tokenLogin false (some .builtin) true {})).any
        (fun e' => e'.locks.blocked) = true := by decide
    obtain ⟨e', he', hblocked⟩ := (Option.any_eq_true _ _).mp hrun
    rw [h _ e' _ _ rfl he'] at hblocked
    cases hblocked

end OiUserland.Pkcs11.LockDiscipline
