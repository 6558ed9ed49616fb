import OiUserland.Pkcs11.Sessions
import OiUserland.Pkcs11.UriLocks

namespace OiUserland.Pkcs11.SessionSteps

open Lib.Chains Types Process Library Uri Sessions UriLocks

structure Opens (e e' : Engine) : Prop where
  heap : e'.heap = e.heap
  sessionCache : e'.sessionCache = e.sessionCache
  pid : e'.pid = e.pid
  self : e'.self = e.self
  opened : e.opened ⊆ e'.opened
  objects : e'.objects = e.objects
  passphrasedialog : e'.passphrasedialog = e.passphrasedialog
  tokenPin : e'.tokenPin = e.tokenPin
  generation : e'.generation = e.generation
  locks : e'.locks = e.locks

variable {e e' e'' : Engine} {env : SetupResults}

theorem Opens.refl (e : Engine) : Opens e e := ⟨rfl, rfl, rfl, rfl, List.Subset.refl _, rfl, rfl, rfl, rfl, rfl⟩

theorem Opens.trans (h : Opens e e') (h' : Opens e' e'') : Opens e e'' where
  heap := h'.heap.trans h.heap
  sessionCache := h'.sessionCache.trans h.sessionCache
  pid := h'.pid.trans h.pid
  self := h'.self.trans h.self
  opened := fun _ ho => h'.opened (h.opened ho)
  objects := h'.objects.trans h.objects
  passphrasedialog := h'.passphrasedialog.trans h.passphrasedialog
  tokenPin := h'.tokenPin.trans h.tokenPin
  generation := h'.generation.trans h.generation
  locks := h'.locks.trans h.locks

theorem cOpenSession_opens (e : Engine) (r : OpenResult) : Opens e (cOpenSession e r) := by
  by_cases h : r.rv = ckrOk
  · rw [cOpenSession, if_pos h]
    exact ⟨rfl, rfl, rfl, rfl, List.subset_cons_self _ _, rfl, rfl, rfl, rfl, rfl⟩
  · rw [cOpenSession, if_neg h]
    exact .refl e

theorem pk11ChooseSlots_opens (e : Engine) (c : SlotChoice) : Opens e (pk11ChooseSlots e c) :=
  ⟨rfl, rfl, rfl, rfl, List.Subset.refl _, rfl, rfl, rfl, rfl, rfl⟩

theorem openGlobalSession_opens (e : Engine) (r : OpenResult) : Opens e (openGlobalSession e r).1 := by
  by_cases h : r.rv ≠ ckrOk
  · rw [openGlobalSession, if_pos h]
    exact .refl e
  · rw [openGlobalSession, if_neg h]
    exact (cOpenSession_opens e r).trans ⟨rfl, rfl, rfl, rfl, List.Subset.refl _, rfl, rfl, rfl, rfl, rfl⟩

theorem markInitialized_opens (e : Engine) (atfork : Bool) : Opens e (markInitialized e atfork).1 := by
  by_cases h : e.atforkInitialized = true
  · simp only [markInitialized, h, if_true]
    exact ⟨rfl, rfl, rfl, rfl, List.Subset.refl _, rfl, rfl, rfl, rfl, rfl⟩
  · cases atfork <;> simp only [markInitialized, h, if_true, if_false, Bool.false_eq_true] <;>
      exact ⟨rfl, rfl, rfl, rfl, List.Subset.refl _, rfl, rfl, rfl, rfl, rfl⟩

theorem chooseAndOpen_opens (e : Engine) (env : LibraryResults) : Opens e (chooseAndOpen e env).1 := by
  have hchoose := pk11ChooseSlots_opens e env.slots
  have hopen := hchoose.trans (openGlobalSession_opens (pk11ChooseSlots e env.slots) env.openGlobal)
  simp only [chooseAndOpen]
  split
  · exact hchoose
  · split
    · exact hchoose
    · split
      · split
        · rename_i heq
          rw [heq] at hopen
          exact hopen
        · rename_i heq
          rw [heq] at hopen
          exact hopen.trans (markInitialized_opens _ _)
      · exact hchoose.trans (markInitialized_opens _ _)

theorem loadLibrary_opens (e : Engine) (env : LibraryResults) :
    Opens { e with sessionCache := fun _ => 0 } (loadLibrary e env).1 := by
  have hdso : Opens { e with sessionCache := fun _ => 0 } { e with sessionCache := fun _ => 0, dso := true } :=
    ⟨rfl, rfl, rfl, rfl, List.Subset.refl _, rfl, rfl, rfl, rfl, rfl⟩
  simp only [loadLibrary]
  split
  · exact .refl _
  · split
    · exact hdso
    · split
      · exact hdso
      · split
        · exact hdso
        · split
          · exact hdso
          · exact hdso.trans (chooseAndOpen_opens _ env)

/-- C_OpenSession finds the PKCS#11 library not initialized. -/
def Restarts (env : SetupResults) : Prop := env.openFirst.rv = ckrCryptokiNotInitialized

/-- pk11_library_init gets so far that it empties the lists. -/
def Empties (env : SetupResults) : Prop := Restarts env ∧ env.library.initLocks = true

def SameHandlers (e e' : Engine) : Prop :=
  e'.libraryInitialized = e.libraryInitialized ∧ e'.atforkInitialized = e.atforkInitialized

theorem cOpenSession_handlers (e : Engine) (r : OpenResult) : SameHandlers e (cOpenSession e r) := by
  by_cases h : r.rv = ckrOk
  · rw [cOpenSession, if_pos h]
    exact ⟨rfl, rfl⟩
  · rw [cOpenSession, if_neg h]
    exact ⟨rfl, rfl⟩

structure Opening (env : SetupResults) (e e' : Engine) : Prop where
  heap : e'.heap = e.heap
  pid : e'.pid = e.pid
  self : e'.self = e.self
  passphrasedialog : e'.passphrasedialog = e.passphrasedialog
  tokenPin : e'.tokenPin = e.tokenPin
  locks : e'.locks = e.locks
  kept : ¬ Restarts env → Opens e e' ∧ SameHandlers e e'
  emptied : Empties env → e'.sessionCache = fun _ => 0
  notEmptied : ¬ Empties env → e'.sessionCache = e.sessionCache
  renewed : Restarts env → e'.generation = e.generation + 1
  objects : Restarts env → e'.objects = fun _ => none

theorem pk11LibraryInit_forget (e : Engine) (env : LibraryResults) :
    Opens { forgetLibrary e with
        generation := e.generation + 1
        sessionCache := if env.initLocks then fun _ => 0 else e.sessionCache }
      (pk11LibraryInit (forgetLibrary e) env).1 := by
  cases h : env.initLocks
  · have heq : pk11LibraryInit (forgetLibrary e) env = (pk11InitAllLocks (forgetLibrary e), false) := by
      simp [pk11LibraryInit, forgetLibrary, h]
    rw [heq]
    exact .refl _
  · have heq : pk11LibraryInit (forgetLibrary e) env = loadLibrary (pk11InitAllLocks (forgetLibrary e)) env := by
      simp [pk11LibraryInit, forgetLibrary, h]
    rw [heq]
    exact loadLibrary_opens (pk11InitAllLocks (forgetLibrary e)) env

theorem openForSetup_opening (e : Engine) (env : SetupResults) : Opening env e (openForSetup e env).1 := by
  by_cases h : Restarts env
  · have hinit := pk11LibraryInit_forget e env.library
    have hagain : Opens (pk11LibraryInit (forgetLibrary e) env.library).1 (openForSetup e env).1 := by
      rw [openForSetup, if_pos (show env.openFirst.rv = ckrCryptokiNotInitialized from h), openRestarted]
      split
      · rename_i heq
        rw [heq]
        exact .refl _
      · rename_i heq
        rw [heq]
        exact cOpenSession_opens _ _
    have hopen := hinit.trans hagain
    refine ⟨hopen.heap, hopen.pid, hopen.self, hopen.passphrasedialog, hopen.tokenPin, hopen.locks,
      fun hr => absurd h hr, fun he => ?_, fun he => ?_, fun _ => hopen.generation, fun _ => hopen.objects⟩
    · rw [hopen.sessionCache]
      simp only [he.2, if_true]
    · have hlocks : env.library.initLocks = false := by
        cases hl : env.library.initLocks
        · rfl
        · exact absurd ⟨h, hl⟩ he
      rw [hopen.sessionCache]
      simp only [hlocks, Bool.false_eq_true, if_false]
  · rw [openForSetup, if_neg (show ¬ env.openFirst.rv = ckrCryptokiNotInitialized from h)]
    have hopen := cOpenSession_opens e env.openFirst
    exact ⟨hopen.heap, hopen.pid, hopen.self, hopen.passphrasedialog, hopen.tokenPin, hopen.locks,
      fun _ => ⟨hopen, cOpenSession_handlers e env.openFirst⟩, fun he => absurd he.1 h, fun _ => hopen.sessionCache, fun hr => absurd hr h,
      fun hr => absurd hr h⟩

def setupHandle (env : SetupResults) : Handle :=
  if env.openFirst.rv = ckrCryptokiNotInitialized then env.openAgain.handle else env.openFirst.handle

theorem mem_cOpenSession {r : OpenResult} (e : Engine) (h : r.rv = ckrOk) :
    r.handle ∈ (cOpenSession e r).opened := by
  rw [cOpenSession, if_pos h]
  exact List.mem_cons_self ..

theorem openForSetup_ok {o : OpenResult} (h : openForSetup e env = (e', some o)) (hrv : o.rv = ckrOk) :
    o.handle = setupHandle env ∧ o.handle ∈ e'.opened := by
  by_cases hr : env.openFirst.rv = ckrCryptokiNotInitialized
  · rw [openForSetup, if_pos hr, openRestarted] at h
    split at h
    · simp at h
    · obtain ⟨rfl, ho⟩ := Prod.mk.inj h
      obtain rfl := Option.some.inj ho
      exact ⟨(if_pos hr).symm, mem_cOpenSession _ hrv⟩
  · rw [openForSetup, if_neg hr] at h
    obtain ⟨rfl, ho⟩ := Prod.mk.inj h
    obtain rfl := Option.some.inj ho
    exact ⟨(if_neg hr).symm, mem_cOpenSession _ hrv⟩

@[simp] theorem readySession_next (t : Pk11OpType) (s : Pk11Session) (h : Handle) (pid : Nat) :
    (readySession t s h pid).next = s.next := by
  cases t <;> rfl

@[simp] theorem readySession_session (t : Pk11OpType) (s : Pk11Session) (h : Handle) (pid : Nat) :
    (readySession t s h pid).session = h := by
  cases t <;> rfl

@[simp] theorem readySession_pid (t : Pk11OpType) (s : Pk11Session) (h : Handle) (pid : Nat) :
    (readySession t s h pid).pid = pid := by
  cases t <;> rfl

theorem readySession_new (t : Pk11OpType) (h : Handle) (pid : Nat) :
    (readySession t {} h pid).cipher.cipherKey = ckInvalidHandle := by
  cases t <;> rfl

theorem pk11SetupSession_spec {sp : Addr} {t : Pk11OpType} {ok : Bool}
    (h : pk11SetupSession e sp t env = some (e', ok)) :
    ∃ s e₁, e.session? sp = some s ∧
      Opening env (e.store sp { s with session := ckInvalidHandle }) e₁ ∧
      (¬ Restarts env → (ok = true ↔ env.openFirst.rv = ckrOk)) ∧
      ((ok = false ∧ e' = e₁) ∨
        (ok = true ∧ e' = e₁.store sp (readySession t { s with session := ckInvalidHandle } (setupHandle env) e.self) ∧ setupHandle env ∈ e₁.opened)) := by
  obtain ⟨s, hs, h⟩ := Option.map_eq_some_iff.mp h
  have hopening := openForSetup_opening (e.store sp { s with session := ckInvalidHandle }) env
  cases hopen : openForSetup (e.store sp { s with session := ckInvalidHandle }) env with
  | mk e₁ r =>
      rw [hopen] at hopening
      have hfirst (hr : ¬ Restarts env) : r = some env.openFirst := by
        rw [openForSetup, if_neg (show ¬ env.openFirst.rv = ckrCryptokiNotInitialized from hr)] at hopen
        exact (Prod.mk.inj hopen).2.symm
      simp only [hopen] at h
      cases r with
      | none =>
          obtain ⟨rfl, rfl⟩ := Prod.mk.inj h
          exact ⟨s, e₁, hs, hopening, fun hr => absurd (hfirst hr) (by simp), .inl ⟨rfl, rfl⟩⟩
      | some o =>
          have hsame (hr : ¬ Restarts env) : o = env.openFirst := Option.some.inj (hfirst hr)
          by_cases hrv : o.rv = ckrOk
          · obtain ⟨hhandle, hmem⟩ := openForSetup_ok hopen hrv
            dsimp only at h
            rw [if_neg (not_not.mpr hrv), hhandle, hopening.self] at h
            obtain ⟨rfl, rfl⟩ := Prod.mk.inj h
            refine ⟨s, e₁, hs, hopening, fun hr => ?_, .inr ⟨rfl, rfl, hhandle ▸ hmem⟩⟩
            rw [← hsame hr]
            exact ⟨fun _ => hrv, fun _ => rfl⟩
          · dsimp only at h
            rw [if_pos hrv] at h
            obtain ⟨rfl, rfl⟩ := Prod.mk.inj h
            refine ⟨s, e₁, hs, hopening, fun hr => ?_, .inl ⟨rfl, rfl⟩⟩
            rw [← hsame hr]
            exact ⟨fun hok => absurd hok (by simp), fun hok => absurd hok hrv⟩

variable {sp addr freelist r : Addr} {t : Pk11OpType} {k : Lock}

/-- Where the session structure of pk11_get_session comes from. -/
inductive Taken (e : Engine) (t : Pk11OpType) (addr : Addr) : Engine → Addr → Addr → Prop
  | noMemory (hempty : e.sessionCache t = 0) (haddr : addr = 0) : Taken e t addr e 0 0
  | new (hempty : e.sessionCache t = 0) (haddr : addr ≠ 0) (hfresh : e.session? addr = none) :
      Taken e t addr (e.store addr {}) addr 0
  | reused {s : Pk11Session} (hhead : e.sessionCache t ≠ 0) (hs : e.session? (e.sessionCache t) = some s) :
      Taken e t addr e (e.sessionCache t) s.next

theorem takeSession_taken (h : takeSession e t addr = some (e', sp, freelist)) : Taken e t addr e' sp freelist := by
  rw [takeSession] at h
  by_cases hhead : e.sessionCache t = 0
  · rw [if_pos hhead] at h
    by_cases haddr : addr = 0
    · rw [if_pos haddr] at h
      cases h
      exact .noMemory hhead haddr
    · rw [if_neg haddr] at h
      split at h
      · cases h
      · rename_i hnone
        cases h
        exact .new hhead haddr (by simpa using hnone)
  · rw [if_neg hhead] at h
    obtain ⟨s, hs, h⟩ := Option.map_eq_some_iff.mp h
    cases h
    exact .reused hhead hs

theorem leaveSession_spec (h : leaveSession e sp k = some (e', r)) :
    r = sp ∧ ((sp = 0 ∧ e' = e.release k) ∨
      (sp ≠ 0 ∧ ∃ s, e.session? sp = some s ∧ e' = (e.store sp { s with next := 0 }).release k)) := by
  rw [leaveSession] at h
  by_cases hsp : sp = 0
  · rw [if_pos hsp] at h
    cases h
    exact ⟨hsp.symm, .inl ⟨hsp, rfl⟩⟩
  · rw [if_neg hsp] at h
    obtain ⟨s, hs, h⟩ := Option.map_eq_some_iff.mp h
    cases h
    exact ⟨rfl, .inr ⟨hsp, s, hs, rfl⟩⟩

theorem initSession_spec (h : initSession e sp t env = some (e', r)) :
    ∃ s, e.session? sp = some s ∧ ((s.pid ≠ 0 ∧ e' = e ∧ r = sp) ∨
      (s.pid = 0 ∧ ((pk11SetupSession e sp t env = some (e', true) ∧ r = sp) ∨
        ∃ e₁, pk11SetupSession e sp t env = some (e₁, false) ∧ e' = e₁.free sp ∧ r = 0))) := by
  obtain ⟨s, hs, h⟩ := Option.bind_eq_some_iff.mp h
  refine ⟨s, hs, ?_⟩
  by_cases hpid : s.pid = 0
  · rw [if_pos hpid] at h
    obtain ⟨⟨e₁, ok⟩, hsetup, h⟩ := Option.map_eq_some_iff.mp h
    cases ok
    · cases h
      exact .inr ⟨hpid, .inr ⟨e₁, hsetup, rfl, rfl⟩⟩
    · cases h
      exact .inr ⟨hpid, .inl ⟨hsetup, rfl⟩⟩
  · rw [if_neg hpid] at h
    cases h
    exact .inl ⟨hpid, rfl, rfl⟩

inductive Started (e : Engine) (sp : Addr) (t : Pk11OpType) (env : GetResults) : Engine → Option Addr → Prop
  | notInitialized {e₁ : Engine} (hopens : Opens e e₁) (h : ¬ initialized env.cInitialize) :
      Started e sp t env (e₁.free sp) (some 0)
  | noSlots {e₁ : Engine} (hopens : Opens e e₁) (hinit : initialized env.cInitialize) (h : env.slots.ok = false) :
      Started e sp t env e₁ (some sp)
  | notOpened {e₁ : Engine} (hopens : Opens e e₁) (hinit : initialized env.cInitialize) (hslots : env.slots.ok = true)
      (h : env.openGlobal.rv ≠ ckrOk) : Started e sp t env (e₁.free sp) (some 0)
  | notSetUp {e₁ e₂ : Engine} (hopens : Opens e e₁) (hinit : initialized env.cInitialize)
      (hslots : env.slots.ok = true) (hopened : env.openGlobal.rv = ckrOk)
      (h : pk11SetupSession e₁ sp t env.setup = some (e₂, false)) : Started e sp t env (e₂.free sp) (some 0)
  | notLoggedIn {e₁ e₂ e₃ : Engine} (hopens : Opens e e₁) (hsame : SameHandlers e e₁) (hinit : initialized env.cInitialize)
      (hslots : env.slots.ok = true) (hopened : env.openGlobal.rv = ckrOk)
      (hsetup : pk11SetupSession e₁ sp t env.setup = some (e₂, true))
      (h : pk11TokenRelogin e₂ env.relogin = (e₃, false)) : Started e sp t env e₃ (some 0)
  | ready {e₁ e₂ e₃ : Engine} (hopens : Opens e e₁) (hsame : SameHandlers e e₁) (hinit : initialized env.cInitialize)
      (hslots : env.slots.ok = true) (hopened : env.openGlobal.rv = ckrOk)
      (hsetup : pk11SetupSession e₁ sp t env.setup = some (e₂, true))
      (h : pk11TokenRelogin e₂ env.relogin = (e₃, true)) : Started e sp t env e₃ none

theorem setupAndLogin_started {e₀ : Engine} {env : GetResults} {exit : Option Addr} (hopens : Opens e₀ e)
    (hsame : SameHandlers e₀ e) (hinit : initialized env.cInitialize) (hslots : env.slots.ok = true) (hopened : env.openGlobal.rv = ckrOk)
    (h : setupAndLogin e sp t env = some (e', exit)) : Started e₀ sp t env e' exit := by
  obtain ⟨⟨e₂, ok⟩, hsetup, h⟩ := Option.map_eq_some_iff.mp h
  cases ok
  · cases h
    exact .notSetUp hopens hinit hslots hopened hsetup
  · cases hlogin : pk11TokenRelogin e₂ env.relogin with
    | mk e₃ ok =>
        simp only [Bool.not_true, Bool.false_eq_true, if_false, hlogin] at h
        cases ok
        · cases h
          exact .notLoggedIn hopens hsame hinit hslots hopened hsetup hlogin
        · cases h
          exact .ready hopens hsame hinit hslots hopened hsetup hlogin

theorem startProcess_started {env : GetResults} {exit : Option Addr}
    (h : startProcess e sp t env = some (e', exit)) : Started (pk11FreeActiveList e t) sp t env e' exit := by
  simp only [startProcess] at h
  have hchoose := pk11ChooseSlots_opens (pk11FreeActiveList e t) env.slots
  by_cases hinit : initialized env.cInitialize
  · rw [if_neg (not_not.mpr hinit)] at h
    cases hslots : env.slots.ok
    · simp only [hslots, Bool.not_false, if_true] at h
      cases h
      exact .noSlots hchoose hinit hslots
    · simp only [hslots, Bool.not_true, Bool.false_eq_true, if_false] at h
      have hopen := openGlobalSession_opens (pk11ChooseSlots (pk11FreeActiveList e t) env.slots) env.openGlobal
      by_cases hrv : env.openGlobal.rv = ckrOk
      · rw [openGlobalSession, if_neg (not_not.mpr hrv)] at h hopen
        have hsame := cOpenSession_handlers (pk11ChooseSlots (pk11FreeActiveList e t) env.slots) env.openGlobal
        exact setupAndLogin_started (hchoose.trans hopen) hsame hinit hslots hrv h
      · rw [openGlobalSession, if_pos hrv] at h
        cases h
        exact .notOpened hchoose hinit hslots hrv
  · rw [if_pos hinit] at h
    cases h
    exact .notInitialized (.refl _) hinit

def underLock (e : Engine) (t : Pk11OpType) : Engine :=
  { e.acquire (e.lockOf (.cache t)) with pid := if e.pid = 0 then e.self else e.pid }

/-- A fork has not been noticed yet. -/
def Forked (e : Engine) : Prop := e.pid ≠ 0 ∧ e.pid ≠ e.self

instance (e : Engine) : Decidable (Forked e) := inferInstanceAs (Decidable (_ ∧ _))

theorem underLock_pid (e : Engine) (t : Pk11OpType) : (underLock e t).pid = (underLock e t).self ↔ ¬ Forked e := by
  by_cases h : e.pid = 0
  · simp [underLock, Forked, Engine.acquire, h]
  · simp [underLock, Forked, Engine.acquire, h]

def GotQuietly (e : Engine) (t : Pk11OpType) (sp freelist : Addr) (k : Lock) (env : GetResults) (e' : Engine)
    (r : Addr) : Prop :=
  ∃ e₁ sp₁, initSession e sp t env.setup = some (e₁, sp₁) ∧ leaveSession (e₁.setHead t freelist) sp₁ k = some (e', r)

def GotForked (e : Engine) (t : Pk11OpType) (sp freelist : Addr) (k : Lock) (env : GetResults) (e' : Engine)
    (r : Addr) : Prop :=
  ∃ heap e₁ exit, freeFrom Pk11Session.next e.heap.keys.length e.heap freelist = some heap ∧
    Started (pk11FreeActiveList { e with pid := e.self, heap := heap } t) sp t env e₁ exit ∧
    ((∃ sp', exit = some sp' ∧ leaveSession e₁ sp' k = some (e', r)) ∨
      (exit = none ∧ ∃ e₂ sp₂, initSession e₁ sp t env.setup = some (e₂, sp₂) ∧
        leaveSession (e₂.setHead t 0) sp₂ k = some (e', r)))

theorem handOut_cases {env : GetResults} (h : handOut e t sp freelist k env = some (e', r)) :
    (e.pid = e.self ∧ GotQuietly e t sp freelist k env e' r) ∨
      (e.pid ≠ e.self ∧ GotForked e t sp freelist k env e' r) := by
  by_cases hpid : e.pid = e.self
  · simp only [handOut, if_pos hpid, Option.bind_eq_bind, Option.bind_some] at h
    obtain ⟨⟨e₁, sp₁⟩, hinit, hleave⟩ := Option.bind_eq_some_iff.mp h
    exact .inl ⟨hpid, e₁, sp₁, hinit, hleave⟩
  · simp only [handOut, if_neg hpid, Option.bind_eq_bind] at h
    obtain ⟨e₀, hfree, h⟩ := Option.bind_eq_some_iff.mp h
    obtain ⟨heap, hheap, rfl⟩ := Option.map_eq_some_iff.mp hfree
    obtain ⟨⟨e₁, exit⟩, hstart, h⟩ := Option.bind_eq_some_iff.mp h
    refine .inr ⟨hpid, heap, e₁, exit, hheap, startProcess_started hstart, ?_⟩
    simp only [Option.bind_some] at h
    cases exit with
    | some sp' => exact .inl ⟨sp', rfl, h⟩
    | none =>
        obtain ⟨⟨e₂, sp₂⟩, hinit, hleave⟩ := Option.bind_eq_some_iff.mp h
        exact .inr ⟨rfl, e₂, sp₂, hinit, hleave⟩

/-- The three ways through pk11_get_session. -/
theorem pk11GetSession_cases {env : GetResults} (h : pk11GetSession e t env = some (e', r)) :
    ∃ e₁ sp freelist, Taken (underLock e t) t env.addr e₁ sp freelist ∧
      ((sp = 0 ∧ r = 0 ∧ e' = e₁.release (e.lockOf (.cache t))) ∨
        (sp ≠ 0 ∧ ¬ Forked e ∧ GotQuietly e₁ t sp freelist (e.lockOf (.cache t)) env e' r) ∨
        (sp ≠ 0 ∧ Forked e ∧ GotForked e₁ t sp freelist (e.lockOf (.cache t)) env e' r)) := by
  have hlock : (if (e.acquire (e.lockOf (.cache t))).pid = 0 then
        { e.acquire (e.lockOf (.cache t)) with pid := (e.acquire (e.lockOf (.cache t))).self }
      else e.acquire (e.lockOf (.cache t))) = underLock e t := by
    by_cases hpid : e.pid = 0
    · simp [underLock, Engine.acquire, hpid]
    · simp [underLock, Engine.acquire, hpid]
  simp only [pk11GetSession, hlock, Option.bind_eq_bind] at h
  obtain ⟨⟨e₁, sp, freelist⟩, htake, h⟩ := Option.bind_eq_some_iff.mp h
  have htaken := takeSession_taken htake
  have hpids : e₁.pid = (underLock e t).pid ∧ e₁.self = (underLock e t).self := by
    cases htaken <;> exact ⟨rfl, rfl⟩
  refine ⟨e₁, sp, freelist, htaken, ?_⟩
  by_cases hsp : sp = 0
  · simp only [hsp, if_true] at h
    obtain ⟨rfl, hleave⟩ := leaveSession_spec h
    rcases hleave with ⟨-, rfl⟩ | ⟨hne, -⟩
    · exact .inl ⟨hsp, rfl, rfl⟩
    · exact absurd rfl hne
  · simp only [hsp, if_false] at h
    have hforked : e₁.pid = e₁.self ↔ ¬ Forked e := by rw [hpids.1, hpids.2, underLock_pid]
    rcases handOut_cases h with ⟨hpid, hgot⟩ | ⟨hpid, hgot⟩
    · exact .inr (.inl ⟨hsp, hforked.mp hpid, hgot⟩)
    · exact .inr (.inr ⟨hsp, not_not.mp fun hf => hpid (hforked.mpr hf), hgot⟩)

structure PutBack (e e' : Engine) (sp : Addr) (t : Pk11OpType) (s : Pk11Session) : Prop where
  here : e'.session? sp = some { s with next := e.sessionCache t }
  others : ∀ a, a ≠ sp → e'.session? a = e.session? a
  cache : e'.sessionCache = Function.update e.sessionCache t sp
  pid : e'.pid = e.pid
  self : e'.self = e.self
  opened : e'.opened = e.opened
  objects : e'.objects = e.objects

theorem putBack_own (hsp : sp ≠ 0) (hs : e.session? sp = some s) (hpid : s.pid = e.self)
    (h : pk11ReturnSession e sp t = some e') : PutBack e e' sp t s := by
  rw [pk11ReturnSession, if_neg hsp, hs, Option.map_some, if_neg (not_not.mpr hpid)] at h
  obtain rfl := Option.some.inj h
  exact ⟨session?_store _ _ _, fun a ha => session?_store_ne ha, rfl, rfl, rfl, rfl, rfl⟩

theorem giveBack_other (hother : sp ≠ 0 → ∀ s, e.session? sp = some s → s.pid ≠ e.self)
    (h : pk11ReturnSession e sp t = some e') : e' = e := by
  rw [pk11ReturnSession] at h
  split at h
  · exact (Option.some.inj h).symm
  · rename_i hsp
    obtain ⟨s, hs, h⟩ := Option.map_eq_some_iff.mp h
    rw [if_pos (hother hsp s hs)] at h
    exact h.symm

theorem pk11ReturnSession_cases (h : pk11ReturnSession e sp t = some e') :
    e' = e ∨ (sp ≠ 0 ∧ ∃ s, e.session? sp = some s ∧ s.pid = e.self ∧ PutBack e e' sp t s) := by
  by_cases hown : sp ≠ 0 ∧ ∃ s, e.session? sp = some s ∧ s.pid = e.self
  · obtain ⟨hsp, s, hs, hpid⟩ := hown
    exact .inr ⟨hsp, s, hs, hpid, putBack_own hsp hs hpid h⟩
  · exact .inl (giveBack_other (fun hsp s hs hpid => hown ⟨hsp, s, hs, hpid⟩) h)

section Defined

variable {env : SetupResults}

theorem pk11SetupSession_isSome (h : (e.session? sp).isSome) : (pk11SetupSession e sp t env).isSome := by
  rw [pk11SetupSession, Option.isSome_map]
  exact h

theorem initSession_isSome (h : (e.session? sp).isSome) : (initSession e sp t env).isSome := by
  obtain ⟨s, hs⟩ := Option.isSome_iff_exists.mp h
  rw [initSession, hs, Option.bind_some]
  split
  · rw [Option.isSome_map]
    exact pk11SetupSession_isSome h
  · rfl

theorem leaveSession_isSome (h : sp = 0 ∨ (e.session? sp).isSome) : (leaveSession e sp k).isSome := by
  rw [leaveSession]
  split
  · rfl
  · rename_i hsp
    rw [Option.isSome_map]
    exact h.resolve_left hsp

theorem pk11SetupSession_allocated (h : pk11SetupSession e sp t env = some (e', true)) : (e'.session? sp).isSome := by
  obtain ⟨u, e₁, -, -, -, ⟨hno, -⟩ | ⟨-, rfl, -⟩⟩ := pk11SetupSession_spec h
  · cases hno
  · rw [session?_store, Option.isSome_some]

theorem initSession_allocated (h : initSession e sp t env = some (e', r)) : r = 0 ∨ (e'.session? r).isSome := by
  obtain ⟨s, hs, ⟨-, rfl, rfl⟩ | ⟨-, ⟨hsetup, rfl⟩ | ⟨e₁, -, -, rfl⟩⟩⟩ := initSession_spec h
  · exact .inr (by rw [hs, Option.isSome_some])
  · exact .inr (pk11SetupSession_allocated hsetup)
  · exact .inl rfl

theorem pk11TokenRelogin_session? (e : Engine) (env : ReloginResults) (a : Addr) :
    (pk11TokenRelogin e env).1.session? a = e.session? a := by
  rw [pk11TokenRelogin_frame e env]
  rfl

theorem startProcess_isSome {env : GetResults} (h : (e.session? sp).isSome) : (startProcess e sp t env).isSome := by
  have hactive : (pk11FreeActiveList e t).heap = e.heap := by
    rw [pk11FreeActiveList]
    split <;> rfl
  simp only [startProcess]
  split
  · rfl
  · split
    · rfl
    · have hopens := (pk11ChooseSlots_opens (pk11FreeActiveList e t) env.slots).trans (openGlobalSession_opens _ env.openGlobal)
      split
      · rfl
      · rename_i heq
        rw [heq] at hopens
        rw [setupAndLogin, Option.isSome_map]
        refine pk11SetupSession_isSome ?_
        rw [Engine.session?, hopens.heap, hactive]
        exact h

theorem initAndLeave_isSome (h : (e.session? sp).isSome) :
    ((initSession e sp t env).bind fun (e, sp) => leaveSession (e.setHead t freelist) sp k).isSome := by
  obtain ⟨⟨e₁, sp₁⟩, hinit⟩ := Option.isSome_iff_exists.mp (@initSession_isSome _ _ t env h)
  rw [hinit, Option.bind_some]
  exact leaveSession_isSome ((initSession_allocated hinit : _ ∨ (e₁.session? sp₁).isSome))

theorem handOut_isSome {env : GetResults} {l : List Addr} (h : (e.session? sp).isSome) (hl : IsChain e.next freelist l)
    (hsp : sp ∉ l) : (handOut e t sp freelist k env).isSome := by
  by_cases hpid : e.pid = e.self
  · simp only [handOut, if_pos hpid, Option.bind_eq_bind, Option.bind_some]
    exact initAndLeave_isSome h
  · obtain ⟨heap, hfree, hlookup⟩ := freeFrom_lookup hl hl.length_le
    have hmem : (({ e with pid := e.self, heap := heap } : Engine).session? sp).isSome := by
      rw [show ({ e with pid := e.self, heap := heap } : Engine).session? sp = e.session? sp from
        (hlookup sp).trans (if_neg hsp)]
      exact h
    obtain ⟨⟨e₁, exit⟩, hstart⟩ := Option.isSome_iff_exists.mp (@startProcess_isSome _ _ t env hmem)
    simp only [handOut, if_neg hpid, Option.bind_eq_bind, freeInherited, hfree, Option.map_some, Option.bind_some, hstart]
    have hstarted := startProcess_started hstart
    have hactive : (pk11FreeActiveList { e with pid := e.self, heap := heap } t).heap = heap := by
      rw [pk11FreeActiveList]
      split <;> rfl
    cases hstarted with
    | notInitialized => exact leaveSession_isSome (.inl rfl)
    | noSlots hopens =>
        refine leaveSession_isSome (.inr ?_)
        rw [Engine.session?, hopens.heap, hactive]
        exact hmem
    | notOpened => exact leaveSession_isSome (.inl rfl)
    | notSetUp => exact leaveSession_isSome (.inl rfl)
    | notLoggedIn => exact leaveSession_isSome (.inl rfl)
    | ready hopens hsame hinit hslots hopened hsetup hlogin =>
        rename_i _ e₃
        refine initAndLeave_isSome ?_
        have hmem := pk11TokenRelogin_session? e₃ env.relogin sp
        rw [hlogin] at hmem
        rw [hmem]
        exact pk11SetupSession_allocated hsetup

theorem pk11GetSession_isSome {env : GetResults} {l : List Addr} (hl : IsChain e.next (e.sessionCache t) l)
    (hmalloc : e.sessionCache t = 0 → e.session? env.addr = none) : (pk11GetSession e t env).isSome := by
  have hsame (a : Addr) : (underLock e t).session? a = e.session? a := rfl
  have hlock : (if (e.acquire (e.lockOf (.cache t))).pid = 0 then
        { e.acquire (e.lockOf (.cache t)) with pid := (e.acquire (e.lockOf (.cache t))).self }
      else e.acquire (e.lockOf (.cache t))) = underLock e t := by
    by_cases hpid : e.pid = 0
    · simp [underLock, Engine.acquire, hpid]
    · simp [underLock, Engine.acquire, hpid]
  simp only [pk11GetSession, hlock, Option.bind_eq_bind]
  by_cases hempty : e.sessionCache t = 0
  · have hcache : (underLock e t).sessionCache t = 0 := hempty
    by_cases haddr : env.addr = 0
    · rw [takeSession, if_pos hcache, if_pos haddr, Option.bind_some]
      exact leaveSession_isSome (.inl rfl)
    · rw [takeSession, if_pos hcache, if_neg haddr, hsame, hmalloc hempty, Option.isSome_none,
        if_neg Bool.false_ne_true, Option.bind_some]
      dsimp only
      rw [if_neg haddr]
      exact handOut_isSome (by rw [session?_store, Option.isSome_some]) .nil (by simp)
  · obtain ⟨b, r, hb, hr, rfl⟩ := hl.head_mem hempty
    obtain ⟨s, hs, rfl⟩ := Option.map_eq_some_iff.mp hb
    have hs' : (underLock e t).session? ((underLock e t).sessionCache t) = some s := hs
    rw [takeSession, if_neg (show (underLock e t).sessionCache t ≠ 0 from hempty), hs', Option.map_some, Option.bind_some]
    dsimp only
    rw [if_neg (show (underLock e t).sessionCache t ≠ 0 from hempty)]
    exact handOut_isSome (by rw [hs', Option.isSome_some]) hr (List.nodup_cons.mp hl.nodup).1

end Defined

end OiUserland.Pkcs11.SessionSteps
