import OiUserland.Lib.Runs
import OiUserland.Pkcs11.UriLocks

namespace OiUserland.Pkcs11.PinCopies

open Lib.Runs Types Process Library Uri UriLocks

/-- A process whose threads log in to the token. `buffer` is a PIN that getpassphrase() still holds, and
`loggedIn` says that C_Login has succeeded. -/
structure Run where
  engine : Engine
  loginDone : Bool := false
  buffer : Option Pin := none
  loggedIn : Bool := false

inductive Call
  | login (pinfile : Option Dialog) (isPrivate : Bool) (env : LoginResults)
  | relogin (env : ReloginResults)

def needsLogin (flags : TokenFlags) (isPrivate : Bool) : Bool :=
  flags.tokenInitialized && (flags.loginRequired || isPrivate) && flags.userPinInitialized

namespace Call

def asks : Call → Run → Option (Dialog × PinResults)
  | login pinfile isPrivate env, s =>
      if needsLogin s.engine.pubkeyTokenFlags isPrivate && !s.loginDone then pinfile.map (·, env.pin) else none
  | relogin env, s => if s.engine.tokenPin.isSome then none else s.engine.passphrasedialog.map (·, env.pin)

def logins : Call → Run → Option Rv
  | login pinfile isPrivate env, s =>
      match (login pinfile isPrivate env).asks s with
      | none => none
      | some (dialog, pin) => if (pk11GetPin s.engine dialog pin).2.isSome && !env.raced then some env.login else none
  | relogin env, s =>
      match s.engine.passphrasedialog with
      | none => none
      | some dialog => if (pinForRelogin s.engine dialog env.pin).2.isSome then some env.login else none

def outcome : Call → Run → Engine × Bool
  | login pinfile isPrivate env, s =>
      let r := pk11TokenLogin s.engine s.loginDone pinfile isPrivate env
      (r.1, r.2.1)
  | relogin env, s => ((pk11TokenRelogin s.engine env).1, s.loginDone)

def buffer (c : Call) (s : Run) : Option Pin :=
  match c.asks s with
  | some (.builtin, env) => if env.getpassphrase.isSome && env.strdup then none else env.getpassphrase
  | _ => s.buffer

def after (c : Call) (s : Run) : Run where
  engine := (c.outcome s).1
  loginDone := (c.outcome s).2
  buffer := c.buffer s
  loggedIn := s.loggedIn || c.logins s == some ckrOk

/-- A relogin with a copy of the PIN of its own succeeds. -/
def Erases : Call → Run → Prop
  | login .., _ => True
  | relogin env, s => ∀ dialog, s.engine.passphrasedialog = some dialog → s.engine.tokenPin = none → PinGiven dialog env.pin →
      env.login = ckrOk

/-- A PIN that is typed in is copied. -/
def Copies (c : Call) (s : Run) : Prop := ∀ env, c.asks s = some (.builtin, env) → env.getpassphrase.isSome → env.strdup = true

end Call

def step (c : Call) (s : Run) : Option Run := if (c.after s).engine.locks.blocked then none else some (c.after s)

/-- Nobody has logged in yet. -/
def Start (s : Run) : Prop := s.engine.pins = [] ∧ s.engine.passphrasedialog = none ∧ s.buffer = none ∧ s.loggedIn = false

variable {e : Engine} {s s' : Run} {c : Call} {pin : Pin} {d : Dialog}

theorem forkInParent_pins (e : Engine) : (forkInParent e).pins = e.pins := by
  have hprepare (e : Engine) : (pk11ForkPrepare e).pins = e.pins := by
    rw [pk11ForkPrepare]
    split <;> rfl
  have hparent (e : Engine) : (pk11ForkParent e).pins = e.pins := by
    rw [pk11ForkParent]
    split <;> rfl
  rw [forkInParent]
  split
  · rw [hparent, hprepare]
  · rfl

theorem runAskpass_pins (e : Engine) (env : PinResults) : (runAskpass e env).1.pins = (runAskpass e env).2.toList ++ e.pins := by
  rw [runAskpass]
  split
  · rfl
  · dsimp only
    split
    · exact forkInParent_pins e
    · split
      · exact forkInParent_pins e
      · split
        · exact forkInParent_pins e
        · exact congrArg _ (forkInParent_pins e)

theorem getPin_pins (e : Engine) (d : Dialog) (env : PinResults) :
    (pk11GetPin e d env).1.pins = (pk11GetPin e d env).2.toList ++ e.pins := by
  cases d with
  | builtin =>
      rw [pk11GetPin]
      cases env.getpassphrase with
      | none => rfl
      | some pin => cases env.strdup <;> rfl
  | spec s =>
      rw [pk11GetPin]
      split
      · split
        · rfl
        · exact runAskpass_pins e env
      · rfl

theorem pk11GetPinCachingPolicy_pins (e : Engine) : (pk11GetPinCachingPolicy e).1.pins = e.pins := by
  obtain ⟨p, hp⟩ := pk11GetPinCachingPolicy_eq e
  rw [hp]

theorem storePin_pins (e : Engine) (pin : Pin) (env : CacheResults) : (storePin e pin env).1.pins = e.pins := by
  have hmlock (e : Engine) : (mlockPinInMemory e pin env).1.pins = e.pins := by
    simp only [mlockPinInMemory]
    split_ifs <;> rfl
  simp only [storePin]
  split_ifs
  · rfl
  · exact pk11GetPinCachingPolicy_pins e
  · exact pk11GetPinCachingPolicy_pins e
  · rw [hmlock, pk11GetPinCachingPolicy_pins, pk11GetPinCachingPolicy_pins]
  · rw [pk11GetPinCachingPolicy_pins, pk11GetPinCachingPolicy_pins]

theorem keepLogin_pins (e : Engine) (d : Dialog) (pin : Pin) (env : LoginResults) : (keepLogin e d pin env).1.pins = e.pins := by
  have hcache (e : Engine) : (cacheByPolicy e pin env.cache).1.pins = e.pins := by
    simp only [cacheByPolicy]
    split_ifs
    · exact pk11GetPinCachingPolicy_pins e
    · exact (storePin_pins _ pin env.cache).trans
        ((pk11GetPinCachingPolicy_pins _).trans (pk11GetPinCachingPolicy_pins e))
    · rw [pk11GetPinCachingPolicy_pins, pk11GetPinCachingPolicy_pins]
  have hremember : (rememberDialog e d).pins = e.pins := by
    rw [rememberDialog]
    split <;> rfl
  simp only [keepLogin]
  split_ifs
  · rfl
  · rw [hcache, hremember]

theorem loginWithPin_pins (e : Engine) (d : Dialog) (pin : Pin) (env : LoginResults) :
    (loginWithPin e d pin env).1.pins = e.pins.erase pin := by
  have hlocked (e : Engine) : (loginLocked e d pin env).1.pins = e.pins := by
    rw [loginLocked]
    split
    · rfl
    · split
      · rfl
      · exact keepLogin_pins e d pin env
  exact congrArg (·.erase pin) (hlocked (e.acquire (e.lockOf .uri)))

/-- pk11_token_login leaves no copy. -/
theorem tokenLogin_pins (e : Engine) (loginDone : Bool) (pinfile : Option Dialog) (isPrivate : Bool) (env : LoginResults) :
    (pk11TokenLogin e loginDone pinfile isPrivate env).1.pins = e.pins := by
  rw [pk11TokenLogin]
  split_ifs
  · rfl
  · rfl
  · rfl
  · rfl
  · cases pinfile with
    | none => rfl
    | some d =>
        have hpins := getPin_pins e d env.pin
        rw [loginFirst]
        cases hget : pk11GetPin e d env.pin with
        | mk e₁ r =>
            rw [hget] at hpins
            cases r with
            | none => exact hpins
            | some pin =>
                dsimp only
                rw [loginWithPin_pins, hpins]
                exact List.erase_cons_head pin e.pins

theorem tokenRelogin_cached (hd : e.passphrasedialog = some d) (ht : e.tokenPin.isSome) (env : ReloginResults) :
    (pk11TokenRelogin e env).1.pins = e.pins := by
  obtain ⟨pin, hpin⟩ := Option.isSome_iff_exists.mp ht
  have hget : pinForRelogin e d env.pin = (e, some pin) := by rw [pinForRelogin, if_pos ht, hpin]
  simp only [pk11TokenRelogin, hd, hget]
  split
  · rfl
  · exact congrArg (fun r : Engine × Bool => r.1.pins) (if_pos ht)

/-- A copy of its own is left when C_Login fails. -/
theorem tokenRelogin_own (hd : e.passphrasedialog = some d) (ht : e.tokenPin = none) (env : ReloginResults) :
    (pk11TokenRelogin e env).1.pins = e.pins ↔ (PinGiven d env.pin → env.login = ckrOk) := by
  have hown : pinForRelogin e d env.pin = pk11GetPin e d env.pin := by rw [pinForRelogin, ht]; rfl
  have hpins := getPin_pins e d env.pin
  have hframe := pk11GetPin_frame e d env.pin
  have hgiven := pk11GetPin_isSome e d env.pin
  rw [pk11TokenRelogin, hd]
  cases hget : pk11GetPin e d env.pin with
  | mk e₁ r =>
      rw [hget] at hpins hframe hgiven
      dsimp only
      rw [hown, hget]
      cases r with
      | none => exact ⟨fun _ h => absurd (hgiven.mpr h) (fun h => by cases h), fun _ => hpins⟩
      | some pin =>
          have ht₁ : e₁.tokenPin = none := (congrArg Engine.tokenPin hframe).trans ht
          by_cases hlogin : env.login = ckrOk
          · refine ⟨fun _ _ => hlogin, fun _ => ?_⟩
            simp only [hlogin, ne_eq, not_true_eq_false, if_false]
            rw [if_neg (by simp [Engine.acquire, Engine.release, ht₁])]
            exact (congrArg (fun l : List Pin => l.erase pin) hpins).trans (List.erase_cons_head pin e.pins)
          · dsimp only
            rw [if_pos hlogin]
            refine ⟨fun hsame => ?_, fun h => absurd (h (hgiven.mp rfl)) hlogin⟩
            have hlen := congrArg List.length (hpins.symm.trans hsame)
            simp at hlen

/-- pk11_token_relogin leaves a copy, unless it succeeds or has none of its own. -/
theorem tokenRelogin_pins (e : Engine) (env : ReloginResults) : (pk11TokenRelogin e env).1.pins = e.pins ↔
    ∀ d, e.passphrasedialog = some d → e.tokenPin = none → PinGiven d env.pin → env.login = ckrOk := by
  cases hd : e.passphrasedialog with
  | none =>
      have hnothing : pk11TokenRelogin e env = (e, true) := by rw [pk11TokenRelogin, hd]
      rw [hnothing]
      exact ⟨fun _ _ => (fun h => by cases h), fun _ => rfl⟩
  | some d =>
      have hiff : (∀ d', some d = some d' → e.tokenPin = none → PinGiven d' env.pin → env.login = ckrOk) ↔
          (e.tokenPin = none → PinGiven d env.pin → env.login = ckrOk) :=
        ⟨fun h => h d rfl, fun h d' heq => Option.some.inj heq ▸ h⟩
      rw [hiff]
      by_cases ht : e.tokenPin = none
      · rw [tokenRelogin_own hd ht, forall_prop_of_true ht]
      · have hsome := Option.isSome_iff_ne_none.mpr ht
        exact ⟨fun _ h => absurd h ht, fun _ => tokenRelogin_cached hd hsome env⟩

theorem logins_done (h : s.loginDone = true) (pinfile : Option Dialog) (isPrivate : Bool) (env : LoginResults) :
    (Call.login pinfile isPrivate env).logins s = none := by
  rw [Call.logins, Call.asks, h]
  simp

theorem tokenLogin_first {loginDone isPrivate : Bool} (h : (needsLogin e.pubkeyTokenFlags isPrivate && !loginDone) = true)
    (pinfile : Option Dialog) (env : LoginResults) :
    pk11TokenLogin e loginDone pinfile isPrivate env = loginFirst e pinfile env := by
  simp only [needsLogin, Bool.and_eq_true, Bool.or_eq_true, Bool.not_eq_true'] at h
  obtain ⟨⟨⟨hinit, hneeds⟩, huser⟩, hdone⟩ := h
  rw [pk11TokenLogin, if_neg (by simp [hinit]), if_neg (by simp [huser]), if_neg (by rcases hneeds with h | h <;> simp [h]),
    if_neg (by simp [hdone])]

/-- Without a need to log in, nothing is done but to set *login_done. -/
theorem tokenLogin_idle {loginDone isPrivate : Bool} (h : (needsLogin e.pubkeyTokenFlags isPrivate && !loginDone) = false)
    (pinfile : Option Dialog) : ∃ done ret, (loginDone = true → done = true) ∧ ∃ locks, ∀ env,
      pk11TokenLogin e loginDone pinfile isPrivate env = ({ e with locks := locks }, done, ret) := by
  by_cases hinit : e.pubkeyTokenFlags.tokenInitialized = true
  · by_cases huser : ((e.pubkeyTokenFlags.loginRequired || isPrivate) && !e.pubkeyTokenFlags.userPinInitialized) = true
    · exact ⟨loginDone, false, id, e.locks, fun env => by rw [pk11TokenLogin, if_neg (by simp [hinit]), if_pos huser]⟩
    · by_cases hneeds : (!e.pubkeyTokenFlags.loginRequired && !isPrivate) = true
      · exact ⟨true, true, fun _ => rfl, e.locks, fun env => by
          rw [pk11TokenLogin, if_neg (by simp [hinit]), if_neg huser, if_pos hneeds]⟩
      · have hdone : loginDone = true := by
          cases hl : e.pubkeyTokenFlags.loginRequired <;> cases isPrivate <;> simp_all [needsLogin]
        exact ⟨true, true, fun _ => rfl, _, fun env => by
          rw [pk11TokenLogin, if_neg (by simp [hinit]), if_neg huser, if_neg hneeds, if_pos hdone]; rfl⟩
  · exact ⟨loginDone, false, id, e.locks, fun env => by rw [pk11TokenLogin, if_pos (by simpa using hinit)]⟩

theorem loginFirst_cases (e : Engine) (d : Dialog) (env : LoginResults) :
    ((pk11GetPin e d env.pin).2 = none ∧ loginFirst e (some d) env = ((pk11GetPin e d env.pin).1, false, false)) ∨
    ∃ pin, (pk11GetPin e d env.pin).2 = some pin ∧
      loginFirst e (some d) env = loginWithPin (pk11GetPin e d env.pin).1 d pin env := by
  rw [loginFirst]
  cases hget : pk11GetPin e d env.pin with
  | mk e₁ r =>
      cases r with
      | none => exact .inl ⟨rfl, rfl⟩
      | some pin => exact .inr ⟨pin, rfl, rfl⟩

theorem loginWithPin_refused {env : LoginResults} (hr : env.raced = false) (hl : env.login ≠ ckrOk) :
    (loginWithPin e d pin env).2.1 = false ∧ (loginWithPin e d pin env).1.passphrasedialog = e.passphrasedialog := by
  have hlocked (e : Engine) : loginLocked e d pin env = (e, false, false) := by
    rw [loginLocked, if_neg (by simp [hr]), if_pos hl]
  rw [loginWithPin]
  dsimp only
  rw [hlocked]
  exact ⟨rfl, rfl⟩

theorem loginWithPin_done {env : LoginResults} (h : env.raced = true ∨ env.login = ckrOk) :
    (loginWithPin e d pin env).2.1 = true := by
  have hlocked (e : Engine) : (loginLocked e d pin env).2.1 = true := by
    rw [loginLocked]
    by_cases hr : env.raced = true
    · rw [if_pos hr]
    · rw [if_neg hr, if_neg (not_not.mpr (h.resolve_left hr))]
  exact hlocked _

theorem login_sets (pinfile : Option Dialog) (isPrivate : Bool) (env : LoginResults) :
    ((Call.login pinfile isPrivate env).outcome s).2 = true ∨
      s.loginDone = false ∧ (Call.login pinfile isPrivate env).logins s ≠ some ckrOk ∧
        ((Call.login pinfile isPrivate env).outcome s).1.passphrasedialog = s.engine.passphrasedialog := by
  rw [Call.outcome]
  cases hneeds : needsLogin s.engine.pubkeyTokenFlags isPrivate && !s.loginDone with
  | false =>
      obtain ⟨done, ret, hdone, locks, hidle⟩ := tokenLogin_idle hneeds pinfile
      rw [hidle]
      cases hd : s.loginDone with
      | true => exact .inl (hdone hd)
      | false =>
          refine .inr ⟨rfl, ?_, rfl⟩
          rw [Call.logins, Call.asks, hneeds]
          exact nofun
  | true =>
      have hdone : s.loginDone = false := by simp at hneeds; exact hneeds.2
      rw [tokenLogin_first hneeds]
      rw [Call.logins, Call.asks, hneeds]
      cases pinfile with
      | none => exact .inr ⟨hdone, nofun, rfl⟩
      | some d =>
          have hframe := congrArg Engine.passphrasedialog (pk11GetPin_frame s.engine d env.pin)
          rcases loginFirst_cases s.engine d env with ⟨hnone, hfirst⟩ | ⟨pin, hpin, hfirst⟩
          · rw [hfirst]
            exact .inr ⟨hdone, by simp [hnone], hframe⟩
          · rw [hfirst]
            by_cases hok : env.raced = true ∨ env.login = ckrOk
            · exact .inl (loginWithPin_done hok)
            · obtain ⟨hraced, hlogin⟩ := not_or.mp hok
              have hrefused := @loginWithPin_refused (pk11GetPin s.engine d env.pin).1 pin d env
                (Bool.eq_false_iff.mpr hraced) hlogin
              refine .inr ⟨hdone, ?_, hrefused.2.trans hframe⟩
              simp [hpin, hraced, hlogin]

theorem relogin_dialog (e : Engine) (env : ReloginResults) : (pk11TokenRelogin e env).1.passphrasedialog = e.passphrasedialog := by
  rw [pk11TokenRelogin]
  cases hd : e.passphrasedialog with
  | none => exact hd
  | some d =>
      have hframe := congrArg Engine.passphrasedialog (pinForRelogin_frame e d env.pin)
      dsimp only
      cases hget : pinForRelogin e d env.pin with
      | mk e₁ r =>
          rw [hget] at hframe
          cases r with
          | none => exact hframe.trans hd
          | some pin =>
              dsimp only
              split
              · exact hframe.trans hd
              · split <;> exact hframe.trans hd

/-- A dialog is kept, and C_Login has succeeded, only where *login_done is set. -/
structure LoggedIn (s : Run) : Prop where
  dialog : s.engine.passphrasedialog ≠ none → s.loginDone = true
  loggedIn : s.loggedIn = true → s.loginDone = true

theorem step_some (h : step c s = some s') : c.after s = s' := by
  rw [step] at h
  split at h
  · cases h
  · exact Option.some.inj h

theorem loggedIn_after (h : LoggedIn s) (c : Call) : LoggedIn (c.after s) := by
  cases c with
  | login pinfile isPrivate env =>
      rcases login_sets pinfile isPrivate env with hdone | ⟨hdone, hlogins, hdialog⟩
      · exact ⟨fun _ => hdone, fun _ => hdone⟩
      · have hno : s.engine.passphrasedialog = none := by
          by_contra hne
          exact absurd (h.dialog hne) (by rw [hdone]; decide)
        have hnot : s.loggedIn ≠ true := fun hin => absurd (h.loggedIn hin) (by rw [hdone]; decide)
        refine ⟨fun hne => absurd (hdialog.trans hno) hne, fun hin => ?_⟩
        rcases Bool.or_eq_true_iff.mp hin with hin | hin
        · exact absurd hin hnot
        · exact absurd (beq_iff_eq.mp hin) hlogins
  | relogin env =>
      refine ⟨fun hne => h.dialog fun hno => hne ((relogin_dialog s.engine env).trans hno), fun hin => ?_⟩
      rcases Bool.or_eq_true_iff.mp hin with hin | hin
      · exact h.loggedIn hin
      · refine h.dialog fun hno => ?_
        rw [Call.logins, hno] at hin
        exact absurd (beq_iff_eq.mp hin) nofun

theorem pins_after (c : Call) (s : Run) : (c.after s).engine.pins = s.engine.pins ↔ c.Erases s := by
  cases c with
  | login pinfile isPrivate env => exact iff_of_true (tokenLogin_pins s.engine s.loginDone pinfile isPrivate env) trivial
  | relogin env => exact tokenRelogin_pins s.engine env

theorem buffer_after (h : c.Copies s) (hb : s.buffer = none) : (c.after s).buffer = none := by
  change c.buffer s = none
  rw [Call.buffer]
  split
  · rename_i env hasks
    have hcopied := h env hasks
    split
    · rfl
    · rename_i hno
      cases hpass : env.getpassphrase with
      | none => rfl
      | some pin => exact absurd (by simp [hpass, hcopied (by simp [hpass])]) hno
  · exact hb

/-- In a run whose relogins either have the PIN cached, get none, or succeed, every call that returns has
erased the copies that it got, and a relogin that is none of these leaves its copy. If moreover every PIN
that is typed in can be copied, getpassphrase() holds none either. In every run pk11_token_login does not
call C_Login after a success. -/
theorem pins_erased_runs (s : Run) :
    (Reachable step Call.Erases Start s →
      s.engine.pins = [] ∧ ∀ c s', step c s = some s' → (s'.engine.pins = [] ↔ c.Erases s)) ∧
    (Reachable step (fun c s => c.Erases s ∧ c.Copies s) Start s → s.engine.pins = [] ∧ s.buffer = none) ∧
    (Reachable step (fun _ _ => True) Start s → s.loggedIn = true →
      ∀ pinfile isPrivate env, (Call.login pinfile isPrivate env).logins s = none) := by
  have hpins {ok : Call → Run → Prop} (hok : ∀ c s, ok c s → c.Erases s) {s : Run} (h : Reachable step ok Start s) : s.engine.pins = [] := by
    refine h.invariant (fun s => s.engine.pins = []) (fun s hs => hs.1) fun c s s' hs hc hstep => ?_
    rw [← step_some hstep]
    exact ((pins_after c s).mpr (hok c s hc)).trans hs
  refine ⟨fun h => ⟨hpins (fun _ _ => id) h, fun c s' hstep => ?_⟩, fun h => ⟨hpins (fun _ _ => And.left) h, ?_⟩, fun h hin => ?_⟩
  · rw [← step_some hstep, ← pins_after, hpins (fun _ _ => id) h]
  · refine h.invariant (fun s => s.buffer = none) (fun s hs => hs.2.2.1) fun c s s' hs hc hstep => ?_
    rw [← step_some hstep]
    exact buffer_after hc.2 hs
  · have hinv : LoggedIn s := by
      refine h.invariant LoggedIn (fun s hs => ?_) fun c s s' hs _ hstep => step_some hstep ▸ loggedIn_after hs c
      exact ⟨fun hne => absurd hs.2.1 hne, fun hin => absurd (hs.2.2.2.symm.trans hin) nofun⟩
    exact logins_done (hinv.loggedIn hin)

def typed : PinResults := { getpassphrase := some [49, 50] }

def firstLogin : Call := .login (some .builtin) true { pin := typed }

def refusedRelogin : Call := .relogin { pin := typed, login := 160 }

theorem start_new : Start { engine := {} } := ⟨rfl, rfl, rfl, rfl⟩

theorem step_firstLogin : step firstLogin { engine := {} } = some (firstLogin.after { engine := {} }) := if_neg (by decide)

theorem pins_erased_runs_login : (firstLogin.after { engine := {} }).engine.pins = [] ∧
    (firstLogin.after { engine := {} }).buffer = none ∧ firstLogin.logins (firstLogin.after { engine := {} }) = none := by
  have hcopies : firstLogin.Copies { engine := {} } := by
    intro env h _
    obtain rfl : typed = env := congrArg Prod.snd (Option.some.inj h)
    rfl
  have hruns := pins_erased_runs (firstLogin.after { engine := {} })
  have herased := hruns.1 (.next firstLogin (.start start_new) trivial step_firstLogin)
  have hcopied := hruns.2.1 (.next firstLogin (.start start_new) ⟨trivial, hcopies⟩ step_firstLogin)
  have hlogins := hruns.2.2 (.next firstLogin (.start start_new) trivial step_firstLogin) rfl
  exact ⟨herased.1, hcopied.2, hlogins _ _ _⟩

/-- The copy of the PIN stays when C_Login refuses it in the child. -/
theorem pin_left : ∃ s, Reachable step (fun _ _ => True) Start s ∧ s.engine.pins ≠ [] := by
  refine ⟨refusedRelogin.after (firstLogin.after { engine := {} }),
    .next refusedRelogin (.next firstLogin (.start start_new) trivial step_firstLogin) trivial (if_neg (by decide)), ?_⟩
  decide

end OiUserland.Pkcs11.PinCopies
