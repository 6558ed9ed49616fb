import OiUserland.Pkcs11.Library

namespace OiUserland.Pkcs11.Uri

open Types Process Library

/-- The outcomes in pk11_get_pin. `read` is what the external command writes, if
it writes anything. -/
structure PinResults where
  getpassphrase : Option Pin := some []
  strdup : Bool := true
  strndup : Bool := true
  pipe : Bool := true
  fork : Bool := true
  malloc : Bool := true
  read : Option Pin := some []

def runAskpass (e : Engine) (env : PinResults) : Engine × Option Pin :=
  if !env.pipe then (e, none)
  else
    let e := forkInParent e
    if !env.fork then (e, none)
    else if !env.malloc then (e, none)
    else match env.read with
      | none => (e, none)
      | some pin => ({ e with pins := pin :: e.pins }, some pin)

def pk11GetPin (e : Engine) (dialog : Dialog) (env : PinResults) : Engine × Option Pin :=
  match dialog with
  | .builtin =>
      let uriLock := e.lockOf .uri
      let e := e.acquire uriLock
      match env.getpassphrase with
      | none => (e.release uriLock, none)
      | some pin =>
          if !env.strdup then (e.release uriLock, none)
          else ({ e with pins := pin :: e.pins }.release uriLock, some pin)
  | .spec s =>
      -- the byte before an empty string is taken not to be a bar
      if s.getLast? = some '|' then
        if !env.strndup then (e, none) else runAskpass e env
      else (e, none)

def policyOf : Option (List Char) → Policy
  | none => .none
  | some value =>
      if value = "none".toList then .none
      else if value = "memory".toList then .memory
      else if value = "mlocked-memory".toList then .mlockedMemory
      else .wrongValue

def pk11GetPinCachingPolicy (e : Engine) : Engine × Policy :=
  if e.policy ≠ .notInitialized then (e, e.policy)
  else
    let policy := policyOf e.policyEnv
    if policy = .wrongValue then (e, policy) else ({ e with policy := policy }, policy)

/-- The outcomes in pk11_cache_pin. -/
structure CacheResults where
  strdup : Bool := true
  sysconf : Bool := true
  mmap : Bool := true
  mlock : Bool := true

def mlockPinInMemory (e : Engine) (pin : Pin) (env : CacheResults) : Engine × Bool :=
  if !env.sysconf then (e, false)
  else if !env.mmap then (e, false)
  else if !env.mlock then (e, false)
  else ({ e with tokenPin := some pin }, true)

/-- pk11_cache_pin under its lock. -/
def storePin (e : Engine) (pin : Pin) (env : CacheResults) : Engine × Bool :=
  if e.tokenPin.isSome then (e, true)
  else
    let (e, policy) := pk11GetPinCachingPolicy e
    if policy = .memory then
      if !env.strdup then (e, false) else ({ e with tokenPin := some pin }, true)
    else
      let (e, policy) := pk11GetPinCachingPolicy e
      if policy = .mlockedMemory then mlockPinInMemory e pin env else (e, true)

def pk11CachePin (e : Engine) (pin : Pin) (env : CacheResults) : Engine × Bool :=
  let uriLock := e.lockOf .uri
  let (e, ret) := storePin (e.acquire uriLock) pin env
  (e.release uriLock, ret)

/-- The outcomes in pk11_token_login. `raced` says that another thread has logged
in by the time that the lock is taken. -/
structure LoginResults where
  pin : PinResults := {}
  raced : Bool := false
  login : Rv := ckrOk
  strdupDialog : Bool := true
  cache : CacheResults := {}

def rememberDialog (e : Engine) (pinfile : Dialog) : Engine :=
  if e.passphrasedialog = none then { e with passphrasedialog := some pinfile } else e

def cacheByPolicy (e : Engine) (pin : Pin) (env : CacheResults) : Engine × Bool :=
  let (e, policy) := pk11GetPinCachingPolicy e
  if policy = .wrongValue then (e, false)
  else
    let (e, policy) := pk11GetPinCachingPolicy e
    if policy ≠ .none then pk11CachePin e pin env else (e, true)

def keepLogin (e : Engine) (pinfile : Dialog) (pin : Pin) (env : LoginResults) : Engine × Bool :=
  let copied := pinfile = .builtin ∨ env.strdupDialog
  if e.passphrasedialog = none ∧ ¬ copied then (e, false)
  else cacheByPolicy (rememberDialog e pinfile) pin env.cache

def loginLocked (e : Engine) (pinfile : Dialog) (pin : Pin) (env : LoginResults) : Engine × Bool × Bool :=
  if env.raced then (e, true, true)
  else if env.login ≠ ckrOk then (e, false, false)
  else
    let (e, ret) := keepLogin e pinfile pin env
    (e, true, ret)

def loginWithPin (e : Engine) (pinfile : Dialog) (pin : Pin) (env : LoginResults) : Engine × Bool × Bool :=
  let uriLock := e.lockOf .uri
  let (e, loginDone, ret) := loginLocked (e.acquire uriLock) pinfile pin env
  ((e.release uriLock).erasePin pin, loginDone, ret)

def loginFirst (e : Engine) (pinfile : Option Dialog) (env : LoginResults) : Engine × Bool × Bool :=
  match pinfile with
  | none => (e, false, false)
  | some dialog =>
      match pk11GetPin e dialog env.pin with
      | (e, none) => (e, false, false)
      | (e, some pin) => loginWithPin e dialog pin env

/-- The engine, *login_done and the value returned. `pinfile` is the pin source
of the URI. -/
def pk11TokenLogin (e : Engine) (loginDone : Bool) (pinfile : Option Dialog) (isPrivate : Bool)
    (env : LoginResults) : Engine × Bool × Bool :=
  let flags := e.pubkeyTokenFlags
  if !flags.tokenInitialized then (e, loginDone, false)
  else if (flags.loginRequired || isPrivate) && !flags.userPinInitialized then (e, loginDone, false)
  else if !flags.loginRequired && !isPrivate then (e, true, true)
  else if loginDone then ((e.acquire (e.lockOf .uri)).release (e.lockOf .uri), true, true)
  else loginFirst e pinfile env

/-- The outcomes in pk11_token_relogin. -/
structure ReloginResults where
  pin : PinResults := {}
  login : Rv := ckrOk

/-- The PIN for pk11_token_relogin: the cached one, or a copy of its own. -/
def pinForRelogin (e : Engine) (dialog : Dialog) (env : PinResults) : Engine × Option Pin :=
  if e.tokenPin.isSome then (e, e.tokenPin) else pk11GetPin e dialog env

/-- A copy of the PIN that did not serve to log in is not erased. -/
def pk11TokenRelogin (e : Engine) (env : ReloginResults) : Engine × Bool :=
  match e.passphrasedialog with
  | none => (e, true)
  | some dialog =>
      match pinForRelogin e dialog env.pin with
      | (e, none) => (e, false)
      | (e, some pin) =>
          let uriLock := e.lockOf .uri
          let e := (e.acquire uriLock).release uriLock
          if env.login ≠ ckrOk then (e, false)
          else if e.tokenPin.isSome then (e, true)
          else (e.erasePin pin, true)

end OiUserland.Pkcs11.Uri
