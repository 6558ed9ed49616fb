import OiUserland.Pkcs11.Uri

namespace OiUserland.Pkcs11.Sessions

open Lib.Chains Types Process Library Uri

/-- The outcomes in pk11_setup_session. The library is initialized again, and
C_OpenSession called again, when it returns CKR_CRYPTOKI_NOT_INITIALIZED. -/
structure SetupResults where
  openFirst : OpenResult := {}
  library : LibraryResults := {}
  openAgain : OpenResult := {}

def resetSession (t : Pk11OpType) (s : Pk11Session) : Pk11Session :=
  match t with
  | .rsa => { s with rsa := {} }
  | .dsa => { s with dsa := {} }
  | .dh => { s with dh := {} }
  | .cipher => { s with cipher := { s.cipher with cipherKey := ckInvalidHandle, encrypt := -1 } }
  | .rand => s
  | .digest => s

/-- pk11_library_initialized is reset. A PKCS#11 library that is not initialized
has neither sessions nor objects. -/
def forgetLibrary (e : Engine) : Engine :=
  { e with libraryInitialized := false, opened := [], objects := fun _ => none }

/-- C_OpenSession after the library has been initialized again. Without a result
that failed. -/
def openRestarted (e : Engine) (env : SetupResults) : Engine × Option OpenResult :=
  match pk11LibraryInit (forgetLibrary e) env.library with
  | (e, false) => (e, none)
  | (e, true) => (cOpenSession e env.openAgain, some env.openAgain)

def openForSetup (e : Engine) (env : SetupResults) : Engine × Option OpenResult :=
  if env.openFirst.rv = ckrCryptokiNotInitialized then openRestarted e env
  else (cOpenSession e env.openFirst, some env.openFirst)

def readySession (t : Pk11OpType) (s : Pk11Session) (h : Handle) (pid : Nat) : Pk11Session :=
  { resetSession t { s with session := h, pid := pid } with persistent := false }

def pk11SetupSession (e : Engine) (sp : Addr) (t : Pk11OpType) (env : SetupResults) : Option (Engine × Bool) :=
  (e.session? sp).map fun s =>
    let s := { s with session := ckInvalidHandle }
    match openForSetup (e.store sp s) env with
    | (e, none) => (e, false)
    | (e, some opened) =>
        if opened.rv ≠ ckrOk then (e, false) else (e.store sp (readySession t s opened.handle e.self), true)

/-- The outcomes in pk11_get_session. -/
structure GetResults where
  addr : Addr := 1
  cInitialize : Rv := ckrOk
  slots : SlotChoice := {}
  openGlobal : OpenResult := {}
  setup : SetupResults := {}
  relogin : ReloginResults := {}

/-- The session structure to use, or 0, and the rest of the free list. Memory that
is in use is never allocated again. -/
def takeSession (e : Engine) (t : Pk11OpType) (addr : Addr) : Option (Engine × Addr × Addr) :=
  if e.sessionCache t = 0 then
    if addr = 0 then some (e, 0, 0)
    else if (e.session? addr).isSome then none
    else some (e.store addr {}, addr, 0)
  else (e.session? (e.sessionCache t)).map fun s => (e, e.sessionCache t, s.next)

def pk11FreeActiveList (e : Engine) (t : Pk11OpType) : Engine :=
  if t = .rsa ∨ t = .dsa ∨ t = .dh then (e.acquire (e.lockOf (.find t))).release (e.lockOf (.find t)) else e

def setupAndLogin (e : Engine) (sp : Addr) (t : Pk11OpType) (env : GetResults) :
    Option (Engine × Option Addr) :=
  (pk11SetupSession e sp t env.setup).map fun (e, ok) =>
    if !ok then (e.free sp, some 0)
    else match pk11TokenRelogin e env.relogin with
      | (e, false) => (e, some 0)
      | (e, true) => (e, none)

/-- What pk11_get_session does in a new process once the inherited sessions are
freed. It is ready to go on, or leaves with a session structure or 0. -/
def startProcess (e : Engine) (sp : Addr) (t : Pk11OpType) (env : GetResults) :
    Option (Engine × Option Addr) :=
  let e := pk11FreeActiveList e t
  if ¬ initialized env.cInitialize then some (e.free sp, some 0)
  else
    let e := pk11ChooseSlots e env.slots
    if !env.slots.ok then some (e, some sp)
    else match openGlobalSession e env.openGlobal with
      | (e, false) => some (e.free sp, some 0)
      | (e, true) => setupAndLogin e sp t env

def initSession (e : Engine) (sp : Addr) (t : Pk11OpType) (env : SetupResults) : Option (Engine × Addr) :=
  (e.session? sp).bind fun s =>
    if s.pid = 0 then
      (pk11SetupSession e sp t env).map fun (e, ok) => if ok then (e, sp) else (e.free sp, 0)
    else some (e, sp)

/-- The label err of pk11_get_session. -/
def leaveSession (e : Engine) (sp : Addr) (freelistLock : Lock) : Option (Engine × Addr) :=
  if sp = 0 then some (e.release freelistLock, 0)
  else (e.session? sp).map fun s => ((e.store sp { s with next := 0 }).release freelistLock, sp)

def freeInherited (e : Engine) (freelist : Addr) : Option Engine :=
  (freeFrom Pk11Session.next e.heap.keys.length e.heap freelist).map fun heap => { e with heap := heap }

/-- pk11_get_session from the check for a fork on. -/
def handOut (e : Engine) (t : Pk11OpType) (sp freelist : Addr) (freelistLock : Lock) (env : GetResults) :
    Option (Engine × Addr) := do
  let (e, freelist, exit) ←
    if e.pid = e.self then some (e, freelist, none)
    else do
      let e ← freeInherited { e with pid := e.self } freelist
      let (e, exit) ← startProcess e sp t env
      some (e, 0, exit)
  match exit with
  | some sp => leaveSession e sp freelistLock
  | none =>
      let (e, sp) ← initSession e sp t env.setup
      leaveSession (e.setHead t freelist) sp freelistLock

def pk11GetSession (e : Engine) (t : Pk11OpType) (env : GetResults) : Option (Engine × Addr) := do
  let freelistLock := e.lockOf (.cache t)
  let e := e.acquire freelistLock
  let e := if e.pid = 0 then { e with pid := e.self } else e
  let (e, sp, freelist) ← takeSession e t env.addr
  if sp = 0 then leaveSession e 0 freelistLock else handOut e t sp freelist freelistLock env

def pk11ReturnSession (e : Engine) (sp : Addr) (t : Pk11OpType) : Option Engine :=
  if sp = 0 then some e
  else (e.session? sp).map fun s =>
    if s.pid ≠ e.self then e
    else
      let freelistLock := e.lockOf (.cache t)
      let e := e.acquire freelistLock
      let e := (e.store sp { s with next := e.sessionCache t }).setHead t sp
      e.release freelistLock

end OiUserland.Pkcs11.Sessions
