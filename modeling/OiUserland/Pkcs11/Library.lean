import OiUserland.Lib.Chains
import OiUserland.Lib.Mutexes
import OiUserland.Pkcs11.Types

namespace OiUserland.Pkcs11.Process

open Lib.Chains Lib.Mutexes Types

abbrev Addr := Nat

abbrev Pin := List UInt8

inductive LockName
  | find (t : Pk11OpType)
  | uri
  | cache (t : Pk11OpType)
  deriving DecidableEq

/-- A mutex in memory. pk11_init_all_locks creates all of them anew, so two
mutexes of one name differ in the count of its calls. -/
structure Lock where
  name : LockName
  generation : Nat
  deriving DecidableEq

/-- CKK_* of the supported ciphers. -/
inductive KeyType
  | des
  | des3
  | rc4
  | aes
  | blowfish
  deriving DecidableEq

/-- A secret key object: what C_CreateObject was given for it, and the session
structure that keeps its handle. -/
structure KeyObject where
  keyType : KeyType
  value : List UInt8
  creator : Addr
  deriving DecidableEq

/-- A pin source: PK11_URI_BUILTIN_DIALOG or a string. -/
inductive Dialog
  | builtin
  | spec (s : List Char)
  deriving DecidableEq

/-- POLICY_*. -/
inductive Policy
  | notInitialized
  | none
  | memory
  | mlockedMemory
  | wrongValue
  deriving DecidableEq

structure TokenFlags where
  tokenInitialized : Bool := true
  loginRequired : Bool := true
  userPinInitialized : Bool := true
  deriving DecidableEq

/-- The engine inside one process, as one of its threads sees it. `opened` and
`objects` belong to the PKCS#11 library: the session handles that are open and
the secret keys. `pins` are the copies of the PIN that callers of pk11_get_pin
have not erased. -/
structure Engine where
  heap : Heap Pk11Session := ∅
  sessionCache : Pk11OpType → Addr := fun _ => 0
  pid : Nat := 0
  self : Nat := 1
  globalSession : Handle := ckInvalidHandle
  libraryInitialized : Bool := true
  atforkInitialized : Bool := true
  pk11Pid : Nat := 1
  dso : Bool := true
  pubkeyTokenFlags : TokenFlags := {}
  opened : List Handle := []
  objects : Handle → Option KeyObject := fun _ => none
  passphrasedialog : Option Dialog := none
  tokenPin : Option Pin := none
  policy : Policy := .notInitialized
  policyEnv : Option (List Char) := none
  pins : List Pin := []
  generation : Nat := 0
  locks : LockState Lock := {}

namespace Engine

variable (e : Engine)

def session? (a : Addr) : Option Pk11Session := e.heap.lookup a

def store (a : Addr) (s : Pk11Session) : Engine := { e with heap := e.heap.insert a s }

def free (a : Addr) : Engine := { e with heap := e.heap.erase a }

def setHead (t : Pk11OpType) (a : Addr) : Engine :=
  { e with sessionCache := Function.update e.sessionCache t a }

def setObject (h : Handle) (o : Option KeyObject) : Engine := { e with objects := Function.update e.objects h o }

def lockOf (n : LockName) : Lock := ⟨n, e.generation⟩

def acquire (k : Lock) : Engine := { e with locks := lock k e.locks }

def release (k : Lock) : Engine := { e with locks := unlock k e.locks }

def erasePin (pin : Pin) : Engine := { e with pins := e.pins.erase pin }

def next (a : Addr) : Option Addr := linkOf Pk11Session.next e.heap a

end Engine

structure OpenResult where
  rv : Rv := ckrOk
  handle : Handle := 1
  deriving DecidableEq

def cOpenSession (e : Engine) (r : OpenResult) : Engine :=
  if r.rv = ckrOk then { e with opened := r.handle :: e.opened } else e

def cCloseSession (e : Engine) (h : Handle) (rv : Rv) : Engine :=
  if rv = ckrOk then { e with opened := e.opened.erase h } else e

section Lemmas

variable {e : Engine} {a b : Addr} {s : Pk11Session}

@[simp] theorem session?_store (e : Engine) (a : Addr) (s : Pk11Session) : (e.store a s).session? a = some s :=
  AList.lookup_insert _

theorem session?_store_ne (h : b ≠ a) : (e.store a s).session? b = e.session? b := AList.lookup_insert_ne h

@[simp] theorem session?_free (e : Engine) (a : Addr) : (e.free a).session? a = none := AList.lookup_erase _ _

theorem session?_free_ne (h : b ≠ a) : (e.free a).session? b = e.session? b := AList.lookup_erase_ne h

@[simp] theorem setHead_same (e : Engine) (t : Pk11OpType) (a : Addr) : (e.setHead t a).sessionCache t = a :=
  Function.update_self ..

theorem setHead_ne {t t' : Pk11OpType} (h : t' ≠ t) : (e.setHead t a).sessionCache t' = e.sessionCache t' :=
  Function.update_of_ne h ..

@[simp] theorem setObject_same (e : Engine) (h : Handle) (o : Option KeyObject) : (e.setObject h o).objects h = o :=
  Function.update_self ..

theorem setObject_ne {h h' : Handle} {o : Option KeyObject} (hne : h' ≠ h) :
    (e.setObject h o).objects h' = e.objects h' := Function.update_of_ne hne ..

theorem next_eq (e : Engine) (a : Addr) : e.next a = (e.session? a).map Pk11Session.next := rfl

end Lemmas

end OiUserland.Pkcs11.Process

namespace OiUserland.Pkcs11.Library

open Lib.Mutexes Types Process

/-- The outcome of pk11_choose_slots: its value, *any_slot_found and the flags
of the token that it picks for public keys. -/
structure SlotChoice where
  ok : Bool := true
  anySlotFound : Bool := true
  pubkeyTokenFlags : TokenFlags := {}

def pk11ChooseSlots (e : Engine) (c : SlotChoice) : Engine :=
  { e with pubkeyTokenFlags := c.pubkeyTokenFlags }

/-- The outcomes in pk11_library_init: of the allocations of the locks, of
DSO_load and DSO_bind_func, of pthread_atfork, and of the PKCS#11 calls. -/
structure LibraryResults where
  initLocks : Bool := true
  dsoLoad : Bool := true
  bindFunc : Bool := true
  getFunctionList : Rv := ckrOk
  cInitialize : Rv := ckrOk
  getInfo : Rv := ckrOk
  slots : SlotChoice := {}
  openGlobal : OpenResult := {}
  atfork : Bool := true

/-- What the engine accepts from C_Initialize. -/
def initialized (rv : Rv) : Prop := rv = ckrOk ∨ rv = ckrCryptokiAlreadyInitialized

instance (rv : Rv) : Decidable (initialized rv) := inferInstanceAs (Decidable (_ ∨ _))

/-- The mutexes after pk11_init_all_locks. When it fails it frees all of them,
the next lock or unlock by name would then follow a null pointer. -/
def pk11InitAllLocks (e : Engine) : Engine := { e with generation := e.generation + 1 }

def openGlobalSession (e : Engine) (r : OpenResult) : Engine × Bool :=
  if r.rv ≠ ckrOk then (e, false) else ({ cOpenSession e r with globalSession := r.handle }, true)

/-- The end of pk11_library_init: the fork handlers are installed once. -/
def markInitialized (e : Engine) (atfork : Bool) : Engine × Bool :=
  let e := { e with libraryInitialized := true, pk11Pid := e.self }
  if e.atforkInitialized then (e, true)
  else if atfork then ({ e with atforkInitialized := true }, true)
  else (e, false)

def chooseAndOpen (e : Engine) (env : LibraryResults) : Engine × Bool :=
  let e := pk11ChooseSlots e env.slots
  if !env.slots.ok then (e, false)
  else if !env.slots.anySlotFound then (e, true)
  else if e.globalSession = ckInvalidHandle then
    match openGlobalSession e env.openGlobal with
    | (e, false) => (e, false)
    | (e, true) => markInitialized e env.atfork
  else markInitialized e env.atfork

/-- pk11_library_init past the locks: the lists are emptied, and the PKCS#11
library is loaded and initialized. -/
def loadLibrary (e : Engine) (env : LibraryResults) : Engine × Bool :=
  let e := { e with sessionCache := fun _ => 0 }
  if !e.dso && !env.dsoLoad then (e, false)
  else
    let e := { e with dso := true }
    if !env.bindFunc then (e, false)
    else if env.getFunctionList ≠ ckrOk then (e, false)
    else if ¬ initialized env.cInitialize then (e, false)
    else if env.getInfo ≠ ckrOk then (e, false)
    else chooseAndOpen e env

def pk11LibraryInit (e : Engine) (env : LibraryResults) : Engine × Bool :=
  if e.libraryInitialized && e.pk11Pid == e.self then (e, true)
  else
    let e := if e.libraryInitialized then { e with globalSession := ckInvalidHandle } else e
    let e := pk11InitAllLocks e
    if !env.initLocks then (e, false) else loadLibrary e env

def forkLocks (e : Engine) : List Lock :=
  [.find .rsa, .find .dsa, .find .dh, .uri, .cache .rand, .cache .rsa, .cache .dsa, .cache .dh,
    .cache .cipher, .cache .digest].map e.lockOf

def forkUnlocks (e : Engine) : List Lock :=
  [.cache .digest, .cache .cipher, .cache .dh, .cache .dsa, .cache .rsa, .cache .rand, .find .dh,
    .find .dsa, .find .rsa, .uri].map e.lockOf

def pk11ForkPrepare (e : Engine) : Engine :=
  if !e.libraryInitialized then e else { e with locks := lockAll (forkLocks e) e.locks }

def pk11ForkParent (e : Engine) : Engine :=
  if !e.libraryInitialized then e else { e with locks := unlockAll (forkUnlocks e) e.locks }

def pk11ForkChild (e : Engine) : Engine :=
  if !e.libraryInitialized then e
  else { e with globalSession := ckInvalidHandle, locks := unlockAll (forkUnlocks e) e.locks }

/-- fork() as the process that calls it sees it. Its handlers run when it
fails too. -/
def forkInParent (e : Engine) : Engine :=
  if e.atforkInitialized then pk11ForkParent (pk11ForkPrepare e) else e

/-- fork() in the new process, where no PKCS#11 session is open. -/
def forkInChild (child : Nat) (e : Engine) : Engine :=
  let e := if e.atforkInitialized then pk11ForkChild (pk11ForkPrepare e) else e
  { e with self := child, opened := [], objects := fun _ => none }

end OiUserland.Pkcs11.Library
