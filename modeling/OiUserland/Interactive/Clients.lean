import Mathlib.Data.List.Basic

namespace OiUserland.Interactive.Clients

abbrev Pid := Int

abbrev ClientId := Nat

abbrev Addr := Nat

def serverClient : ClientId := 0

structure ClientProcess where
  pids : List Pid
  boosted : Bool

structure ClientPrivate where
  process : Option Addr
  wmgr : Bool

/-- A process of the class TS or IA. In IA the interactive mode is a boost. -/
structure Proc where
  ia : Bool
  interactive : Bool

structure IAState where
  clients : ClientId → Option ClientPrivate
  heap : Addr → Option ClientProcess
  next : Addr
  lastPids : Option Addr
  procs : Pid → Proc

inductive Cmd
  | unsetPriority
  | setPriority
  | setInteractive
  deriving DecidableEq

def setParms (cmd : Cmd) (procs : Pid → Proc) (pid : Pid) : Pid → Proc :=
  match cmd with
  | .unsetPriority => Function.update procs pid ⟨true, false⟩
  | .setPriority => Function.update procs pid ⟨true, true⟩
  | .setInteractive => if (procs pid).ia then procs else Function.update procs pid ⟨true, false⟩

def boostedBy (cmd : Cmd) (boosted : Bool) : Bool :=
  match cmd with
  | .unsetPriority => false
  | .setPriority => true
  | .setInteractive => boosted

def setPriority (cpp : Addr) (cmd : Cmd) (s : IAState) : Option IAState := do
  let list ← s.heap cpp
  if list.pids = [] then some s
  else some { s with
    procs := list.pids.foldl (setParms cmd) s.procs
    heap := Function.update s.heap cpp (some { list with boosted := boostedBy cmd list.boosted }) }

def pidSetEqual (a b : ClientProcess) : Bool :=
  a.pids.length = b.pids.length ∧ ∀ pid ∈ a.pids, pid ∈ b.pids

def getConnectionPids (s : IAState) (client : ClientId) : Option Addr := (s.clients client).bind ClientPrivate.process

def changeInteractive (client : ClientId) (s : IAState) : Option IAState :=
  match getConnectionPids s client with
  | none => some s
  | some currentPids => setPriority currentPids .setInteractive s

def sameAsLast (currentPids : Option Addr) (s : IAState) : Option Bool :=
  match currentPids, s.lastPids with
  | some currentPids, some lastPids => do
      let current ← s.heap currentPids
      let last ← s.heap lastPids
      some (pidSetEqual current last)
  | _, _ => some false

def unsetLast (s : IAState) : Option IAState :=
  match s.lastPids with
  | none => some s
  | some lastPids => do
      let s ← setPriority lastPids .unsetPriority s
      some { s with lastPids := none }

def changePriority (client : ClientId) (s : IAState) : Option IAState := do
  let priv := s.clients client
  if ← sameAsLast (priv.bind ClientPrivate.process) s then some s
  else
    let s ← unsetLast s
    match priv.bind ClientPrivate.process with
    | none => some s
    | some currentPids =>
        let current ← s.heap currentPids
        if current.pids = [] then some s
        else
          let s ← if current.boosted then some s else setPriority currentPids .setPriority s
          if client ≠ serverClient ∧ (priv.map ClientPrivate.wmgr) ≠ some true then
            some { s with lastPids := some currentPids }
          else some s

def iaInitClientPrivate (client : ClientId) (s : IAState) : IAState :=
  match s.clients client with
  | some _ => s
  | none => { s with clients := Function.update s.clients client (some ⟨none, false⟩) }

def freeProcessList (client : ClientId) (priv : ClientPrivate) (s : IAState) : IAState :=
  match priv.process with
  | none => s
  | some cpp =>
      { s with
        clients := Function.update s.clients client (some { priv with process := none })
        lastPids := if s.lastPids = some cpp then none else s.lastPids
        heap := Function.update s.heap cpp none }

def setClientPrivate (client : ClientId) (stuff : List Pid) (s : IAState) : Option IAState :=
  match s.clients client with
  | none => none
  | some priv =>
      let s := freeProcessList client priv s
      some { s with
        clients := Function.update s.clients client (some { priv with process := some s.next })
        heap := Function.update s.heap s.next (some ⟨stuff, false⟩)
        next := s.next + 1 }

def iaInitTimerCall (serverPid : Pid) (s : IAState) : Option IAState := do
  let s ← setClientPrivate serverClient [serverPid] (iaInitClientPrivate serverClient s)
  changePriority serverClient s

def clientInitial (client : ClientId) (clientPid : Option Pid) (s : IAState) : Option IAState :=
  let s := iaInitClientPrivate client s
  match clientPid with
  | none => some s
  | some clientPid => do
      let s ← setClientPrivate client [clientPid] s
      changeInteractive client s

def clientGone (client : ClientId) (s : IAState) : Option IAState :=
  match s.clients client with
  | none => some s
  | some priv => do
      let boosted ← match priv.process with
        | none => some false
        | some currentPids => (s.heap currentPids).map ClientProcess.boosted
      let s ← match priv.process with
        | none => some s
        | some currentPids => if boosted then setPriority currentPids .unsetPriority s else some s
      let s := if ← sameAsLast priv.process s then { s with lastPids := none } else s
      let s := freeProcessList client priv s
      some { s with clients := Function.update s.clients client none }

/-- A request for IASetProcessInfo that carries processes. -/
structure SetProcessInfo where
  interactiveInfo : Bool
  uid : Nat
  serverUid : Nat
  isLocal : Bool
  pids : List Pid

abbrev SetProcessInfo.permitted (stuff : SetProcessInfo) : Prop :=
  stuff.interactiveInfo ∧ (stuff.uid = stuff.serverUid ∨ stuff.serverUid = 0 ∨ stuff.uid = 0) ∧ stuff.isLocal

def procIASetProcessInfo (client : ClientId) (stuff : SetProcessInfo) (s : IAState) : Option IAState :=
  if stuff.permitted then do
    let s ← setClientPrivate client stuff.pids s
    changeInteractive client s
  else some s

def iaProcSetInputFocus (requestee : Option ClientId) (s : IAState) : Option IAState :=
  match requestee with
  | none => some s
  | some requestee => changePriority requestee s

def iaProcSendEvent (client : ClientId) (clientMessage : Bool) (requestee : ClientId) (s : IAState) : Option IAState := do
  let priv ← s.clients client
  if priv.wmgr ∧ clientMessage then changePriority requestee s else some s

def iaProcChangeWindowAttributes (client : ClientId) (redirects : Bool) (s : IAState) : Option IAState := do
  let priv ← s.clients client
  if priv.wmgr = false ∧ redirects then
    let s := { s with clients := Function.update s.clients client (some { priv with wmgr := true }) }
    let s ← changePriority client s
    some { s with lastPids := none }
  else some s

inductive Op
  | connect (client : ClientId) (clientPid : Option Pid)
  | disconnect (client : ClientId)
  | setProcessInfo (client : ClientId) (stuff : SetProcessInfo)
  | setInputFocus (requestee : Option ClientId)
  | sendEvent (client : ClientId) (clientMessage : Bool) (requestee : ClientId)
  | changeWindowAttributes (client : ClientId) (redirects : Bool)

def step : Op → IAState → Option IAState
  | .connect client clientPid, s => clientInitial client clientPid s
  | .disconnect client, s => clientGone client s
  | .setProcessInfo client stuff, s => procIASetProcessInfo client stuff s
  | .setInputFocus requestee, s => iaProcSetInputFocus requestee s
  | .sendEvent client clientMessage requestee, s => iaProcSendEvent client clientMessage requestee s
  | .changeWindowAttributes client redirects, s => iaProcChangeWindowAttributes client redirects s

/-- The server is no client of this kind, and a client is connected while it has a private. -/
def Legal : Op → IAState → Prop
  | .connect client _, s => client ≠ serverClient ∧ s.clients client = none
  | .disconnect client, _ => client ≠ serverClient
  | .setProcessInfo client _, s => client ≠ serverClient ∧ s.clients client ≠ none
  | .setInputFocus _, _ => True
  | .sendEvent client _ _, s => client ≠ serverClient ∧ s.clients client ≠ none
  | .changeWindowAttributes client _, s => client ≠ serverClient ∧ s.clients client ≠ none

def changed : Op → IAState → Option ClientId
  | .setInputFocus requestee, _ => requestee
  | .sendEvent client clientMessage requestee, s =>
      if (s.clients client).map ClientPrivate.wmgr = some true ∧ clientMessage then some requestee else none
  | .changeWindowAttributes client redirects, s =>
      if (s.clients client).map ClientPrivate.wmgr = some false ∧ redirects then some client else none
  | _, _ => none

end OiUserland.Interactive.Clients
