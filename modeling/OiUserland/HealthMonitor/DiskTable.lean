import OiUserland.HealthMonitor.Rules
import OiUserland.Lib.Chains
import OiUserland.Lib.CStrings

namespace OiUserland.HealthMonitor.DiskTable

open Rules Lib.Chains Lib.CStrings

abbrev Addr := Nat

/-- A disk as krgetdiskdetail and krgetdisksrv report it. The percentages and the service time
are the texts that are printed for them. -/
structure Disk where
  name : List Char
  aliasName : List Char
  wPct : List Char
  rPct : List Char
  serv : List Char

/-- The alias has been allocated for `aliasLen` characters. -/
structure Row where
  hmDiskName : List Char
  hmDiskAliasName : List Char
  aliasLen : Nat
  hmAvgWaitTransactions : List Char
  hmDiskBusyPcnt : List Char
  hmAvgDiskSvcTime : List Char
  hmDiskState : AlarmState
  hmTraversed : Bool

structure HmDiskEntry where
  row : Row
  pNext : Addr

structure Config where
  hmRefreshInterval : Int
  diskBusyWarning : Int
  diskBusyProblem : Int
  diskSvcTWarning : Int
  diskSvcTProblem : Int

structure HmState where
  heap : Heap HmDiskEntry
  next : Addr
  head : Addr
  diskCount : Nat
  hmPrevDiskRef : Int

def diskDataLen : Nat := 8

def sprintf (text : List Char) : Option (List Char) := if text.length < diskDataLen then some text else none

def strcpy (room : Nat) (text : List Char) : Option (List Char) := if text.length ≤ room then some text else none

def updateRow (disk : Disk) (row : Row) : Option Row := do
  let aliasName ← strcpy row.aliasLen disk.aliasName
  let wait ← sprintf disk.wPct
  let busy ← sprintf disk.rPct
  let svcTime ← sprintf disk.serv
  some { row with
    hmDiskAliasName := aliasName
    hmAvgWaitTransactions := wait
    hmDiskBusyPcnt := busy
    hmAvgDiskSvcTime := svcTime
    hmTraversed := true }

def newRow (traversed : Bool) (disk : Disk) : Option Row := do
  let wait ← sprintf disk.wPct
  let busy ← sprintf disk.rPct
  let svcTime ← sprintf disk.serv
  some ⟨disk.name, disk.aliasName, disk.aliasName.length, wait, busy, svcTime, .ok, traversed⟩

def sameName (disk : Disk) (row : Row) : Bool := disk.name.isPrefixOf row.hmDiskName

def newDiskState (conf : Config) (busyTime svcTime : Int) : AlarmState :=
  if busyTime < conf.diskBusyWarning then .ok
  else if svcTime < conf.diskSvcTWarning then .ok
  else if conf.diskBusyProblem ≤ busyTime then
    if conf.diskSvcTWarning ≤ svcTime ∧ svcTime < conf.diskSvcTProblem then .warning
    else if conf.diskSvcTProblem ≤ svcTime then .error
    else .ok
  else .warning

def nextState (before new : AlarmState) : AlarmState :=
  if before < new then new else if new < before ∧ new = .ok then .ok else before

def checkRow (conf : Config) (row : Row) : Row :=
  { row with hmDiskState :=
      nextState row.hmDiskState (newDiskState conf (strtol row.hmDiskBusyPcnt).1 (strtol row.hmAvgDiskSvcTime).1) }

/-- The nodes are visited from a pointer on. A list that has not ended after as many rounds as
there are nodes never ends. -/
def checkFrom (conf : Config) : Nat → Addr → Heap HmDiskEntry → Option (Heap HmDiskEntry)
  | 0, _, _ => none
  | n + 1, headPtr, heap =>
      if headPtr = 0 then some heap
      else do
        let entry ← heap.lookup headPtr
        checkFrom conf n entry.pNext (heap.insert headPtr { entry with row := checkRow conf entry.row })

def checkStateDISK (conf : Config) (s : HmState) : Option HmState := do
  let heap ← checkFrom conf (s.heap.keys.length + 1) s.head s.heap
  some { s with heap := heap }

structure Enumeration where
  disks : List Disk
  failed : Bool

def appendRow (row : Row) (tailPtr : Addr) (s : HmState) : Option (HmState × Addr) := do
  let ptr := s.next
  let s := { s with heap := s.heap.insert ptr ⟨row, 0⟩, next := ptr + 1 }
  if tailPtr = 0 then some ({ s with head := ptr }, ptr)
  else
    let tail ← s.heap.lookup tailPtr
    some ({ s with heap := s.heap.insert tailPtr { tail with pNext := ptr } }, ptr)

def constructDisk (t : HmState × Addr) (disk : Disk) : Option (HmState × Addr) := do
  let row ← newRow false disk
  appendRow row t.2 { t.1 with diskCount := t.1.diskCount + 1 }

def constructDISKTable (conf : Config) (finished : Int) (e : Enumeration) (s : HmState) : Option HmState := do
  let s := { s with hmPrevDiskRef := 0, diskCount := 0 }
  if e.disks = [] ∧ e.failed = false then none
  else
    let (s, _) ← e.disks.foldlM constructDisk (s, 0)
    if e.failed then some s
    else
      let s ← checkStateDISK conf s
      some { s with hmPrevDiskRef := finished }

def resetFrom : Nat → Addr → Heap HmDiskEntry → Option (Heap HmDiskEntry × Addr)
  | 0, _, _ => none
  | n + 1, tailPtr, heap => do
      let entry ← heap.lookup tailPtr
      let heap := heap.insert tailPtr { entry with row := { entry.row with hmTraversed := false } }
      if entry.pNext = 0 then some (heap, tailPtr) else resetFrom n entry.pNext heap

def updateFrom (disk : Disk) : Nat → Addr → Heap HmDiskEntry → Option (Heap HmDiskEntry × Bool)
  | 0, _, _ => none
  | n + 1, headPtr, heap =>
      if headPtr = 0 then some (heap, false)
      else do
        let entry ← heap.lookup headPtr
        if sameName disk entry.row then
          let row ← updateRow disk entry.row
          some (heap.insert headPtr { entry with row := row }, true)
        else updateFrom disk n entry.pNext heap

def refreshDisk (t : HmState × Addr) (disk : Disk) : Option (HmState × Addr) := do
  let (heap, hit) ← updateFrom disk (t.1.heap.keys.length + 1) t.1.head t.1.heap
  let s := { t.1 with heap := heap, diskCount := t.1.diskCount + 1 }
  if hit then some (s, t.2)
  else
    let row ← newRow true disk
    appendRow row t.2 s

def sweepFrom : Nat → Addr → Addr → Heap HmDiskEntry → Option (Heap HmDiskEntry)
  | 0, _, _, _ => none
  | n + 1, p1, p2, heap =>
      if p2 = 0 then some heap
      else do
        let e2 ← heap.lookup p2
        if e2.row.hmTraversed = false then
          let e1 ← heap.lookup p1
          if e2.pNext ≠ 0 then
            let heap := (heap.insert p1 { e1 with pNext := e2.pNext }).erase p2
            let e1 ← heap.lookup p1
            sweepFrom n p1 e1.pNext heap
          else some ((heap.insert p1 { e1 with pNext := 0 }).erase p2)
        else if e2.pNext ≠ 0 then sweepFrom n p2 e2.pNext heap
        else sweepFrom n p1 e2.pNext heap

/-- No refresh is in progress, and the last one is long enough ago. -/
abbrev Due (conf : Config) (now : Int) (s : HmState) : Prop :=
  s.hmPrevDiskRef ≠ 0 ∧ ¬ now - s.hmPrevDiskRef < conf.hmRefreshInterval.tdiv 4

def refreshDISKTable (conf : Config) (now finished : Int) (e : Enumeration) (s : HmState) : Option HmState := do
  if Due conf now s then
    let s := { s with hmPrevDiskRef := 0, diskCount := 0 }
    let (heap, tailPtr) ← resetFrom (s.heap.keys.length + 1) s.head s.heap
    if e.disks = [] ∧ e.failed = false then none
    else
      let (s, _) ← e.disks.foldlM refreshDisk ({ s with heap := heap }, tailPtr)
      if e.failed then some s
      else
        let heap ← sweepFrom (s.heap.keys.length + 1) s.head s.head s.heap
        let s ← checkStateDISK conf { s with heap := heap }
        some { s with hmPrevDiskRef := finished }
  else some s

inductive Op
  | construct (conf : Config) (finished : Int) (e : Enumeration)
  | refresh (conf : Config) (now finished : Int) (e : Enumeration)

def step : Op → HmState → Option HmState
  | .construct conf finished e, s => constructDISKTable conf finished e s
  | .refresh conf now finished e, s => refreshDISKTable conf now finished e s

/-- The names of an enumeration are distinct. -/
def Legal : Op → HmState → Prop
  | .construct _ _ e, _ => (e.disks.map Disk.name).Nodup
  | .refresh _ _ _ e, _ => (e.disks.map Disk.name).Nodup

/-- The table is empty, and no refresh is in progress. -/
def Init (s : HmState) : Prop := s = ⟨∅, 1, 0, 0, 1⟩

end OiUserland.HealthMonitor.DiskTable
