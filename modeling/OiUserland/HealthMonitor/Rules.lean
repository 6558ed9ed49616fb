import Mathlib.Order.Lattice
import Mathlib.Order.BoundedOrder.Basic

namespace OiUserland.HealthMonitor.Rules

inductive AlarmState
  | ok
  | info
  | warning
  | error
  deriving DecidableEq

namespace AlarmState

def value : AlarmState → Nat
  | ok => 0
  | info => 1
  | warning => 2
  | error => 3

theorem value_injective : Function.Injective value := by
  intro a b h
  cases a <;> cases b <;> first | rfl | cases h

instance : LinearOrder AlarmState := LinearOrder.lift' value value_injective

instance : OrderBot AlarmState where
  bot := ok
  bot_le a := Nat.zero_le a.value

end AlarmState

def convAlarmState : AlarmState → String
  | .ok => "OK"
  | .info => "INFO"
  | .warning => "WARNING"
  | .error => "ERROR"

inductive RuleState
  | notInit
  | init
  | opened
  | continued
  | closed
  deriving DecidableEq

inductive Action
  | init
  | opened
  | continued
  | closed
  | condition

/-- What send_trap is called with. -/
structure Trap where
  trapoid : List Nat
  status : String
  description : String
  dvalue : String
  dtype : Nat

/-- The variables prev_*_state and new_*_state of a rule, and what else it keeps. -/
structure RuleVars (δ : Type) where
  prev : AlarmState
  new : AlarmState
  data : δ

/-- A rule as it differs from the others: its trap, how it judges a sample, and what it does to
its own data at opening and at the start. `condition` gives the new state and the state that is
returned. -/
structure Rule (σ δ : Type) where
  trapoid : List Nat
  description : String
  dvalue : σ → String
  condition : σ → δ → AlarmState × AlarmState × δ
  opened : σ → δ → δ
  init : δ → δ

section Driver

variable {σ δ : Type} (rule : Rule σ δ)

def Rule.trap (x : σ) (status : AlarmState) : Trap :=
  ⟨rule.trapoid, convAlarmState status, rule.description, rule.dvalue x, 1⟩

def Rule.call (x : σ) (v : RuleVars δ) : Action → AlarmState × Option Trap × RuleVars δ
  | .condition =>
    let c := rule.condition x v.data
    (c.2.1, none, ⟨v.prev, c.1, c.2.2⟩)
  | .opened => (.ok, some (rule.trap x v.new), ⟨v.prev, v.new, rule.opened x v.data⟩)
  | .init => (.ok, none, ⟨v.prev, v.new, rule.init v.data⟩)
  | .continued => if v.prev < v.new then (.ok, some (rule.trap x v.new), ⟨v.new, v.new, v.data⟩) else (.ok, none, v)
  | .closed => (.ok, some (rule.trap x v.new), v)

def startRule (x : σ) (s : RuleState × RuleVars δ) : RuleState × RuleVars δ :=
  if s.1 = .notInit then (.init, (rule.call x s.2 .init).2.2) else s

/-- hm_handle_rule: the trap that is sent, and what is kept to the next call. -/
def hmHandleRule (x : σ) (s : RuleState × RuleVars δ) : Option Trap × RuleState × RuleVars δ :=
  let s := startRule rule x s
  let c := rule.call x s.2 .condition
  let turn (state : RuleState) (action : Action) : Option Trap × RuleState × RuleVars δ :=
    let r := rule.call x c.2.2 action
    (r.2.1, state, r.2.2)
  match s.1 with
  | .init | .closed => if .ok < c.1 then turn .opened .opened else (none, s.1, c.2.2)
  | .opened | .continued => if c.1 = .ok then turn .closed .closed else turn .continued .continued
  | .notInit => (none, s.1, c.2.2)

end Driver

/-- The thresholds that health_monitor.conf sets. -/
structure Thresholds where
  swapavailInfo : Int := 500000
  swapavailWarning : Int := 100000
  swapavailError : Int := 40000
  mutexInfo : BitVec 64 := 200
  mutexWarning : BitVec 64 := 500
  mincalls : Float32 := 0.1
  badxids : Float32 := 0.0
  timeouts : Float32 := 5.0
  cpuloadInfo : Float32 := 1.0
  cpuloadWarning : Float32 := 2.0
  cpuloadError : Float32 := 3.0
  restimeLong : Int := 600
  restimeOk : Int := 40
  restimeError : Int := 20
  dnlcActive : Float32 := 100.0
  dnlcWarning : Float32 := 80

section Conditions

variable (θ : Thresholds)

def plain {δ : Type} (state : AlarmState) (d : δ) : AlarmState × AlarmState × δ := (state, state, d)

def swapRule : Rule Int Unit where
  trapoid := [1, 3, 6, 1, 4, 1, 42, 2, 12, 2, 2, 11, 1, 1, 1, 0]
  description := "Available Swap space on the system is low"
  dvalue := fun swapavail => toString swapavail
  condition := fun swapavail d =>
    if swapavail ≤ θ.swapavailInfo ∧ swapavail > θ.swapavailWarning then plain .info d
    else if swapavail ≤ θ.swapavailWarning ∧ swapavail > θ.swapavailError then plain .warning d
    else if swapavail ≤ θ.swapavailError then plain .error d
    else plain .ok d
  opened := fun _ d => d
  init := id

structure KernelData where
  sumSmtx : BitVec 64
  ncpus : BitVec 32

def mutexrate (x : KernelData) : BitVec 32 := (x.sumSmtx / x.ncpus.signExtend 64).truncate 32

/-- A rate at which the state is ERROR is returned as WARNING. -/
def kernelRule : Rule KernelData Unit where
  trapoid := [1, 3, 6, 1, 4, 1, 42, 2, 12, 2, 2, 11, 2, 1, 1, 0]
  description := "Mutex contention rate is high , kernel overload "
  dvalue := fun x => toString x.sumSmtx.toNat
  condition := fun x d =>
    if x.ncpus = 0 then plain .ok d
    else if ((mutexrate x).signExtend 64).ult θ.mutexInfo then
      if mutexrate x = 0 then plain .ok d else plain .info d
    else if ((mutexrate x).signExtend 64).ult θ.mutexWarning then plain .warning d
    else (.error, .warning, d)
  opened := fun _ d => d
  init := id

structure NfsData where
  calls : Float
  timeouts : Int
  badxids : Int

def maxtimeout (x : NfsData) : Float32 := (θ.timeouts.toFloat * x.calls / 100.0).toFloat32

def maxbadxid (x : NfsData) : Float32 := ((θ.badxids * Float32.ofInt x.timeouts).toFloat / 100.0).toFloat32

def nfsRule : Rule NfsData Unit where
  trapoid := [1, 3, 6, 1, 4, 1, 42, 2, 12, 2, 2, 11, 3, 1]
  description := "Bad Network or Server is slow. May need to increase timeout "
  dvalue := fun x => toString x.timeouts
  condition := fun x d =>
    if x.calls ≤ θ.mincalls.toFloat then plain .ok d
    else if Float32.ofInt x.timeouts < maxtimeout θ x then plain .ok d
    else if maxtimeout θ x ≤ Float32.ofInt x.timeouts ∧ Float32.ofInt x.badxids ≤ maxbadxid θ x then plain .warning d
    else plain .error d
  opened := fun _ d => d
  init := id

structure CpuData where
  runque : Int
  ncpus : Int

def cpuload (x : CpuData) : Float32 := Float32.ofInt (x.runque.tdiv x.ncpus)

def cpuRule : Rule CpuData Unit where
  trapoid := [1, 3, 6, 1, 4, 1, 42, 2, 12, 2, 2, 11, 4, 1, 1, 0]
  description := "CPU overloaded "
  dvalue := fun x => toString x.runque
  condition := fun x d =>
    if x.ncpus = 0 then plain .ok d
    else if cpuload x < θ.cpuloadInfo then plain .ok d
    else if cpuload x < θ.cpuloadWarning then plain .info d
    else if cpuload x < θ.cpuloadError then plain .warning d
    else plain .error d
  opened := fun _ d => d
  init := id

structure RamData where
  handspread : Int
  scan : Int

def restime (x : RamData) : Float32 :=
  let long := Float32.ofInt θ.restimeLong
  let restime := if x.scan = 0 then long else Float32.ofInt (x.handspread.tdiv x.scan)
  if restime > long then long else restime

def ramRule : Rule RamData Unit where
  trapoid := [1, 3, 6, 1, 4, 1, 42, 2, 12, 2, 2, 11, 6, 1]
  description := "RAM shortage "
  dvalue := fun x => toString x.scan
  condition := fun x d =>
    if restime θ x ≥ Float32.ofInt θ.restimeLong then plain .ok d
    else if restime θ x > Float32.ofInt θ.restimeOk then plain .info d
    else if restime θ x > Float32.ofInt θ.restimeError then plain .warning d
    else plain .error d
  opened := fun _ d => d
  init := id

/-- firstkmemerrs and lastkmemerrs. -/
structure KmemErrs where
  first : Int
  last : Int

def kmemRule : Rule Int KmemErrs where
  trapoid := [1, 3, 6, 1, 4, 1, 42, 2, 12, 2, 2, 11, 7, 1]
  description := "Kernel Memory allocation errors "
  dvalue := fun allocFail => toString allocFail
  condition := fun allocFail d =>
    if allocFail = d.first then if allocFail = 0 then plain .ok d else plain .info d
    else if allocFail = d.last then plain .warning d
    else plain .error { d with last := allocFail }
  opened := fun allocFail _ => ⟨allocFail, allocFail⟩
  init := fun _ => ⟨0, 0⟩

structure DnlcData where
  hitrate : Int
  refrate : Int

def dnlcRule : Rule DnlcData Unit where
  trapoid := [1, 3, 6, 1, 4, 1, 42, 2, 12, 2, 2, 11, 8, 1]
  description := "Poor DNLC Hit rate "
  dvalue := fun x => toString x.hitrate
  condition := fun x d =>
    if Float32.ofInt x.refrate < θ.dnlcActive then plain .ok d
    else if Float32.ofInt x.hitrate > θ.dnlcWarning then plain .ok d
    else plain .warning d
  opened := fun _ d => d
  init := id

end Conditions

inductive Node
  | swap
  | kernel
  | nfs
  | cpu
  | ram
  | kmem
  | dnlc

def Node.Sample : Node → Type
  | .swap | .kmem => Int
  | .kernel => KernelData
  | .nfs => NfsData
  | .cpu => CpuData
  | .ram => RamData
  | .dnlc => DnlcData

def Node.Data : Node → Type
  | .kmem => KmemErrs
  | _ => Unit

def Node.rule (θ : Thresholds) : (node : Node) → Rule node.Sample node.Data
  | .swap => swapRule θ
  | .kernel => kernelRule θ
  | .nfs => nfsRule θ
  | .cpu => cpuRule θ
  | .ram => ramRule θ
  | .kmem => kmemRule
  | .dnlc => dnlcRule θ

/-- The data of a rule before the first call. -/
def Node.data : (node : Node) → node.Data
  | .kmem => (⟨0, 0⟩ : KmemErrs)
  | .swap | .kernel | .nfs | .cpu | .ram | .dnlc => ()

end OiUserland.HealthMonitor.Rules
