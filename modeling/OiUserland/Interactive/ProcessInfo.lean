import OiUserland.Lib.Runs
import OiUserland.Interactive.Clients

namespace OiUserland.Interactive.ProcessInfo

open Lib.Runs Clients

structure Ptr where
  block : Nat
  offset : Nat

structure ProcessRec where
  count : Nat
  pids : Ptr
  boosted : Bool

structure State where
  clients : ClientId → Option ClientPrivate
  recs : Addr → Option ProcessRec
  blocks : Nat → Option (List Pid)
  next : Addr
  lastPids : Option Addr
  procs : Pid → Proc
  ia_nice : Int

def load (s : State) (p : Ptr) : Option Pid := (s.blocks p.block).bind fun pids => pids[p.offset]?

def walk (s : State) : Nat → Ptr → Option (List Pid × Ptr)
  | 0, p => some ([], p)
  | n + 1, p => do
      let pid ← load s p
      let r ← walk s n ⟨p.block, p.offset + 1⟩
      some (pid :: r.1, r.2)

def getConnectionPids (s : State) (client : ClientId) : Option Addr := (s.clients client).bind ClientPrivate.process

def setPriority (cpp : Addr) (cmd : Cmd) (s : State) : Option State := do
  let list ← s.recs cpp
  if list.count = 0 then some s
  else do
    let r ← walk s list.count list.pids
    some { s with
      procs := r.1.foldl (setParms cmd) s.procs
      recs := Function.update s.recs cpp (some { list with boosted := boostedBy cmd list.boosted }) }

def pidSetEqual (a b : ProcessRec) (s : State) : Option Bool :=
  if a.count ≠ b.count then some false
  else do
    let as ← walk s a.count a.pids
    let bs ← walk s b.count b.pids
    some (as.1.all fun pid => bs.1.contains pid)

def sameAsLast (currentPids : Option Addr) (s : State) : Option Bool :=
  match currentPids, s.lastPids with
  | some currentPids, some lastPids => do
      let current ← s.recs currentPids
      let last ← s.recs lastPids
      pidSetEqual current last s
  | _, _ => some false

def unsetLast (s : State) : Option State :=
  match s.lastPids with
  | none => some s
  | some lastPids => do
      let s ← setPriority lastPids .unsetPriority s
      some { s with lastPids := none }

def changeInteractive (client : ClientId) (s : State) : Option State :=
  match getConnectionPids s client with
  | none => some s
  | some currentPids => setPriority currentPids .setInteractive s

def changePriority (client : ClientId) (s : State) : Option State := do
  if ← sameAsLast (getConnectionPids s client) s then some s
  else
    let s ← unsetLast s
    match getConnectionPids s client with
    | none => some s
    | some currentPids => do
        let current ← s.recs currentPids
        if current.count = 0 then some s
        else do
          let s ← if current.boosted then some s else setPriority currentPids .setPriority s
          if client ≠ serverClient ∧ ((s.clients client).map ClientPrivate.wmgr) ≠ some true then
            some { s with lastPids := some currentPids }
          else some s

structure Mallocs where
  priv : Bool
  again : Bool
  list : Bool

def initClientPrivate (malloc : Bool) (client : ClientId) (s : State) : State :=
  match s.clients client with
  | some _ => s
  | none => if malloc then { s with clients := Function.update s.clients client (some ⟨none, false⟩) } else s

def freeBlock (p : Ptr) (s : State) : Option State :=
  if p.offset = 0 ∧ (s.blocks p.block).isSome then some { s with blocks := Function.update s.blocks p.block none }
  else none

def freeProcessList (client : ClientId) (priv : ClientPrivate) (s : State) : Option State :=
  match priv.process with
  | none => some s
  | some cpp => do
      let list ← s.recs cpp
      let s ← freeBlock list.pids s
      some { s with
        clients := Function.update s.clients client (some { priv with process := none })
        lastPids := if s.lastPids = some cpp then none else s.lastPids
        recs := Function.update s.recs cpp none }

def setClientPrivate (mallocs : Mallocs) (client : ClientId) (stuff : List Pid) (s : State) : Option State :=
  match s.clients client with
  | none => if mallocs.list then none else some (initClientPrivate mallocs.again client s)
  | some priv => do
      let s ← freeProcessList client priv s
      if mallocs.list then
        some { s with
          clients := Function.update s.clients client (some { priv with process := some s.next })
          recs := Function.update s.recs s.next (some ⟨stuff.length, ⟨s.next, 0⟩, false⟩)
          blocks := Function.update s.blocks s.next (some stuff)
          next := s.next + 1 }
      else some s

def iaInitTimerCall (mallocs : Mallocs) (serverPid : Pid) (s : State) : Option State := do
  let s ← setClientPrivate mallocs serverClient [serverPid] (initClientPrivate mallocs.priv serverClient s)
  changePriority serverClient s

def clientInitial (mallocs : Mallocs) (client : ClientId) (clientPid : Option Pid) (s : State) : Option State :=
  let s := initClientPrivate mallocs.priv client s
  match clientPid with
  | none => some s
  | some clientPid => do
      let s ← setClientPrivate mallocs client [clientPid] s
      changeInteractive client s

def unsetBoosted (currentPids : Option Addr) (s : State) : Option State :=
  match currentPids with
  | none => some s
  | some currentPids => do
      let list ← s.recs currentPids
      if list.boosted then setPriority currentPids .unsetPriority s else some s

def clientGone (client : ClientId) (s : State) : Option State :=
  match s.clients client with
  | none => some s
  | some priv => do
      let s ← unsetBoosted priv.process s
      let s := if ← sameAsLast priv.process s then { s with lastPids := none } else s
      let s ← freeProcessList client priv s
      some { s with clients := Function.update s.clients client none }

def procIASetProcessInfo (mallocs : Mallocs) (client : ClientId) (stuff : SetProcessInfo) (s : State) :
    Option State :=
  if stuff.permitted then do
    let s ← setClientPrivate mallocs client stuff.pids s
    changeInteractive client s
  else some s

def detect (client : ClientId) (s : State) : Option State := do
  let priv ← s.clients client
  let s := { s with clients := Function.update s.clients client (some { priv with wmgr := true }) }
  let s ← changePriority client s
  some { s with lastPids := none }

structure GetProcessInfo where
  interactiveInfo : Bool
  interactiveSetting : Bool
  mallocInfo : Bool
  mallocSetting : Bool

/-- The count of a reply to a request without flags is not set. -/
structure Reply where
  count : Option Nat
  values : List Int
  deriving DecidableEq

def replyInfo (client : ClientId) (stuff : GetProcessInfo) (s : State) : Option (Option Reply × State) :=
  if stuff.interactiveInfo then
    match getConnectionPids s client with
    | none => some (some ⟨some 0, []⟩, s)
    | some currentPids => do
        let list ← s.recs currentPids
        if stuff.mallocInfo then do
          let r ← walk s list.count list.pids
          some (some ⟨some list.count, r.1⟩,
            { s with recs := Function.update s.recs currentPids (some { list with pids := r.2 }) })
        else some (none, s)
  else some (some ⟨none, []⟩, s)

def procIAGetProcessInfo (client : ClientId) (stuff : GetProcessInfo) (s : State) :
    Option (Option Reply × State) := do
  let (reply, s) ← replyInfo client stuff s
  if reply.isSome ∧ stuff.interactiveSetting = true then
    some (if stuff.mallocSetting then some ⟨some 1, [s.ia_nice]⟩ else none, s)
  else some (reply, s)

inductive Op
  | start (mallocs : Mallocs) (serverPid : Pid)
  | connect (mallocs : Mallocs) (client : ClientId) (clientPid : Option Pid)
  | disconnect (client : ClientId)
  | setProcessInfo (mallocs : Mallocs) (client : ClientId) (stuff : SetProcessInfo)
  | setNice (value : Int)
  | getProcessInfo (client : ClientId) (stuff : GetProcessInfo)
  | focus (requestee : ClientId)
  | detect (client : ClientId)

abbrev Last := ClientId → Option (List Pid)

structure Session where
  state : State
  last : Last

def kept (mallocs : Mallocs) (list : List Pid) : Option (List Pid) := if mallocs.list then some list else none

def step : Op → Session → Option (Option Reply × Session)
  | .start mallocs serverPid, s => (iaInitTimerCall mallocs serverPid s.state).map fun state =>
      (none, ⟨state, Function.update s.last serverClient (kept mallocs [serverPid])⟩)
  | .connect mallocs client clientPid, s => (clientInitial mallocs client clientPid s.state).map fun state =>
      (none, ⟨state, Function.update s.last client (clientPid.bind fun pid => kept mallocs [pid])⟩)
  | .disconnect client, s => (clientGone client s.state).map fun state =>
      (none, ⟨state, Function.update s.last client none⟩)
  | .setProcessInfo mallocs client stuff, s => (procIASetProcessInfo mallocs client stuff s.state).map fun state =>
      (none, ⟨state, if stuff.permitted then Function.update s.last client (kept mallocs stuff.pids) else s.last⟩)
  | .setNice value, s => some (none, ⟨{ s.state with ia_nice := value }, s.last⟩)
  | .getProcessInfo client stuff, s => (procIAGetProcessInfo client stuff s.state).map fun r => (r.1, ⟨r.2, s.last⟩)
  | .focus requestee, s => (changePriority requestee s.state).map fun state => (none, ⟨state, s.last⟩)
  | .detect client, s => (ProcessInfo.detect client s.state).map fun state => (none, ⟨state, s.last⟩)

def Init (s : Session) : Prop :=
  (∃ procs nice, s.state = ⟨fun _ => none, fun _ => none, fun _ => none, 0, none, procs, nice⟩) ∧
    s.last = fun _ => none

/-- The server starts once, and a client connects while it has no private. -/
def Legal : Op → Session → Prop
  | .start _ _, s => s.state.clients serverClient = none
  | .connect _ client _, s => client ≠ serverClient ∧ s.state.clients client = none
  | .disconnect client, _ => client ≠ serverClient
  | _, _ => True

/-- A list is set for a client with a private. A list with processes is not asked for while there
is memory for the answer, and the setting is not asked for with the list. -/
def Fits : Op → Session → Prop
  | .start mallocs _, _ => mallocs.list = true → mallocs.priv = true
  | .connect mallocs _ clientPid, _ => clientPid ≠ none → mallocs.list = true → mallocs.priv = true
  | .setProcessInfo mallocs client stuff, s => stuff.permitted → mallocs.list = true → s.state.clients client ≠ none
  | .getProcessInfo client stuff, s => stuff.interactiveInfo = true →
      (stuff.mallocInfo = true → s.last client = none ∨ s.last client = some []) ∧
        (stuff.interactiveSetting = true → stuff.mallocSetting = true → s.last client ≠ none ∧
          stuff.mallocInfo = false)
  | .detect client, s => s.state.clients client ≠ none
  | _, _ => True

structure Right (s : State) (last : Last) : Prop where
  stored : ∀ c a, getConnectionPids s c = some a → ∃ list boosted,
    last c = some list ∧ s.recs a = some ⟨list.length, ⟨a, 0⟩, boosted⟩ ∧ s.blocks a = some list
  empty : ∀ c, getConnectionPids s c = none → last c = none
  sole : ∀ c c' a, getConnectionPids s c = some a → getConnectionPids s c' = some a → c = c'
  live : ∀ a, s.blocks a ≠ none → ∃ c, getConnectionPids s c = some a
  fresh : ∀ a, s.next ≤ a → s.blocks a = none
  owned : ∀ a, s.lastPids = some a → ∃ c, getConnectionPids s c = some a

/-- Nothing goes wrong, the lists are right afterwards, and a request for a list leaves everything
as it is and is answered with the list that has been set last. -/
def Does (op : Op) (s : Session) : Prop :=
  ∃ r s', step op s = some (r, s') ∧ Right s'.state s'.last ∧
    ∀ client stuff, op = .getProcessInfo client stuff → s' = s ∧
      (stuff.interactiveInfo = true → ∀ reply, r = some reply →
        reply = ⟨some ((s.last client).getD []).length, (s.last client).getD []⟩)

variable {s s' s'' : State} {last : Last} {c c' : ClientId} {a : Addr} {priv : ClientPrivate}

theorem walk_block {n : Nat} {p : Ptr} {pids : List Pid} (hb : s.blocks p.block = some pids)
    (hn : p.offset + n ≤ pids.length) :
    walk s n p = some ((pids.drop p.offset).take n, ⟨p.block, p.offset + n⟩) := by
  induction n generalizing p with
  | zero => rw [walk, List.take_zero, Nat.add_zero]
  | succ n ih =>
      have hlt : p.offset < pids.length := by omega
      have hload : load s p = some pids[p.offset] := by
        rw [load, hb, Option.bind_some]
        exact List.getElem?_eq_getElem hlt
      have hrest := ih (p := ⟨p.block, p.offset + 1⟩) hb (by dsimp only; omega)
      simp only [walk, hload, hrest, Option.bind_eq_bind, Option.bind_some]
      rw [List.drop_eq_getElem_cons hlt, List.take_succ_cons, Nat.add_assoc, Nat.add_comm 1]

theorem walk_all {pids : List Pid} (hb : s.blocks a = some pids) :
    walk s pids.length ⟨a, 0⟩ = some (pids, ⟨a, pids.length⟩) := by
  have hwalk := walk_block (p := ⟨a, 0⟩) hb (Nat.le_of_eq (Nat.zero_add _))
  dsimp only at hwalk
  rw [hwalk, List.drop_zero, List.take_length, Nat.zero_add]

theorem connection_self {p : ClientPrivate} (h : s.clients c = some p) : getConnectionPids s c = p.process := by
  rw [getConnectionPids, h, Option.bind_some]

theorem connection_none (h : s.clients c = none) : getConnectionPids s c = none := by
  rw [getConnectionPids, h, Option.bind_none]

theorem connection_congr (h : s'.clients c = s.clients c) : getConnectionPids s' c = getConnectionPids s c := by
  rw [getConnectionPids, getConnectionPids, h]

theorem Right.congr (h : Right s last) (hconn : ∀ c, getConnectionPids s' c = getConnectionPids s c)
    (hblocks : s'.blocks = s.blocks) (hnext : s'.next = s.next)
    (hrecs : ∀ c a list, getConnectionPids s c = some a → s.recs a = some list →
      ∃ boosted, s'.recs a = some { list with boosted := boosted })
    (hlast : ∀ a, s'.lastPids = some a → ∃ c, getConnectionPids s c = some a) : Right s' last := by
  refine ⟨fun c a ha => ?_, fun c hc => h.empty c (hconn c ▸ hc), fun c c' a h₁ h₂ => ?_,
    fun a ha => ?_, fun a ha => ?_, fun a ha => ?_⟩
  · rw [hconn] at ha
    obtain ⟨list, boosted, hset, hrec, hblock⟩ := h.stored c a ha
    obtain ⟨boosted', hrec'⟩ := hrecs c a _ ha hrec
    exact ⟨list, boosted', hset, hrec', hblocks ▸ hblock⟩
  · exact h.sole c c' a (hconn c ▸ h₁) (hconn c' ▸ h₂)
  · obtain ⟨c, hc⟩ := h.live a (hblocks ▸ ha)
    exact ⟨c, (hconn c).trans hc⟩
  · exact hblocks ▸ h.fresh a (hnext ▸ ha)
  · obtain ⟨c, hc⟩ := hlast a ha
    exact ⟨c, (hconn c).trans hc⟩

theorem Right.forget (h : Right s last) : Right { s with lastPids := none } last :=
  h.congr (fun _ => rfl) rfl rfl (fun _ _ list _ hlist => ⟨list.boosted, hlist⟩) nofun

theorem setPriority_right (h : Right s last) (hc : getConnectionPids s c = some a) (cmd : Cmd) :
    ∃ s', setPriority a cmd s = some s' ∧ Right s' last ∧ s'.clients = s.clients ∧ s'.lastPids = s.lastPids := by
  obtain ⟨list, boosted, -, hrec, hblock⟩ := h.stored c a hc
  by_cases hzero : list.length = 0
  · refine ⟨s, ?_, h, rfl, rfl⟩
    simp only [setPriority, hrec, Option.bind_eq_bind, Option.bind_some, if_pos hzero]
  · refine ⟨{ s with
      procs := list.foldl (setParms cmd) s.procs
      recs := Function.update s.recs a (some ⟨list.length, ⟨a, 0⟩, boostedBy cmd boosted⟩) }, ?_, ?_, rfl, rfl⟩
    · simp only [setPriority, hrec, Option.bind_eq_bind, Option.bind_some, if_neg hzero, walk_all hblock]
    · refine h.congr (fun _ => rfl) rfl rfl (fun c' a' list' hc' hlist' => ?_) h.owned
      by_cases haa : a' = a
      · subst haa
        rw [hrec] at hlist'
        cases hlist'
        exact ⟨_, Function.update_self ..⟩
      · exact ⟨list'.boosted, (Function.update_of_ne haa ..).trans hlist'⟩

theorem sameAsLast_total (h : Right s last) (c : ClientId) :
    ∃ same, sameAsLast (getConnectionPids s c) s = some same := by
  cases hc : getConnectionPids s c with
  | none => exact ⟨false, rfl⟩
  | some a =>
      cases hlast : s.lastPids with
      | none => exact ⟨false, by simp only [sameAsLast, hlast]⟩
      | some b =>
          obtain ⟨c', hc'⟩ := h.owned b hlast
          obtain ⟨list, boosted, -, hrec, hblock⟩ := h.stored c a hc
          obtain ⟨list', boosted', -, hrec', hblock'⟩ := h.stored c' b hc'
          by_cases hlen : list.length ≠ list'.length
          · refine ⟨false, ?_⟩
            simp only [sameAsLast, hlast, hrec, hrec', Option.bind_eq_bind, Option.bind_some, pidSetEqual,
              if_pos hlen]
          · refine ⟨list.all fun pid => list'.contains pid, ?_⟩
            simp only [sameAsLast, hlast, hrec, hrec', Option.bind_eq_bind, Option.bind_some, pidSetEqual,
              if_neg hlen, walk_all hblock, walk_all hblock']

theorem unsetLast_right (h : Right s last) :
    ∃ s', unsetLast s = some s' ∧ Right s' last ∧ s'.clients = s.clients := by
  cases hlast : s.lastPids with
  | none =>
      refine ⟨s, ?_, h, rfl⟩
      rw [unsetLast, hlast]
  | some b =>
      obtain ⟨c, hc⟩ := h.owned b hlast
      obtain ⟨s', hset, hs', hclients, -⟩ := setPriority_right h hc .unsetPriority
      refine ⟨{ s' with lastPids := none }, ?_, hs'.forget, hclients⟩
      simp only [unsetLast, hlast, hset, Option.bind_eq_bind, Option.bind_some]

theorem changeInteractive_right (h : Right s last) (c : ClientId) :
    ∃ s', changeInteractive c s = some s' ∧ Right s' last ∧ s'.clients = s.clients := by
  rw [changeInteractive]
  cases hc : getConnectionPids s c with
  | none => exact ⟨s, rfl, h, rfl⟩
  | some a =>
      obtain ⟨s', hset, hs', hclients, -⟩ := setPriority_right h hc .setInteractive
      exact ⟨s', hset, hs', hclients⟩

theorem changePriority_right (h : Right s last) (c : ClientId) :
    ∃ s', changePriority c s = some s' ∧ Right s' last ∧ s'.clients = s.clients := by
  obtain ⟨same, hsame⟩ := sameAsLast_total h c
  cases same with
  | true =>
      refine ⟨s, ?_, h, rfl⟩
      simp only [changePriority, hsame, Option.bind_eq_bind, Option.bind_some, if_true]
  | false =>
      obtain ⟨s₁, hunset, hs₁, hclients₁⟩ := unsetLast_right h
      have hconn : getConnectionPids s₁ c = getConnectionPids s c := connection_congr (congrFun hclients₁ c)
      cases hc : getConnectionPids s c with
      | none =>
          refine ⟨s₁, ?_, hs₁, hclients₁⟩
          rw [hc] at hsame hconn
          simp only [changePriority, hc, hsame, hunset, hconn, Option.bind_eq_bind, Option.bind_some,
            Bool.false_eq_true, if_false]
      | some a =>
          rw [hc] at hsame hconn
          obtain ⟨list, boosted, -, hrec, -⟩ := hs₁.stored c a hconn
          by_cases hzero : list.length = 0
          · refine ⟨s₁, ?_, hs₁, hclients₁⟩
            simp only [changePriority, hc, hsame, hunset, hconn, hrec, Option.bind_eq_bind, Option.bind_some,
              Bool.false_eq_true, if_false, if_pos hzero]
          · obtain ⟨s₂, hcall, hs₂, hclients₂⟩ : ∃ s₂, changePriority c s =
                some (if c ≠ serverClient ∧ (s₂.clients c).map ClientPrivate.wmgr ≠ some true then
                  { s₂ with lastPids := some a } else s₂) ∧ Right s₂ last ∧ s₂.clients = s₁.clients := by
              cases boosted with
              | true =>
                  refine ⟨s₁, ?_, hs₁, rfl⟩
                  simp only [changePriority, hc, hsame, hunset, hconn, hrec, Option.bind_eq_bind,
                    Option.bind_some, Bool.false_eq_true, if_false, if_neg hzero, if_true]
                  split <;> rfl
              | false =>
                  obtain ⟨s₂, hset, hs₂, hclients₂, -⟩ := setPriority_right hs₁ hconn .setPriority
                  refine ⟨s₂, ?_, hs₂, hclients₂⟩
                  simp only [changePriority, hc, hsame, hunset, hconn, hrec, Option.bind_eq_bind,
                    Option.bind_some, Bool.false_eq_true, if_false, if_neg hzero, hset]
                  split <;> rfl
            have hclients : s₂.clients = s.clients := hclients₂.trans hclients₁
            refine ⟨_, hcall, ?_, ?_⟩
            · split
              · refine hs₂.congr (fun _ => rfl) rfl rfl (fun _ _ list _ hlist => ⟨list.boosted, hlist⟩)
                  fun b hb => ?_
                obtain rfl := Option.some.inj hb
                exact ⟨c, (connection_congr (congrFun hclients c)).trans hc⟩
              · exact hs₂
            · split <;> exact hclients

theorem Right.last_eq (h : Right s last) (hc : getConnectionPids s c = none) :
    Function.update last c none = last := by
  rw [← h.empty c hc, Function.update_eq_self]

theorem initClientPrivate_connection (malloc : Bool) (c c' : ClientId) :
    getConnectionPids (initClientPrivate malloc c s) c' = getConnectionPids s c' := by
  rw [initClientPrivate]
  cases hc : s.clients c with
  | some priv => rfl
  | none =>
      cases malloc with
      | false => rfl
      | true =>
          by_cases hcc : c' = c
          · subst hcc
            rw [connection_none hc]
            exact connection_self (p := ⟨none, false⟩) (Function.update_self ..)
          · exact connection_congr (Function.update_of_ne hcc ..)

theorem initClientPrivate_some (c : ClientId) (s : State) : (initClientPrivate true c s).clients c ≠ none := by
  rw [initClientPrivate]
  cases hc : s.clients c with
  | some priv =>
      dsimp only
      rw [hc]
      nofun
  | none =>
      rw [if_pos rfl]
      dsimp only
      rw [Function.update_self]
      nofun

theorem initClientPrivate_right (h : Right s last) (malloc : Bool) (c : ClientId) :
    Right (initClientPrivate malloc c s) last := by
  have hconn := initClientPrivate_connection (s := s) malloc c
  rw [initClientPrivate] at hconn ⊢
  cases hc : s.clients c with
  | some priv => exact h
  | none =>
      cases malloc with
      | false => exact h
      | true =>
          rw [hc] at hconn
          exact h.congr hconn rfl rfl (fun _ _ list _ hlist => ⟨list.boosted, hlist⟩) h.owned

theorem Right.without (h : Right s last) (hc : getConnectionPids s c = some a)
    (hself : getConnectionPids s' c = none)
    (hconn : ∀ c', c' ≠ c → getConnectionPids s' c' = getConnectionPids s c')
    (hrecs : ∀ b, b ≠ a → s'.recs b = s.recs b)
    (hblocks : s'.blocks = Function.update s.blocks a none) (hnext : s'.next = s.next)
    (hlast : ∀ b, s'.lastPids = some b → s.lastPids = some b ∧ b ≠ a) : Right s' (Function.update last c none) := by
  have hother {c' : ClientId} {b : Addr} (hb : getConnectionPids s' c' = some b) :
      c' ≠ c ∧ b ≠ a ∧ getConnectionPids s c' = some b := by
    have hcc : c' ≠ c := by
      rintro rfl
      rw [hself] at hb
      cases hb
    rw [hconn c' hcc] at hb
    refine ⟨hcc, ?_, hb⟩
    rintro rfl
    exact hcc (h.sole c' c b hb hc)
  refine ⟨fun c' b hb => ?_, fun c' hc' => ?_, fun c₁ c₂ b h₁ h₂ => ?_, fun b hb => ?_, fun b hb => ?_,
    fun b hb => ?_⟩
  · obtain ⟨hcc, hba, hb⟩ := hother hb
    obtain ⟨list, boosted, hset, hrec, hblock⟩ := h.stored c' b hb
    refine ⟨list, boosted, (Function.update_of_ne hcc ..).trans hset, (hrecs b hba).trans hrec, ?_⟩
    rw [hblocks, Function.update_of_ne hba]
    exact hblock
  · by_cases hcc : c' = c
    · rw [hcc, Function.update_self]
    · rw [Function.update_of_ne hcc]
      exact h.empty c' (hconn c' hcc ▸ hc')
  · exact h.sole c₁ c₂ b (hother h₁).2.2 (hother h₂).2.2
  · rw [hblocks] at hb
    have hba : b ≠ a := by
      rintro rfl
      exact hb (Function.update_self ..)
    rw [Function.update_of_ne hba] at hb
    obtain ⟨c', hc'⟩ := h.live b hb
    refine ⟨c', (hconn c' ?_).trans hc'⟩
    rintro rfl
    exact hba (Option.some.inj (hc'.symm.trans hc))
  · rw [hblocks, Function.update_apply, h.fresh b (hnext ▸ hb)]
    exact ite_self _
  · obtain ⟨hlastb, hba⟩ := hlast b hb
    obtain ⟨c', hc'⟩ := h.owned b hlastb
    refine ⟨c', (hconn c' ?_).trans hc'⟩
    rintro rfl
    exact hba (Option.some.inj (hc'.symm.trans hc))

theorem Right.stock (h : Right s last) (hc : getConnectionPids s c = none) {stuff : List Pid}
    (hself : getConnectionPids s' c = some s.next)
    (hconn : ∀ c', c' ≠ c → getConnectionPids s' c' = getConnectionPids s c')
    (hrecs : s'.recs = Function.update s.recs s.next (some ⟨stuff.length, ⟨s.next, 0⟩, false⟩))
    (hblocks : s'.blocks = Function.update s.blocks s.next (some stuff)) (hnext : s'.next = s.next + 1)
    (hlast : s'.lastPids = s.lastPids) : Right s' (Function.update last c (some stuff)) := by
  have hold {c' : ClientId} {b : Addr} (hb : getConnectionPids s c' = some b) : c' ≠ c ∧ b ≠ s.next := by
    constructor
    · rintro rfl
      rw [hc] at hb
      cases hb
    · rintro rfl
      obtain ⟨list, boosted, -, -, hblock⟩ := h.stored c' _ hb
      rw [h.fresh _ (Nat.le_refl _)] at hblock
      cases hblock
  have hcases {c' : ClientId} {b : Addr} (hb : getConnectionPids s' c' = some b) :
      c' = c ∧ b = s.next ∨ c' ≠ c ∧ b ≠ s.next ∧ getConnectionPids s c' = some b := by
    by_cases hcc : c' = c
    · rw [hcc, hself] at hb
      exact .inl ⟨hcc, (Option.some.inj hb).symm⟩
    · rw [hconn c' hcc] at hb
      exact .inr ⟨hcc, (hold hb).2, hb⟩
  refine ⟨fun c' b hb => ?_, fun c' hc' => ?_, fun c₁ c₂ b h₁ h₂ => ?_, fun b hb => ?_, fun b hb => ?_,
    fun b hb => ?_⟩
  · rw [hrecs, hblocks]
    rcases hcases hb with ⟨rfl, rfl⟩ | ⟨hcc, hbn, hb⟩
    · exact ⟨stuff, false, Function.update_self .., Function.update_self .., Function.update_self ..⟩
    · obtain ⟨list, boosted, hset, hrec, hblock⟩ := h.stored c' b hb
      exact ⟨list, boosted, (Function.update_of_ne hcc ..).trans hset, (Function.update_of_ne hbn ..).trans hrec,
        (Function.update_of_ne hbn ..).trans hblock⟩
  · have hcc : c' ≠ c := by
      rintro rfl
      rw [hself] at hc'
      cases hc'
    rw [Function.update_of_ne hcc]
    exact h.empty c' (hconn c' hcc ▸ hc')
  · rcases hcases h₁ with ⟨rfl, hb₁⟩ | ⟨-, hb₁, h₁⟩
    · rcases hcases h₂ with ⟨rfl, -⟩ | ⟨-, hb₂, -⟩
      · rfl
      · exact absurd hb₁ hb₂
    · rcases hcases h₂ with ⟨-, hb₂⟩ | ⟨-, -, h₂⟩
      · exact absurd hb₂ hb₁
      · exact h.sole c₁ c₂ b h₁ h₂
  · rw [hblocks] at hb
    by_cases hbn : b = s.next
    · exact ⟨c, hbn ▸ hself⟩
    · rw [Function.update_of_ne hbn] at hb
      obtain ⟨c', hc'⟩ := h.live b hb
      exact ⟨c', (hconn c' (hold hc').1).trans hc'⟩
  · rw [hnext] at hb
    have hbn : b ≠ s.next := Nat.ne_of_gt hb
    rw [hblocks, Function.update_of_ne hbn]
    exact h.fresh b (Nat.le_of_succ_le hb)
  · obtain ⟨c', hc'⟩ := h.owned b (hlast ▸ hb)
    exact ⟨c', (hconn c' (hold hc').1).trans hc'⟩

theorem freeProcessList_right (h : Right s last) (hpriv : s.clients c = some priv) :
    ∃ s', freeProcessList c priv s = some s' ∧ Right s' (Function.update last c none) ∧
      s'.clients = Function.update s.clients c (some { priv with process := none }) ∧
        s'.next = s.next := by
  have hself := connection_self hpriv
  cases hprocess : priv.process with
  | none =>
      rw [hprocess] at hself
      refine ⟨s, ?_, ?_, ?_, rfl⟩
      · rw [freeProcessList, hprocess]
      · rw [h.last_eq hself]
        exact h
      · have hsame : { priv with process := none } = priv := by rw [← hprocess]
        rw [hsame, ← hpriv, Function.update_eq_self]
  | some cpp =>
      rw [hprocess] at hself
      obtain ⟨list, boosted, -, hrec, hblock⟩ := h.stored c cpp hself
      have hfree : freeBlock ⟨cpp, 0⟩ s = some { s with blocks := Function.update s.blocks cpp none } := by
        rw [freeBlock, hblock]
        exact if_pos ⟨rfl, rfl⟩
      refine ⟨{ s with
        clients := Function.update s.clients c (some { priv with process := none })
        lastPids := if s.lastPids = some cpp then none else s.lastPids
        recs := Function.update s.recs cpp none
        blocks := Function.update s.blocks cpp none }, ?_, ?_, rfl, rfl⟩
      · simp only [freeProcessList, hprocess, hrec, hfree, Option.bind_eq_bind, Option.bind_some]
      · refine h.without hself ?_ (fun c' hcc => connection_congr (Function.update_of_ne hcc ..))
          (fun b hba => Function.update_of_ne hba ..) rfl rfl fun b hb => ?_
        · exact connection_self (p := { priv with process := none }) (Function.update_self ..)
        · dsimp only at hb
          split at hb
          · cases hb
          · rename_i hne
            exact ⟨hb, fun hba => hne (hba ▸ hb)⟩

theorem setClientPrivate_right (h : Right s last) (hpriv : s.clients c = some priv) (mallocs : Mallocs)
    (stuff : List Pid) :
    ∃ s', setClientPrivate mallocs c stuff s = some s' ∧
      Right s' (Function.update last c (kept mallocs stuff)) := by
  obtain ⟨s₁, hfree, hs₁, hclients, -⟩ := freeProcessList_right h hpriv
  have hpriv₁ : s₁.clients c = some { priv with process := none } := by rw [hclients, Function.update_self]
  cases hlist : mallocs.list with
  | false =>
      refine ⟨s₁, ?_, ?_⟩
      · simp only [setClientPrivate, hpriv, hfree, hlist, Option.bind_eq_bind, Option.bind_some,
          Bool.false_eq_true, if_false]
      · rw [kept, hlist, if_neg Bool.false_ne_true]
        exact hs₁
  | true =>
      refine ⟨{ s₁ with
        clients := Function.update s₁.clients c (some { priv with process := some s₁.next })
        recs := Function.update s₁.recs s₁.next (some ⟨stuff.length, ⟨s₁.next, 0⟩, false⟩)
        blocks := Function.update s₁.blocks s₁.next (some stuff)
        next := s₁.next + 1 }, ?_, ?_⟩
      · simp only [setClientPrivate, hpriv, hfree, hlist, Option.bind_eq_bind, Option.bind_some, if_true]
      · have hidem : Function.update (Function.update last c none) c (some stuff) =
            Function.update last c (some stuff) := Function.update_idem ..
        rw [kept, hlist, if_pos rfl, ← hidem]
        refine hs₁.stock (connection_self hpriv₁) ?_
          (fun c' hcc => connection_congr (Function.update_of_ne hcc ..)) rfl rfl rfl rfl
        exact connection_self (p := { priv with process := some s₁.next }) (Function.update_self ..)

theorem setClientPrivate_fits (h : Right s last) (mallocs : Mallocs) (c : ClientId) (stuff : List Pid)
    (hfits : mallocs.list = true → s.clients c ≠ none) :
    ∃ s', setClientPrivate mallocs c stuff s = some s' ∧
      Right s' (Function.update last c (kept mallocs stuff)) := by
  cases hpriv : s.clients c with
  | some priv => exact setClientPrivate_right h hpriv mallocs stuff
  | none =>
      have hlist : mallocs.list = false := Bool.eq_false_iff.mpr fun hlist => hfits hlist hpriv
      refine ⟨initClientPrivate mallocs.again c s, ?_, ?_⟩
      · simp only [setClientPrivate, hpriv, hlist, Bool.false_eq_true, if_false]
      · rw [kept, hlist, if_neg Bool.false_ne_true, h.last_eq (connection_none hpriv)]
        exact initClientPrivate_right h mallocs.again c

theorem setClientPrivate_null (mallocs : Mallocs) (stuff : List Pid) (hnone : s.clients c = none)
    (hlist : mallocs.list = true) :
    setClientPrivate mallocs c stuff s = none := by
  simp only [setClientPrivate, hnone, hlist, if_true]

theorem unsetBoosted_right (h : Right s last) (c : ClientId) :
    ∃ s', unsetBoosted (getConnectionPids s c) s = some s' ∧ Right s' last ∧ s'.clients = s.clients := by
  cases hc : getConnectionPids s c with
  | none => exact ⟨s, rfl, h, rfl⟩
  | some a =>
      obtain ⟨list, boosted, -, hrec, -⟩ := h.stored c a hc
      simp only [unsetBoosted, hrec, Option.bind_eq_bind, Option.bind_some]
      cases boosted with
      | false => exact ⟨s, rfl, h, rfl⟩
      | true =>
          obtain ⟨s₁, hset, hs₁, hclients₁, -⟩ := setPriority_right h hc .unsetPriority
          exact ⟨s₁, hset, hs₁, hclients₁⟩

theorem clientGone_right (h : Right s last) (c : ClientId) :
    ∃ s', clientGone c s = some s' ∧ Right s' (Function.update last c none) := by
  cases hpriv : s.clients c with
  | none =>
      refine ⟨s, ?_, ?_⟩
      · rw [clientGone, hpriv]
      · rw [h.last_eq (connection_none hpriv)]
        exact h
  | some priv =>
      obtain ⟨s₁, hunset, hs₁, hclients₁⟩ := unsetBoosted_right h c
      rw [connection_self hpriv] at hunset
      have hpriv₁ : s₁.clients c = some priv := hclients₁ ▸ hpriv
      obtain ⟨same, hsame⟩ := sameAsLast_total hs₁ c
      rw [connection_self hpriv₁] at hsame
      obtain ⟨s₂, hs₂def, hs₂, hclients₂⟩ : ∃ s₂,
          (if same then { s₁ with lastPids := none } else s₁) = s₂ ∧ Right s₂ last ∧ s₂.clients = s₁.clients := by
        cases same with
        | false => exact ⟨s₁, rfl, hs₁, rfl⟩
        | true => exact ⟨_, rfl, hs₁.forget, rfl⟩
      obtain ⟨s₃, hfree, hs₃, hclients₃, -⟩ := freeProcessList_right hs₂ ((congrFun hclients₂ c).trans hpriv₁)
      refine ⟨{ s₃ with clients := Function.update s₃.clients c none }, ?_, ?_⟩
      · rw [clientGone, hpriv]
        simp only [hunset, hsame, hs₂def, hfree, Option.bind_eq_bind, Option.bind_some]
      · refine hs₃.congr (fun c' => ?_) rfl rfl (fun _ _ list _ hlist => ⟨list.boosted, hlist⟩) hs₃.owned
        by_cases hcc : c' = c
        · subst hcc
          rw [connection_none (s := { s₃ with clients := Function.update s₃.clients c' none })
            (Function.update_self ..)]
          have hpriv₃ : s₃.clients c' = some { priv with process := none } := by
            rw [hclients₃, Function.update_self]
          exact (connection_self hpriv₃).symm
        · exact connection_congr (Function.update_of_ne hcc ..)

theorem setClientPrivate_initial (h : Right s last) (mallocs : Mallocs) (c : ClientId) (stuff : List Pid)
    (hfits : mallocs.list = true → mallocs.priv = true) :
    ∃ s', setClientPrivate mallocs c stuff (initClientPrivate mallocs.priv c s) = some s' ∧
      Right s' (Function.update last c (kept mallocs stuff)) := by
  refine setClientPrivate_fits (initClientPrivate_right h mallocs.priv c) mallocs c stuff fun hlist => ?_
  rw [hfits hlist]
  exact initClientPrivate_some c s

theorem setClientPrivate_lost {mallocs : Mallocs} (hnone : s.clients c = none) (stuff : List Pid)
    (hmisfit : ¬(mallocs.list = true → mallocs.priv = true)) :
    setClientPrivate mallocs c stuff (initClientPrivate mallocs.priv c s) = none := by
  obtain ⟨hlist, hpriv⟩ := Classical.not_imp.mp hmisfit
  have hsame : initClientPrivate mallocs.priv c s = s := by simp only [initClientPrivate, hnone, if_neg hpriv]
  rw [hsame]
  exact setClientPrivate_null mallocs stuff hnone hlist

theorem detect_right (h : Right s last) (hpriv : s.clients c = some priv) :
    ∃ s', detect c s = some s' ∧ Right s' last := by
  have hconn (c' : ClientId) : getConnectionPids { s with
      clients := Function.update s.clients c (some { priv with wmgr := true }) } c' = getConnectionPids s c' := by
    by_cases hcc : c' = c
    · subst hcc
      rw [connection_self hpriv]
      exact connection_self (p := { priv with wmgr := true }) (Function.update_self ..)
    · exact connection_congr (Function.update_of_ne hcc ..)
  have hmark : Right { s with clients := Function.update s.clients c (some { priv with wmgr := true }) } last :=
    h.congr hconn rfl rfl (fun _ _ list _ hlist => ⟨list.boosted, hlist⟩) h.owned
  obtain ⟨s', hchange, hs', -⟩ := changePriority_right hmark c
  refine ⟨{ s' with lastPids := none }, ?_, hs'.forget⟩
  simp only [detect, hpriv, hchange, Option.bind_eq_bind, Option.bind_some]

section Replies

variable {stuff : GetProcessInfo}

theorem replyInfo_still (h : Right s last) (c : ClientId) (hinfo : stuff.interactiveInfo = true)
    (hfits : stuff.mallocInfo = true → last c = none ∨ last c = some []) :
    replyInfo c stuff s =
      some (if last c = none ∨ stuff.mallocInfo = true then some ⟨some 0, []⟩ else none, s) := by
  cases hc : getConnectionPids s c with
  | none => simp only [replyInfo, hinfo, hc, h.empty c hc, if_true, true_or]
  | some a =>
      obtain ⟨list, boosted, hset, hrec, hblock⟩ := h.stored c a hc
      cases hmalloc : stuff.mallocInfo with
      | false =>
          simp only [replyInfo, hinfo, hc, hset, hrec, hmalloc, Option.bind_eq_bind, Option.bind_some, if_true,
            reduceCtorEq, or_self, if_false, Bool.false_eq_true]
      | true =>
          have hnil : list = [] := by
            rcases hfits hmalloc with hnone | hnil
            · rw [hset] at hnone
              cases hnone
            · exact Option.some.inj (hset.symm.trans hnil)
          subst hnil
          have hrecs : Function.update s.recs a (some ⟨0, ⟨a, 0⟩, boosted⟩) = s.recs := by
            rw [List.length_nil] at hrec
            rw [← hrec, Function.update_eq_self]
          simp only [replyInfo, hinfo, hc, hset, hrec, hmalloc, Option.bind_eq_bind, Option.bind_some, if_true,
            or_true, List.length_nil, walk, hrecs]

theorem replyInfo_moves (h : Right s last) {list : List Pid} (hset : last c = some list) (hlist : list ≠ [])
    (hinfo : stuff.interactiveInfo = true) (hmalloc : stuff.mallocInfo = true) :
    ∃ s', replyInfo c stuff s = some (some ⟨some list.length, list⟩, s') ∧ s' ≠ s := by
  cases hc : getConnectionPids s c with
  | none =>
      rw [h.empty c hc] at hset
      cases hset
  | some a =>
      obtain ⟨list', boosted, hset', hrec, hblock⟩ := h.stored c a hc
      obtain rfl := Option.some.inj (hset'.symm.trans hset)
      refine ⟨{ s with
        recs := Function.update s.recs a (some ⟨list'.length, ⟨a, list'.length⟩, boosted⟩) }, ?_, fun heq => ?_⟩
      · simp only [replyInfo, hinfo, hc, hrec, hmalloc, Option.bind_eq_bind, Option.bind_some, if_true,
          walk_all hblock]
      · have hmoved := congrArg (fun s => s.recs a) heq
        dsimp only at hmoved
        rw [Function.update_self, hrec] at hmoved
        cases hlen : list'.length with
        | zero => exact hlist (List.eq_nil_of_length_eq_zero hlen)
        | succ n =>
            rw [hlen] at hmoved
            cases hmoved

theorem procIAGetProcessInfo_total {reply : Option Reply} (hreply : replyInfo c stuff s = some (reply, s')) :
    ∃ r, procIAGetProcessInfo c stuff s = some (r, s') := by
  by_cases hsetting : reply.isSome ∧ stuff.interactiveSetting = true
  · refine ⟨if stuff.mallocSetting then some ⟨some 1, [s'.ia_nice]⟩ else none, ?_⟩
    simp only [procIAGetProcessInfo, hreply, Option.bind_eq_bind, Option.bind_some, if_pos hsetting]
  · refine ⟨reply, ?_⟩
    simp only [procIAGetProcessInfo, hreply, Option.bind_eq_bind, Option.bind_some, if_neg hsetting]

theorem procIAGetProcessInfo_reply {reply reply' : Reply} (hreply : replyInfo c stuff s = some (some reply, s'))
    (hsetting : ¬(stuff.interactiveSetting = true ∧ stuff.mallocSetting = true))
    (hget : procIAGetProcessInfo c stuff s = some (some reply', s'')) : reply' = reply := by
  simp only [procIAGetProcessInfo, hreply, Option.bind_eq_bind, Option.bind_some, Option.isSome_some,
    true_and] at hget
  split at hget
  · rename_i h
    rw [if_neg fun hmalloc => hsetting ⟨h, hmalloc⟩] at hget
    cases hget
  · cases hget
    rfl

end Replies

section Runs

variable {ss : Session} {op : Op}

theorem init_right (h : Init ss) : Right ss.state ss.last := by
  obtain ⟨⟨procs, nice, hstate⟩, hlast⟩ := h
  rw [hstate, hlast]
  exact ⟨nofun, fun _ _ => rfl, nofun, fun _ h => absurd rfl h, fun _ _ => rfl, nofun⟩

theorem does_of_step {state : State} {last : Last} (hstep : step op ss = some (none, ⟨state, last⟩))
    (hright : Right state last)
    (hop : ∀ client stuff, op ≠ .getProcessInfo client stuff) : Does op ss :=
  ⟨none, ⟨state, last⟩, hstep, hright, fun client stuff hget => absurd hget (hop client stuff)⟩

theorem not_does (hstep : step op ss = none) : ¬Does op ss := by
  rintro ⟨r, s', hdoes, -⟩
  rw [hstep] at hdoes
  cases hdoes

theorem does_of_get {stuff : GetProcessInfo} {r : Option Reply} (h : Right ss.state ss.last)
    (hget : procIAGetProcessInfo c stuff ss.state = some (r, ss.state))
    (hreply : stuff.interactiveInfo = true → ∀ reply, r = some reply →
      reply = ⟨some ((ss.last c).getD []).length, (ss.last c).getD []⟩) : Does (.getProcessInfo c stuff) ss := by
  refine ⟨r, ss, ?_, h, fun client stuff hop => ?_⟩
  · rw [step, hget, Option.map_some]
  · cases hop
    exact ⟨rfl, hreply⟩

theorem start_iff (h : Right ss.state ss.last) (mallocs : Mallocs) (pid : Pid)
    (hlegal : Legal (.start mallocs pid) ss) :
    Does (.start mallocs pid) ss ↔ Fits (.start mallocs pid) ss := by
  by_cases hfits : mallocs.list = true → mallocs.priv = true
  · refine iff_of_true ?_ hfits
    obtain ⟨s₁, hset, hs₁⟩ := setClientPrivate_initial h mallocs serverClient [pid] hfits
    obtain ⟨s₂, hchange, hs₂, -⟩ := changePriority_right hs₁ serverClient
    refine does_of_step ?_ hs₂ nofun
    simp only [step, iaInitTimerCall, hset, hchange, Option.bind_eq_bind, Option.bind_some, Option.map_some]
  · refine iff_of_false (not_does ?_) hfits
    simp only [step, iaInitTimerCall, setClientPrivate_lost hlegal [pid] hfits, Option.bind_eq_bind,
      Option.bind_none,
      Option.map_none]

theorem connect_iff (h : Right ss.state ss.last) (mallocs : Mallocs) (c : ClientId) (clientPid : Option Pid)
    (hlegal : Legal (.connect mallocs c clientPid) ss) :
    Does (.connect mallocs c clientPid) ss ↔ Fits (.connect mallocs c clientPid) ss := by
  cases clientPid with
  | none =>
      refine iff_of_true (does_of_step rfl ?_ nofun) fun hpid => absurd rfl hpid
      rw [Option.bind_none, h.last_eq (connection_none hlegal.2)]
      exact initClientPrivate_right h mallocs.priv c
  | some pid =>
      by_cases hfits : mallocs.list = true → mallocs.priv = true
      · refine iff_of_true ?_ fun _ => hfits
        obtain ⟨s₁, hset, hs₁⟩ := setClientPrivate_initial h mallocs c [pid] hfits
        obtain ⟨s₂, hchange, hs₂, -⟩ := changeInteractive_right hs₁ c
        refine does_of_step ?_ hs₂ nofun
        simp only [step, clientInitial, hset, hchange, Option.bind_eq_bind, Option.bind_some, Option.map_some]
      · refine iff_of_false (not_does ?_) fun hall => hfits (hall nofun)
        simp only [step, clientInitial, setClientPrivate_lost hlegal.2 [pid] hfits, Option.bind_eq_bind,
          Option.bind_none,
          Option.map_none]

theorem setProcessInfo_iff (h : Right ss.state ss.last) (mallocs : Mallocs) (c : ClientId)
    (stuff : SetProcessInfo) :
    Does (.setProcessInfo mallocs c stuff) ss ↔ Fits (.setProcessInfo mallocs c stuff) ss := by
  by_cases hpermitted : stuff.permitted
  · by_cases hfits : mallocs.list = true → ss.state.clients c ≠ none
    · refine iff_of_true ?_ fun _ => hfits
      obtain ⟨s₁, hset, hs₁⟩ := setClientPrivate_fits h mallocs c stuff.pids hfits
      obtain ⟨s₂, hchange, hs₂, -⟩ := changeInteractive_right hs₁ c
      refine does_of_step ?_ hs₂ nofun
      simp only [step, procIASetProcessInfo, if_pos hpermitted, hset, hchange, Option.bind_eq_bind,
        Option.bind_some, Option.map_some]
    · refine iff_of_false (not_does ?_) fun hall => hfits (hall hpermitted)
      obtain ⟨hlist, hclient⟩ := Classical.not_imp.mp hfits
      simp only [step, procIASetProcessInfo, if_pos hpermitted,
        setClientPrivate_null mallocs stuff.pids (Classical.not_not.mp hclient) hlist, Option.bind_eq_bind,
        Option.bind_none, Option.map_none]
  · refine iff_of_true (does_of_step ?_ h nofun) fun hall => absurd hall hpermitted
    simp only [step, procIASetProcessInfo, if_neg hpermitted, Option.map_some]

theorem detect_iff (h : Right ss.state ss.last) (c : ClientId) : Does (.detect c) ss ↔ Fits (.detect c) ss := by
  cases hpriv : ss.state.clients c with
  | none =>
      refine iff_of_false (not_does ?_) fun hfits => hfits hpriv
      simp only [step, ProcessInfo.detect, hpriv, Option.bind_eq_bind, Option.bind_none, Option.map_none]
  | some priv =>
      obtain ⟨s₁, hdetect, hs₁⟩ := detect_right h hpriv
      refine iff_of_true (does_of_step ?_ hs₁ nofun) ?_
      · simp only [step, hdetect, Option.map_some]
      · rw [Fits, hpriv]
        nofun

theorem getProcessInfo_iff (h : Right ss.state ss.last) (c : ClientId) (stuff : GetProcessInfo) :
    Does (.getProcessInfo c stuff) ss ↔ Fits (.getProcessInfo c stuff) ss := by
  cases hinfo : stuff.interactiveInfo with
  | false =>
      refine iff_of_true ?_ fun hget => absurd (hinfo.symm.trans hget) nofun
      have hreply : replyInfo c stuff ss.state = some (some ⟨none, []⟩, ss.state) := by
        rw [replyInfo, hinfo, if_neg Bool.false_ne_true]
      obtain ⟨r, hget⟩ := procIAGetProcessInfo_total hreply
      refine does_of_get h hget fun hget => ?_
      rw [hinfo] at hget
      cases hget
  | true =>
      by_cases hmalloc : stuff.mallocInfo = true → ss.last c = none ∨ ss.last c = some []
      · have hreply := replyInfo_still h c hinfo hmalloc
        have hnil (hsome : ss.last c = none ∨ stuff.mallocInfo = true) : (ss.last c).getD [] = [] := by
          rcases hsome.imp_right hmalloc with hnone | hnone | hempty
          · rw [hnone, Option.getD_none]
          · rw [hnone, Option.getD_none]
          · rw [hempty, Option.getD_some]
        by_cases hsome : ss.last c = none ∨ stuff.mallocInfo = true
        · rw [if_pos hsome] at hreply
          by_cases hsetting : stuff.interactiveSetting = true ∧ stuff.mallocSetting = true
          · refine iff_of_false ?_ fun hfits => ?_
            · rintro ⟨r, s', hstep, -, hdoes⟩
              have hvalues := (hdoes c stuff rfl).2 hinfo ⟨some 1, [ss.state.ia_nice]⟩ ?_
              · rw [hnil hsome] at hvalues
                cases hvalues
              · simp only [step, procIAGetProcessInfo, hreply, hsetting, Option.bind_eq_bind, Option.bind_some,
                  Option.isSome_some, and_self, if_true, Option.map_some] at hstep
                cases hstep
                rfl
            · obtain ⟨hlist, hfalse⟩ := (hfits hinfo).2 hsetting.1 hsetting.2
              rcases hsome with hnone | htrue
              · exact hlist hnone
              · rw [hfalse] at htrue
                cases htrue
          · refine iff_of_true ?_ fun _ => ⟨hmalloc, fun h₁ h₂ => absurd ⟨h₁, h₂⟩ hsetting⟩
            obtain ⟨r, hget⟩ := procIAGetProcessInfo_total hreply
            refine does_of_get h hget fun _ reply hr => ?_
            rw [hnil hsome]
            exact procIAGetProcessInfo_reply hreply hsetting (hget.trans (by rw [hr]))
        · rw [if_neg hsome] at hreply
          obtain ⟨hlist, hfalse⟩ := not_or.mp hsome
          refine iff_of_true ?_ fun _ => ⟨hmalloc, fun _ _ => ⟨hlist, Bool.eq_false_iff.mpr hfalse⟩⟩
          have hget : procIAGetProcessInfo c stuff ss.state = some (none, ss.state) := by
            simp only [procIAGetProcessInfo, hreply, Option.bind_eq_bind, Option.bind_some, Option.isSome_none,
              Bool.false_eq_true, false_and, if_false]
          exact does_of_get h hget nofun
      · refine iff_of_false ?_ fun hfits => hmalloc (hfits hinfo).1
        obtain ⟨htrue, hlast⟩ := Classical.not_imp.mp hmalloc
        obtain ⟨hset, hlist⟩ := not_or.mp hlast
        obtain ⟨list, hset⟩ := Option.ne_none_iff_exists'.mp hset
        obtain ⟨state, hreply, hmoved⟩ := replyInfo_moves h hset (fun hnil => hlist (hnil ▸ hset)) hinfo htrue
        obtain ⟨r, hget⟩ := procIAGetProcessInfo_total hreply
        rintro ⟨r', s', hstep, -, hdoes⟩
        simp only [step, hget, Option.map_some] at hstep
        cases hstep
        exact hmoved (congrArg Session.state (hdoes c stuff rfl).1)

theorem does_iff (h : Right ss.state ss.last) (op : Op) (hlegal : Legal op ss) : Does op ss ↔ Fits op ss := by
  cases op with
  | start mallocs pid => exact start_iff h mallocs pid hlegal
  | connect mallocs c clientPid => exact connect_iff h mallocs c clientPid hlegal
  | disconnect c =>
      obtain ⟨s₁, hgone, hs₁⟩ := clientGone_right h c
      refine iff_of_true (does_of_step ?_ hs₁ nofun) trivial
      simp only [step, hgone, Option.map_some]
  | setProcessInfo mallocs c stuff => exact setProcessInfo_iff h mallocs c stuff
  | setNice value =>
      refine iff_of_true (does_of_step rfl ?_ nofun) trivial
      exact h.congr (fun _ => rfl) rfl rfl (fun _ _ list _ hlist => ⟨list.boosted, hlist⟩) h.owned
  | getProcessInfo c stuff => exact getProcessInfo_iff h c stuff
  | focus c =>
      obtain ⟨s₁, hchange, hs₁, -⟩ := changePriority_right h c
      refine iff_of_true (does_of_step ?_ hs₁ nofun) trivial
      simp only [step, hchange, Option.map_some]
  | detect c => exact detect_iff h c

theorem right_step {ss' : Session} {r : Option Reply} (h : Right ss.state ss.last)
    (hlegal : Legal op ss) (hfits : Fits op ss)
    (hstep : step op ss = some (r, ss')) : Right ss'.state ss'.last := by
  obtain ⟨r', s', hdoes, hs', -⟩ := (does_iff h op hlegal).mpr hfits
  rw [hstep] at hdoes
  cases hdoes
  exact hs'

/-- While every step fits, the lists stay right, and exactly the steps that fit do what they should. -/
theorem process_lists_kept_iff
    (h : Reachable (fun op s => (step op s).map Prod.snd) (fun op s => Legal op s ∧ Fits op s) Init ss) :
    Right ss.state ss.last ∧ ∀ op, Legal op ss → (Does op ss ↔ Fits op ss) := by
  have hright : Right ss.state ss.last := by
    refine h.invariant (fun s => Right s.state s.last) (fun _ => init_right) fun op s s' hs hok hstep => ?_
    obtain ⟨r, hr, rfl⟩ := Option.map_eq_some_iff.mp hstep
    exact right_step hs hok.1 hok.2 hr
  exact ⟨hright, does_iff hright⟩

def blank : Session :=
  ⟨⟨fun _ => none, fun _ => none, fun _ => none, 0, none, fun _ => ⟨false, false⟩, 10⟩, fun _ => none⟩

def started : Session := ((step (.start ⟨true, true, true⟩ 1) blank).get rfl).2

def connected : Session := ((step (.connect ⟨true, true, true⟩ 1 (some 42)) started).get rfl).2

theorem connected_reached :
    Reachable (fun op s => (step op s).map Prod.snd) (fun op s => Legal op s ∧ Fits op s) Init connected :=
  .next (s := started) (.connect ⟨true, true, true⟩ 1 (some 42))
    (.next (s := blank) (.start ⟨true, true, true⟩ 1) (.start ⟨⟨_, _, rfl⟩, rfl⟩) ⟨rfl, fun _ => rfl⟩ rfl)
    ⟨⟨by decide, rfl⟩, fun _ _ => rfl⟩ rfl

theorem process_lists_kept_connected : Right connected.state connected.last ∧ Does (.disconnect 1) connected ∧
    ¬Does (.getProcessInfo 1 ⟨true, false, true, true⟩) connected := by
  obtain ⟨hright, hdoes⟩ := process_lists_kept_iff connected_reached
  have hlegal : Legal (.disconnect 1) connected := show (1 : ClientId) ≠ serverClient by decide
  refine ⟨hright, (hdoes (.disconnect 1) hlegal).mpr trivial, fun hget => ?_⟩
  rcases ((hdoes (.getProcessInfo 1 ⟨true, false, true, true⟩) trivial).mp hget rfl).1 rfl with hnone | hempty
  · cases hnone
  · cases hempty

/-- The first request is answered, and after it the list can be neither read nor freed. -/
theorem process_list_pointer_moved : ∃ s s', Reachable (fun op s => (step op s).map Prod.snd) Legal Init s ∧
    step (.getProcessInfo 1 ⟨true, false, true, true⟩) s = some (some ⟨some 1, [42]⟩, s') ∧ s' ≠ s ∧
      step (.getProcessInfo 1 ⟨true, false, true, true⟩) s' = none ∧ step (.focus 1) s' = none ∧
        step (.disconnect 1) s' = none := by
  refine ⟨connected, ((step (.getProcessInfo 1 ⟨true, false, true, true⟩) connected).get rfl).2,
    connected_reached.mono fun _ _ h => h.1, rfl, fun heq => ?_, rfl, rfl, rfl⟩
  have hoffset : (1 : Nat) = 0 := congrArg (fun s => ((s.state.recs 1).map fun list => list.pids.offset).getD 0) heq
  cases hoffset

end Runs

end OiUserland.Interactive.ProcessInfo
