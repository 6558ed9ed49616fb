import Mathlib.Data.List.Dedup
import Mathlib.Data.List.Perm.Subperm
import OiUserland.Interactive.Discipline

namespace OiUserland.Interactive.PidSets

open Lib.Runs Clients Boosts ProcessLists BoostRuns Discipline

variable {s : IAState} {a b : ClientProcess} {c : ClientId}

def scanPids (pid : Pid) : List Pid → Int
  | [] => 0
  | x :: pids => if pid = x then 1 else scanPids pid pids

def scanAll (last : List Pid) : List Pid → Int → Int
  | [], retval => retval
  | pid :: pids, _ =>
      let retval := scanPids pid last
      if retval = 0 then retval else scanAll last pids retval

def pidSetEqual (a b : ClientProcess) : Int :=
  if a.pids.length ≠ b.pids.length then 0 else scanAll b.pids a.pids 1

def switchPriority (client : ClientId) (s : IAState) : Option IAState := do
  let priv := s.clients client
  let s ← unsetLast s
  match priv.bind ClientPrivate.process with
  | none => some s
  | some currentPids =>
      let current ← s.heap currentPids
      if current.pids = [] then some s
      else
        let s ← if current.boosted then some s else setPriority currentPids .setPriority s
        if client ≠ serverClient ∧ (priv.map ClientPrivate.wmgr) ≠ some true then
          some { s with lastPids := some currentPids }
        else some s

/-- The lists denote the same set. -/
def SameSet (a b : ClientProcess) : Prop := ∀ p, p ∈ a.pids ↔ p ∈ b.pids

/-- The lists are compared as sets, in either order. -/
def Compared (a b : ClientProcess) : Prop :=
  (pidSetEqual a b ≠ 0 ↔ SameSet a b) ∧ (pidSetEqual b a ≠ 0 ↔ SameSet b a) ∧ pidSetEqual a b = pidSetEqual b a

/-- Where one of the lists has all processes of the other, they are equally long just if they have
equally many different processes. -/
def CountsTell (a b : ClientProcess) : Prop :=
  a.pids ⊆ b.pids ∨ b.pids ⊆ a.pids →
    (a.pids.length = b.pids.length ↔ a.pids.dedup.length = b.pids.dedup.length)

/-- The shortcut is taken only where the step behind it leaves the same processes boosted. -/
def SkipsIdle (c : ClientId) (s : IAState) : Prop :=
  ∀ currentPids lastPids current last, getConnectionPids s c = some currentPids → s.lastPids = some lastPids →
    s.heap currentPids = some current → s.heap lastPids = some last → pidSetEqual current last ≠ 0 →
      changePriority c s = some s ∧ ∃ s', switchPriority c s = some s' ∧ ∀ p, Boosted s' p ↔ Boosted s p

/-- Where the list of the client is as long as the one in LastPids and has no other processes, a
process of the latter is boosted just if it is one of the client, whose list is not yet marked as
boosted unless it is LastPids itself. -/
def SettledLast (c : ClientId) (s : IAState) : Prop :=
  ∀ c', Focused s c' → getConnectionPids s c ≠ none → (pidsOf s c).length = (pidsOf s c').length →
    pidsOf s c ⊆ pidsOf s c' →
      ∀ p ∈ pidsOf s c', Boosted s p ↔ p ∈ pidsOf s c ∧ (flagOf s c = true → Focused s c)

theorem scanPids_ne_zero (pid : Pid) (pids : List Pid) : scanPids pid pids ≠ 0 ↔ pid ∈ pids := by
  induction pids with
  | nil => exact iff_of_false (fun h => h rfl) List.not_mem_nil
  | cons x pids ih =>
      rw [scanPids, List.mem_cons]
      by_cases hx : pid = x
      · rw [if_pos hx]
        exact iff_of_true Int.one_ne_zero (.inl hx)
      · rw [if_neg hx, ih]
        exact (or_iff_right hx).symm

theorem scanAll_ne_zero (last pids : List Pid) {retval : Int} (h : retval ≠ 0) :
    scanAll last pids retval ≠ 0 ↔ pids ⊆ last := by
  induction pids generalizing retval with
  | nil => exact iff_of_true h (List.nil_subset last)
  | cons pid pids ih =>
      rw [scanAll, List.cons_subset, ← scanPids_ne_zero]
      by_cases hpid : scanPids pid last = 0
      · rw [if_pos hpid]
        exact iff_of_false (fun h => h hpid) fun h => h.1 hpid
      · rw [if_neg hpid, ih hpid]
        exact (and_iff_right hpid).symm

theorem pidSetEqual_ne_zero : pidSetEqual a b ≠ 0 ↔ a.pids.length = b.pids.length ∧ a.pids ⊆ b.pids := by
  rw [pidSetEqual]
  by_cases hlen : a.pids.length = b.pids.length
  · rw [if_neg fun hne => hne hlen, scanAll_ne_zero _ _ Int.one_ne_zero]
    exact (and_iff_right hlen).symm
  · rw [if_pos hlen]
    exact iff_of_false (fun h => h rfl) fun h => hlen h.1

theorem scanAll_cases (last pids : List Pid) {retval : Int} (h : retval = 0 ∨ retval = 1) :
    scanAll last pids retval = 0 ∨ scanAll last pids retval = 1 := by
  have hscan (pid : Pid) (pids : List Pid) : scanPids pid pids = 0 ∨ scanPids pid pids = 1 := by
    induction pids with
    | nil => exact .inl rfl
    | cons x pids ih =>
        rw [scanPids]
        split
        · exact .inr rfl
        · exact ih
  induction pids generalizing retval with
  | nil => exact h
  | cons pid pids ih =>
      rw [scanAll]
      split
      · exact hscan pid last
      · exact ih (hscan pid last)

theorem pidSetEqual_cases (a b : ClientProcess) : pidSetEqual a b = 0 ∨ pidSetEqual a b = 1 := by
  rw [pidSetEqual]
  split
  · exact .inl rfl
  · exact scanAll_cases _ _ (.inr rfl)

theorem pidSetEqual_iff : pidSetEqual a b ≠ 0 ↔ Clients.pidSetEqual a b = true := by
  rw [pidSetEqual_ne_zero, Clients.pidSetEqual, decide_eq_true_eq]
  rfl

section Sets

variable {l l' : List Pid}

theorem dedup_length_of_subset (h : l ⊆ l') : l.dedup.length = l'.dedup.length ↔ l' ⊆ l := by
  constructor
  · intro hlen
    have hsub : l.dedup ⊆ l'.dedup := fun p hp => List.mem_dedup.mpr (h (List.mem_dedup.mp hp))
    have hperm := ((List.nodup_dedup l).subperm hsub).perm_of_length_le (Nat.le_of_eq hlen.symm)
    exact fun p hp => List.mem_dedup.mp (hperm.mem_iff.mpr (List.mem_dedup.mpr hp))
  · intro h'
    refine ((List.perm_ext_iff_of_nodup (List.nodup_dedup l) (List.nodup_dedup l')).mpr fun p => ?_).length_eq
    rw [List.mem_dedup, List.mem_dedup]
    exact ⟨fun hp => h hp, fun hp => h' hp⟩

theorem sameSet_iff : SameSet a b ↔ a.pids ⊆ b.pids ∧ b.pids ⊆ a.pids :=
  ⟨fun h => ⟨fun p => (h p).mp, fun p => (h p).mpr⟩, fun h _ => ⟨fun hp => h.1 hp, fun hp => h.2 hp⟩⟩

theorem compared_iff : Compared a b ↔ CountsTell a b := by
  have hsides : (pidSetEqual a b ≠ 0 ↔ SameSet a b) ∧ (pidSetEqual b a ≠ 0 ↔ SameSet b a) ↔ CountsTell a b := by
    rw [pidSetEqual_ne_zero, pidSetEqual_ne_zero, sameSet_iff, sameSet_iff, CountsTell]
    by_cases h : a.pids ⊆ b.pids
    · by_cases h' : b.pids ⊆ a.pids
      · rw [dedup_length_of_subset h]
        tauto
      · rw [dedup_length_of_subset h]
        tauto
    · by_cases h' : b.pids ⊆ a.pids
      · rw [eq_comm (a := a.pids.dedup.length), dedup_length_of_subset h']
        tauto
      · tauto
  refine ⟨fun h => hsides.mp ⟨h.1, h.2.1⟩, fun h => ?_⟩
  obtain ⟨hab, hba⟩ := hsides.mpr h
  refine ⟨hab, hba, ?_⟩
  have hsame : pidSetEqual a b ≠ 0 ↔ pidSetEqual b a ≠ 0 := by
    rw [hab, hba, sameSet_iff, sameSet_iff, and_comm]
  rcases pidSetEqual_cases a b with h₁ | h₁ <;> rcases pidSetEqual_cases b a with h₂ | h₂ <;> simp_all

end Sets

theorem changePriority_eq (c : ClientId) (s : IAState) : changePriority c s =
    (sameAsLast (getConnectionPids s c) s).bind fun same => if same then some s else switchPriority c s := by
  refine congrArg (Option.bind (sameAsLast (getConnectionPids s c) s)) (funext fun same => ?_)
  cases same <;> rfl

theorem switchPriority_boosts (hs : Linked s) (hp : Consistent s.procs) (c : ClientId) :
    ∃ s', switchPriority c s = some s' ∧ ∀ p, Boosted s' p ↔
      Boosted s p ∧ ¬ FocusHas s p ∨ p ∈ pidsOf s c ∧ (flagOf s c = true → Focused s c) := by
  obtain ⟨s₁, hunset, halike, -, hflag, hboost⟩ := unsetLast_spec hs hp
  cases hc : getConnectionPids s c with
  | none =>
      have hprocess : (s.clients c).bind ClientPrivate.process = none := hc
      refine ⟨s₁, ?_, fun p => ?_⟩
      · simp only [switchPriority, hunset, hprocess, Option.bind_eq_bind, Option.bind_some]
      · rw [hboost p, pidsOf_none hc]
        simp
  | some a =>
      have hprocess : (s.clients c).bind ClientPrivate.process = some a := hc
      have hc₁ : getConnectionPids s₁ c = some a := (halike.connection c).trans hc
      obtain ⟨list, ha⟩ := halike.linked.live c a hc₁
      have hpids : list.pids = pidsOf s c := by rw [← halike.pids, pidsOf_eq hc₁ ha]
      have hboosted : list.boosted = flagOf s₁ c := (flagOf_eq hc₁ ha).symm
      by_cases hempty : list.pids = []
      · refine ⟨s₁, ?_, fun p => ?_⟩
        · simp only [switchPriority, hunset, hprocess, ha, hempty, Option.bind_eq_bind, Option.bind_some, if_true]
        · rw [hboost p, ← hpids, hempty]
          simp
      · have hset : ∃ s₂, (if list.boosted then some s₁ else setPriority a .setPriority s₁) = some s₂ ∧
            ∀ p, Boosted s₂ p ↔
              Boosted s p ∧ ¬ FocusHas s p ∨ p ∈ pidsOf s c ∧ (flagOf s c = true → Focused s c) := by
          by_cases hb : list.boosted = true
          · refine ⟨s₁, if_pos hb, fun p => (hboost p).trans (or_iff_left fun h => ?_).symm⟩
            obtain ⟨hflagged, hnot⟩ := (hflag c).mp (hboosted ▸ hb)
            exact hnot ⟨h.2 hflagged, hpids ▸ hempty⟩
          · obtain ⟨s₂, hrun, -, -, -, hval⟩ := setPriority_spec halike.linked halike.consistent hc₁ .setPriority
            have hfocus : flagOf s c = true → Focused s c := fun hflagged =>
              by_contra fun hnot => hb (hboosted ▸ (hflag c).mpr ⟨hflagged, fun h => hnot h.1⟩)
            refine ⟨s₂, (if_neg hb).trans hrun, fun p => ?_⟩
            rw [Boosted, hval p, halike.pids, and_iff_left hfocus]
            by_cases hmem : p ∈ pidsOf s c
            · rw [if_pos hmem]
              exact iff_of_true rfl (.inr hmem)
            · rw [if_neg hmem]
              exact (hboost p).trans (or_iff_left hmem).symm
        obtain ⟨s₂, hrun, hboost₂⟩ := hset
        have hcall : switchPriority c s =
            some (if c ≠ serverClient ∧ (s.clients c).map ClientPrivate.wmgr ≠ some true then
              { s₂ with lastPids := some a } else s₂) := by
          by_cases hb : list.boosted = true
          · rw [if_pos hb] at hrun
            obtain rfl := Option.some.inj hrun
            simp only [switchPriority, hunset, hprocess, ha, Option.bind_eq_bind, Option.bind_some, hempty,
              if_false, hb, if_true]
            split <;> rfl
          · rw [if_neg hb] at hrun
            simp only [switchPriority, hunset, hprocess, ha, Option.bind_eq_bind, Option.bind_some, hempty,
              if_false, hb, hrun, Bool.false_eq_true]
            split <;> rfl
        refine ⟨_, hcall, fun p => ?_⟩
        rw [← hboost₂ p]
        split <;> rfl

theorem skipsIdle_iff (hs : Linked s) (hp : Consistent s.procs) : SkipsIdle c s ↔ SettledLast c s := by
  obtain ⟨s', hswitch, hboosts⟩ := switchPriority_boosts hs hp c
  constructor
  · intro h c' hfocus hlist hlen hsub p hmem
    obtain ⟨lastPids, hc', hlast⟩ := hfocus
    obtain ⟨currentPids, hc⟩ := Option.ne_none_iff_exists'.mp hlist
    obtain ⟨current, hcurrent⟩ := hs.live c currentPids hc
    obtain ⟨last, hlastList⟩ := hs.live c' lastPids hc'
    have hequal : pidSetEqual current last ≠ 0 := by
      rw [pidSetEqual_ne_zero, ← pidsOf_eq hc hcurrent, ← pidsOf_eq hc' hlastList]
      exact ⟨hlen, hsub⟩
    obtain ⟨-, s₁, hswitch₁, hsame⟩ := h currentPids lastPids current last hc hlast hcurrent hlastList hequal
    obtain rfl := Option.some.inj (hswitch.symm.trans hswitch₁)
    rw [← hsame p, hboosts p]
    exact or_iff_right fun hold => hold.2 ⟨c', ⟨lastPids, hc', hlast⟩, hmem⟩
  · intro h currentPids lastPids current last hc hlast hcurrent hlastList hequal
    obtain ⟨c', hc'⟩ := hs.owned lastPids hlast
    have hfocus : Focused s c' := ⟨lastPids, hc', hlast⟩
    obtain ⟨hlen, hsub⟩ := pidSetEqual_ne_zero.mp hequal
    rw [← pidsOf_eq hc hcurrent, ← pidsOf_eq hc' hlastList] at hlen hsub
    refine ⟨?_, s', hswitch, fun p => ?_⟩
    · rw [changePriority_eq, hc]
      simp only [sameAsLast, hlast, hcurrent, hlastList, pidSetEqual_iff.mp hequal, Option.bind_eq_bind,
        Option.bind_some, if_true]
    · rw [hboosts p]
      have hhas : FocusHas s p ↔ p ∈ pidsOf s c' := by
        refine ⟨?_, fun hmem => ⟨c', hfocus, hmem⟩⟩
        rintro ⟨c₁, h₁, hmem⟩
        exact hs.focused_unique h₁ hfocus ▸ hmem
      rw [hhas]
      by_cases hmem : p ∈ pidsOf s c'
      · rw [or_iff_right fun hold => hold.2 hmem]
        exact (h c' hfocus (Option.ne_none_iff_exists'.mpr ⟨currentPids, hc⟩) hlen hsub p hmem).symm
      · rw [or_iff_left fun hnew => hmem (hsub hnew.1)]
        exact and_iff_left hmem

def Sane (s : IAState) : Prop := Linked s ∧ Consistent s.procs

theorem Sane.changePriority (h : Sane s) (c : ClientId) : ∃ s', Clients.changePriority c s = some s' ∧ Sane s' := by
  by_cases hsame : Same s c
  · exact ⟨s, changePriority_same hsame, h⟩
  · obtain ⟨s', hrun, hch⟩ := changePriority_spec h.1 h.2 hsame
    exact ⟨s', hrun, hch.linked, hch.consistent⟩

theorem Sane.setProcess {priv : ClientPrivate} (h : Sane s) (hpriv : s.clients c = some priv) (stuff : List Pid) :
    ∃ s', (do changeInteractive c (← setClientPrivate c stuff s)) = some s' ∧ Sane s' := by
  obtain ⟨s', hrun, hr⟩ := setProcess_spec h.1 h.2 hpriv stuff
  exact ⟨s', hrun, hr.linked, hr.consistent⟩

theorem Sane.disconnect (h : Sane s) (c : ClientId) : ∃ s', clientGone c s = some s' ∧ Sane s' := by
  cases hpriv : s.clients c with
  | none =>
      refine ⟨s, ?_, h⟩
      rw [clientGone, hpriv]
  | some priv =>
      obtain ⟨s₁, hrun, halike, -, -, -⟩ := unsetGone h.1 h.2 hpriv
      have hpriv₁ : s₁.clients c = some priv := halike.clients ▸ hpriv
      obtain ⟨same, hsame⟩ : ∃ same, sameAsLast (getConnectionPids s₁ c) s₁ = some same :=
        (sameAsLast_total halike.linked c).elim (fun h => ⟨_, h⟩) fun h => ⟨_, h⟩
      have hlinked : Linked (if same then { s₁ with lastPids := none } else s₁) := by
        cases same with
        | false => exact halike.linked
        | true => exact ⟨halike.linked.live, halike.linked.sole, halike.linked.fresh, fun _ h => by cases h⟩
      have hclients : (if same then { s₁ with lastPids := none } else s₁).clients c = some priv := by
        cases same <;> exact hpriv₁
      have hprocs : (if same then { s₁ with lastPids := none } else s₁).procs = s₁.procs := by
        cases same <;> rfl
      have hd := drop_spec hlinked hclients
      rw [connection_self hpriv₁] at hsame
      refine ⟨_, hrun same hsame, hd.linked, ?_⟩
      have hsameProcs := hd.procs.trans hprocs
      exact hsameProcs.symm ▸ halike.consistent

theorem step_sane {op : Op} (h : Sane s) (hlegal : Legal op s) : ∃ s', step op s = some s' ∧ Sane s' := by
  cases op with
  | connect client clientPid =>
      have henter : Sane (iaInitClientPrivate client s) := by
        refine ⟨enter_linked h.1 hlegal.2, ?_⟩
        rw [enter_eq hlegal.2]
        exact h.2
      cases clientPid with
      | none => exact ⟨_, rfl, henter⟩
      | some clientPid => exact henter.setProcess (enter_self hlegal.2) [clientPid]
  | disconnect client => exact h.disconnect client
  | setProcessInfo client stuff =>
      obtain ⟨priv, hpriv⟩ := Option.ne_none_iff_exists'.mp hlegal.2
      rw [step, procIASetProcessInfo]
      by_cases hpermitted : stuff.permitted
      · rw [if_pos hpermitted]
        exact h.setProcess hpriv stuff.pids
      · rw [if_neg hpermitted]
        exact ⟨s, rfl, h⟩
  | setInputFocus requestee =>
      cases requestee with
      | none => exact ⟨s, rfl, h⟩
      | some requestee => exact h.changePriority requestee
  | sendEvent client clientMessage requestee =>
      obtain ⟨priv, hpriv⟩ := Option.ne_none_iff_exists'.mp hlegal.2
      by_cases hmessage : priv.wmgr = true ∧ clientMessage = true
      · obtain ⟨s', hrun, hs'⟩ := h.changePriority requestee
        refine ⟨s', ?_, hs'⟩
        simp only [step, iaProcSendEvent, hpriv, Option.bind_eq_bind, Option.bind_some, if_pos hmessage, hrun]
      · refine ⟨s, ?_, h⟩
        simp only [step, iaProcSendEvent, hpriv, Option.bind_eq_bind, Option.bind_some, if_neg hmessage]
  | changeWindowAttributes client redirects =>
      obtain ⟨priv, hpriv⟩ := Option.ne_none_iff_exists'.mp hlegal.2
      by_cases hdetect : priv.wmgr = false ∧ redirects = true
      · have hmarked : Sane (marked s client priv) := ⟨marked_linked h.1 hpriv, h.2⟩
        obtain ⟨s', hrun, hs'⟩ := hmarked.changePriority client
        refine ⟨{ s' with lastPids := none }, ?_, ⟨hs'.1.live, hs'.1.sole, hs'.1.fresh, fun _ h => by cases h⟩, hs'.2⟩
        unfold marked at hrun
        simp only [step, iaProcChangeWindowAttributes, hpriv, Option.bind_eq_bind, Option.bind_some,
          if_pos hdetect, hrun]
      · refine ⟨s, ?_, h⟩
        simp only [step, iaProcChangeWindowAttributes, hpriv, Option.bind_eq_bind, Option.bind_some, if_neg hdetect]

theorem reached_sane (h : Reachable step Legal Init s) : Sane s := by
  refine h.invariant Sane ?_ ?_
  · rintro s ⟨serverPid, procs, hprocs, hrun⟩
    obtain ⟨s₁, hrun₁, hinv⟩ := start_inv hprocs
    obtain rfl := Option.some.inj (hrun₁.symm.trans hrun)
    exact ⟨hinv.linked, hinv.consistent⟩
  · intro op s s' hs hlegal hrun
    obtain ⟨s₁, hrun₁, hs₁⟩ := step_sane hs hlegal
    exact Option.some.inj (hrun₁.symm.trans hrun) ▸ hs₁

/-- Two lists are compared as sets just if their counts tell whether they are equal, and in every state
of a run the shortcut for a client is right just if the list in LastPids is settled for it. -/
theorem pid_sets_compared_iff (h : Reachable step Legal Init s) (a b : ClientProcess) (c : ClientId) :
    (Compared a b ↔ CountsTell a b) ∧ (SkipsIdle c s ↔ SettledLast c s) :=
  ⟨compared_iff, skipsIdle_iff (reached_sane h).1 (reached_sane h).2⟩

def pids (list : List Pid) : ClientProcess := ⟨list, false⟩

def serverOnly : IAState :=
  (iaInitTimerCall 2 (unconnected fun _ => ⟨false, false⟩)).get rfl

theorem serverOnly_reached : Reachable step Legal Init serverOnly :=
  .start ⟨2, fun _ => ⟨false, false⟩, nofun, (Option.some_get _).symm⟩

/-- No list is in LastPids, and without repeated pids the counts tell. -/
theorem pid_sets_compared_server : Compared (pids [7, 9]) (pids [9, 7]) ∧ SkipsIdle serverClient serverOnly := by
  obtain ⟨hcompared, hskips⟩ := pid_sets_compared_iff serverOnly_reached (pids [7, 9]) (pids [9, 7]) serverClient
  refine ⟨hcompared.mpr fun _ => by decide, hskips.mpr fun c' hfocus => ?_⟩
  exact absurd hfocus (focused_of_none rfl)

def twoLists : IAState :=
  (exec step [.connect 1 (some 7), .connect 2 (some 7), .setProcessInfo 1 ⟨true, 0, 0, true, [7, 9]⟩,
    .setInputFocus (some 1), .setProcessInfo 2 ⟨true, 0, 0, true, [7, 7]⟩] serverOnly).get rfl

theorem twoLists_reached : Reachable step Legal Init twoLists := by
  refine .next (.setProcessInfo 2 ⟨true, 0, 0, true, [7, 7]⟩) (.next (.setInputFocus (some 1))
    (.next (.setProcessInfo 1 ⟨true, 0, 0, true, [7, 9]⟩) (.next (.connect 2 (some 7)) (.next (.connect 1 (some 7))
      serverOnly_reached ⟨by decide, rfl⟩ rfl) ⟨by decide, rfl⟩ rfl) ⟨by decide, nofun⟩ rfl) trivial rfl)
    ⟨by decide, nofun⟩ rfl

/-- With a repeated pid another list is taken for equal, in one order only, and the process that is not
in it stays boosted. -/
theorem repeated_pid_confused : ¬ SameSet (pids [7, 7]) (pids [7, 9]) ∧
    pidSetEqual (pids [7, 7]) (pids [7, 9]) = 1 ∧
    pidSetEqual (pids [7, 9]) (pids [7, 7]) = 0 ∧ SameSet (pids [7, 7]) (pids [7]) ∧
      pidSetEqual (pids [7, 7]) (pids [7]) = 0 ∧ ∃ s, Reachable step Legal Init s ∧ ¬ SkipsIdle 2 s := by
  refine ⟨fun h => ?_, rfl, rfl, fun p => ?_, rfl, twoLists, twoLists_reached, fun h => ?_⟩
  · exact absurd ((h 9).mpr (by decide)) (by decide)
  · simp [pids]
  · obtain ⟨hs, hp⟩ := reached_sane twoLists_reached
    have h9 := (skipsIdle_iff hs hp).mp h 1 ⟨_, rfl, rfl⟩ nofun rfl (by decide) 9 (by decide)
    exact absurd (h9.mp rfl).1 (by decide)

end OiUserland.Interactive.PidSets
