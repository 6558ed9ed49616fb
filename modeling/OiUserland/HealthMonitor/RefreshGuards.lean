import OiUserland.HealthMonitor.DiskRuns

namespace OiUserland.HealthMonitor.RefreshGuards

open Lib.Runs Rules DiskTable DiskRows DiskLoops DiskRefresh DiskRuns

/-- What a round of the enumeration gets: memory for a node, the disk, unless reading its data fails, memory
for the texts before the last one, and memory for the service time. -/
structure Round where
  node : Bool
  disk : Option Disk
  texts : Bool
  svcTime : Bool

structure Monitor where
  disks : HmState
  hmPrevRefTime : Int
  rules : (node : Node) → RuleState × RuleVars node.Data

def constructRounds : List Round → HmState × Addr → Option (Bool × HmState)
  | [], t => some (true, t.1)
  | r :: rounds, t =>
      if r.node = false then some (false, t.1)
      else match r.disk with
        | none => some (false, t.1)
        | some disk =>
            if r.svcTime = false then some (false, t.1)
            else if r.texts = false then none
            else do
              let t ← constructDisk t disk
              constructRounds rounds t

def constructDISKTable (conf : Config) (finished : Int) (rounds : List Round) (s : HmState) : Option HmState := do
  if rounds = [] then none
  else
    let (done, s) ← constructRounds rounds ({ s with hmPrevDiskRef := 0, diskCount := 0 }, 0)
    if done then
      let s ← checkStateDISK conf s
      some { s with hmPrevDiskRef := finished }
    else some s

def refreshRounds : List Round → HmState × Addr → Option (Bool × HmState)
  | [], t => some (true, t.1)
  | r :: rounds, t =>
      match r.disk with
      | none => some (false, t.1)
      | some disk => do
          let (heap, hit) ← updateFrom disk (t.1.heap.keys.length + 1) t.1.head t.1.heap
          let s := { t.1 with heap := heap }
          if hit then refreshRounds rounds ({ s with diskCount := s.diskCount + 1 }, t.2)
          else if r.node = false then none
          else if r.svcTime = false then some (false, s)
          else if r.texts = false then none
          else
            let row ← newRow true disk
            let t ← appendRow row t.2 { s with diskCount := s.diskCount + 1 }
            refreshRounds rounds t

def refreshDISKTable (conf : Config) (now finished : Int) (rounds : List Round) (s : HmState) : Option HmState := do
  if Due conf now s then
    let s := { s with hmPrevDiskRef := 0, diskCount := 0 }
    let (heap, tailPtr) ← resetFrom (s.heap.keys.length + 1) s.head s.heap
    if rounds = [] then none
    else
      let (done, s) ← refreshRounds rounds ({ s with heap := heap }, tailPtr)
      if done then
        let heap ← sweepFrom (s.heap.keys.length + 1) s.head s.head s.heap
        let s ← checkStateDISK conf { s with heap := heap }
        some { s with hmPrevDiskRef := finished }
      else some s
  else some s

def refreshAllHMData (θ : Thresholds) (hmRefreshInterval now finished : Int) (samples : (node : Node) → node.Sample)
    (s : Monitor) : Monitor :=
  if s.hmPrevRefTime = 0 then s
  else if now - s.hmPrevRefTime < hmRefreshInterval.tdiv 4 then s
  else { s with
    hmPrevRefTime := finished
    rules := fun node => (hmHandleRule (node.rule θ) (samples node) (s.rules node)).2 }

inductive Op
  | construct (conf : Config) (finished : Int) (rounds : List Round)
  | refreshDisks (conf : Config) (now finished : Int) (rounds : List Round)
  | refreshAll (θ : Thresholds) (hmRefreshInterval now finished : Int) (samples : (node : Node) → node.Sample)

def step : Op → Monitor → Option Monitor
  | .construct conf finished rounds, s =>
      (constructDISKTable conf finished rounds s.disks).map fun disks => { s with disks := disks }
  | .refreshDisks conf now finished rounds, s =>
      (refreshDISKTable conf now finished rounds s.disks).map fun disks => { s with disks := disks }
  | .refreshAll θ interval now finished samples, s => some (refreshAllHMData θ interval now finished samples s)

def blank : Monitor := ⟨⟨∅, 1, 0, 0, 1⟩, 1, fun node => (.notInit, ⟨.ok, .ok, node.data⟩)⟩

/-- The clock does not show zero at the end of a call. -/
def Ticks : Op → Monitor → Prop
  | .construct _ finished _, _ => finished ≠ 0
  | .refreshDisks _ _ finished _, _ => finished ≠ 0
  | .refreshAll _ _ _ finished _, _ => finished ≠ 0

def Round.Given (r : Round) : Prop := r.node = true ∧ r.disk.isSome = true ∧ r.svcTime = true

def Provided : List Round → List (List Char) → Prop
  | [], _ => True
  | r :: rounds, names => ∃ disk, r.disk = some disk ∧
      if ∃ name ∈ names, disk.name <+: name then Provided rounds names
      else r.svcTime = true ∧ Provided rounds (names ++ [disk.name])

/-- No data source fails, nor an allocation that the call asks for. -/
def Complete : Op → Monitor → Prop
  | .construct _ _ rounds, _ => ∀ r ∈ rounds, r.Given
  | .refreshDisks conf now _ rounds, s => Due conf now s.disks →
      ∀ rows, Listed s.disks rows → Provided rounds (rows.map Row.hmDiskName)
  | .refreshAll _ _ _ _ _, _ => True

variable {d : Disk} {r : Round} {rounds : List Round} {rows : List Row} {conf : Config}
    {now finished : Int} {done hit : Bool}
  {a : Addr} {n : Nat} {heap heap' : Lib.Chains.Heap HmDiskEntry} {s s' : HmState} {t t' : HmState × Addr}

section Enumerations

theorem updateFrom_missed (h : updateFrom d n a heap = some (heap', false)) : heap' = heap := by
  induction n generalizing a with
  | zero => cases h
  | succ n ih =>
      rw [updateFrom] at h
      split at h
      · exact (congrArg Prod.fst (Option.some.inj h)).symm
      · obtain ⟨entry, -, h⟩ := Option.bind_eq_some_iff.mp h
        split at h
        · obtain ⟨row, -, h⟩ := Option.bind_eq_some_iff.mp h
          cases h
        · exact ih h

def Reports (body : HmState × Addr → Disk → Option (HmState × Addr)) (rounds : List Round) (t : HmState × Addr)
    (done : Bool) (s' : HmState) : Prop :=
  ∃ (disks : List Disk) (a : Addr), disks.foldlM body t = some (s', a) ∧
    (done = true → disks.length = rounds.length)

variable {body : HmState × Addr → Disk → Option (HmState × Addr)}

theorem reports_stop (rounds : List Round) (t : HmState × Addr) : Reports body rounds t false t.1 :=
  ⟨[], t.2, rfl, nofun⟩

theorem reports_end (t : HmState × Addr) : Reports body [] t true t.1 := ⟨[], t.2, rfl, fun _ => rfl⟩

theorem Reports.cons (ht : body t d = some t') (h : Reports body rounds t' done s') :
    Reports body (r :: rounds) t done s' := by
  obtain ⟨disks, a, hrun, hlength⟩ := h
  refine ⟨d :: disks, a, ?_, fun hdone => congrArg Nat.succ (hlength hdone)⟩
  rw [List.foldlM_cons, ht]
  exact hrun

theorem reported_some {disks : List Disk} (hlength : done = true → disks.length = rounds.length)
    (hne : ¬ rounds = []) :
    ¬ (disks = [] ∧ (!done) = false) := by
  rintro ⟨rfl, hdone⟩
  exact hne (List.length_eq_zero_iff.mp (hlength ((Bool.not_eq_eq_eq_not ..).mp hdone)).symm)

theorem constructRounds_reports (h : constructRounds rounds t = some (done, s')) :
    Reports constructDisk rounds t done s' := by
  induction rounds generalizing t with
  | nil =>
      cases h
      exact reports_end t
  | cons r rounds ih =>
      rw [constructRounds] at h
      split at h
      · cases h
        exact reports_stop _ t
      · split at h
        · cases h
          exact reports_stop _ t
        · split at h
          · cases h
            exact reports_stop _ t
          · split at h
            · cases h
            · obtain ⟨t₁, ht₁, h⟩ := Option.bind_eq_some_iff.mp h
              exact (ih h).cons ht₁

theorem construct_enumeration (h : constructDISKTable conf finished rounds s = some s') :
    ∃ e, DiskTable.constructDISKTable conf finished e s = some s' := by
  rw [constructDISKTable] at h
  split at h
  · cases h
  · next hne =>
      obtain ⟨⟨done, s₁⟩, hrounds, h⟩ := Option.bind_eq_some_iff.mp h
      obtain ⟨disks, a, hrun, hlength⟩ := constructRounds_reports hrounds
      refine ⟨⟨disks, !done⟩, ?_⟩
      simp only [DiskTable.constructDISKTable, if_neg (reported_some hlength hne), hrun,
        Option.bind_eq_bind, Option.bind_some]
      cases done with
      | true => exact h
      | false => exact h

theorem refreshRounds_reports (h : refreshRounds rounds t = some (done, s')) :
    Reports refreshDisk rounds t done s' := by
  induction rounds generalizing t with
  | nil =>
      cases h
      exact reports_end t
  | cons r rounds ih =>
      rw [refreshRounds] at h
      split at h
      · cases h
        exact reports_stop _ t
      · next disk _ =>
        obtain ⟨⟨heap, hit⟩, hupdate, h⟩ := Option.bind_eq_some_iff.mp h
        cases hit with
        | true =>
            refine (ih h).cons (d := disk) ?_
            simp only [refreshDisk, hupdate, Option.bind_eq_bind, Option.bind_some, if_true]
        | false =>
            obtain rfl := updateFrom_missed hupdate
            simp only [Bool.false_eq_true, if_false] at h
            split at h
            · cases h
            · split at h
              · cases h
                exact reports_stop _ t
              · split at h
                · cases h
                · obtain ⟨row, hrow, h⟩ := Option.bind_eq_some_iff.mp h
                  obtain ⟨t₁, happend, h⟩ := Option.bind_eq_some_iff.mp h
                  refine (ih h).cons (d := disk) ?_
                  simp only [refreshDisk, hupdate, Option.bind_eq_bind, Option.bind_some,
                    Bool.false_eq_true, if_false, hrow]
                  exact happend

theorem refresh_enumeration (h : refreshDISKTable conf now finished rounds s = some s') :
    ∃ e, DiskTable.refreshDISKTable conf now finished e s = some s' := by
  by_cases hdue : Due conf now s
  · simp only [refreshDISKTable, if_pos hdue] at h
    obtain ⟨⟨heap, tailPtr⟩, hreset, h⟩ := Option.bind_eq_some_iff.mp h
    simp only at h
    split at h
    · cases h
    · next hne =>
        obtain ⟨⟨done, s₁⟩, hrounds, h⟩ := Option.bind_eq_some_iff.mp h
        obtain ⟨disks, a, hrun, hlength⟩ := refreshRounds_reports hrounds
        refine ⟨⟨disks, !done⟩, ?_⟩
        simp only [DiskTable.refreshDISKTable, if_pos hdue, hreset, Option.bind_eq_bind, Option.bind_some,
          if_neg (reported_some hlength hne), hrun]
        cases done with
        | true => exact h
        | false => exact h
  · rw [refreshDISKTable, if_neg hdue] at h
    exact ⟨⟨[], false⟩, (if_neg hdue).trans h⟩

end Enumerations

theorem updateFrom_hit (ht : Tailed rows t)
    (h : updateFrom d (t.1.heap.keys.length + 1) t.1.head t.1.heap = some (heap, hit)) :
    hit = true ↔ ∃ row ∈ rows, sameName d row = true := by
  obtain ⟨cells, hs, rfl, -⟩ := ht
  rcases first_or_none d (cells.map Prod.snd) with ⟨ps, row, qs, hrows, hps, hrow⟩ | hnone
  · obtain ⟨xs, rest, rfl, rfl, hrest⟩ := List.map_eq_append_iff.mp hrows
    obtain ⟨⟨c, row⟩, ys, rfl, rfl, rfl⟩ := List.map_eq_cons_iff.mp hrest
    have hn : xs.length < t.1.heap.keys.length + 1 := by
      refine Nat.lt_of_le_of_lt ?_ hs.rounds
      rw [List.length_append]
      exact Nat.le_add_right _ _
    obtain ⟨hundef, hdef⟩ := updateFrom_match hs.holds hn (fun x hx => hps x.2 (List.mem_map_of_mem hx)) hrow
    refine iff_of_true ?_ ⟨row, List.mem_map_of_mem (List.mem_append_right _ (List.mem_cons_self ..)), hrow⟩
    cases hupdate : updateRow d row with
    | none =>
        rw [hundef hupdate] at h
        cases h
    | some row' =>
        obtain ⟨heap', hrun, -⟩ := hdef row' hupdate
        rw [hrun] at h
        exact (congrArg Prod.snd (Option.some.inj h)).symm
  · have hmiss := updateFrom_none hs.holds hs.rounds fun x hx => hnone x.2 (List.mem_map_of_mem hx)
    rw [hmiss] at h
    cases h
    refine iff_of_false Bool.false_ne_true ?_
    rintro ⟨row, hrow, hsame⟩
    exact Bool.false_ne_true ((hnone row hrow).symm.trans hsame)

theorem sameName_names : (∃ row ∈ rows, sameName d row = true) ↔
    ∃ name ∈ rows.map Row.hmDiskName, d.name <+: name := by
  constructor
  · rintro ⟨row, hrow, hsame⟩
    exact ⟨_, List.mem_map_of_mem hrow, sameName_iff.mp hsame⟩
  · rintro ⟨name, hname, hpre⟩
    obtain ⟨row, hrow, rfl⟩ := List.mem_map.mp hname
    exact ⟨row, hrow, sameName_iff.mpr hpre⟩

theorem refreshDisk_names (ht : Tailed rows t) (h : refreshDisk t d = some t') : ∃ rows', Tailed rows' t' ∧
    rows'.map Row.hmDiskName = if ∃ name ∈ rows.map Row.hmDiskName, d.name <+: name then rows.map Row.hmDiskName
      else rows.map Row.hmDiskName ++ [d.name] := by
  have hrel := refreshDisk_tailed (d := d) ht
  rw [h] at hrel
  obtain ⟨rows', hrows, ht'⟩ := some_of_rel hrel
  refine ⟨rows', ht', ?_⟩
  rcases insertOrUpdate_cases hrows with ⟨xs, row, ys, rfl, -, hsame, rfl⟩ | ⟨hnone, rfl⟩
  · rw [if_pos (sameName_names.mp ⟨row, List.mem_append_right _ (List.mem_cons_self ..), hsame⟩)]
    simp [updated]
  · rw [if_neg]
    · simp [fresh]
    · rw [← sameName_names]
      rintro ⟨row, hrow, hsame⟩
      exact Bool.false_ne_true ((hnone row hrow).symm.trans hsame)

theorem provided_cons {names : List (List Char)} (hdisk : r.disk = some d) : Provided (r :: rounds) names ↔
    if ∃ name ∈ names, d.name <+: name then Provided rounds names else r.svcTime = true ∧
    Provided rounds (names ++ [d.name]) := by
  constructor
  · rintro ⟨disk, hsome, hp⟩
    obtain rfl := Option.some.inj (hdisk.symm.trans hsome)
    exact hp
  · exact fun hp => ⟨d, hdisk, hp⟩

theorem refreshRounds_done (ht : Tailed rows t) (h : refreshRounds rounds t = some (done, s')) :
    done = true ↔ Provided rounds (rows.map Row.hmDiskName) := by
  induction rounds generalizing rows t with
  | nil =>
      cases h
      exact iff_of_true rfl trivial
  | cons r rounds ih =>
      cases hdisk : r.disk with
      | none =>
          rw [refreshRounds, hdisk] at h
          cases h
          refine iff_of_false Bool.false_ne_true ?_
          rintro ⟨disk, hsome, -⟩
          rw [hdisk] at hsome
          cases hsome
      | some disk =>
          rw [provided_cons hdisk]
          rw [refreshRounds, hdisk] at h
          obtain ⟨⟨heap, hit⟩, hupdate, h⟩ := Option.bind_eq_some_iff.mp h
          have hhit := (updateFrom_hit ht hupdate).trans sameName_names
          cases hit with
          | true =>
              have hround : refreshDisk t disk = some
                ({ t.1 with heap := heap, diskCount := t.1.diskCount + 1 }, t.2) := by
                simp only [refreshDisk, hupdate, Option.bind_eq_bind, Option.bind_some, if_true]
              obtain ⟨rows', ht', hnames⟩ := refreshDisk_names ht hround
              rw [if_pos (hhit.mp rfl)] at hnames ⊢
              exact hnames ▸ ih ht' h
          | false =>
              have hnew : ¬ ∃ name ∈ rows.map Row.hmDiskName, disk.name <+: name := fun hin =>
                Bool.false_ne_true (hhit.mpr hin)
              obtain rfl := updateFrom_missed hupdate
              rw [if_neg hnew]
              simp only [Bool.false_eq_true, if_false] at h
              split at h
              · cases h
              · split at h
                · next hsvc =>
                  cases h
                  exact iff_of_false Bool.false_ne_true fun hp => Bool.false_ne_true (hsvc.symm.trans hp.1)
                · next hsvc =>
                  rw [and_iff_right (Bool.not_eq_false _ ▸ hsvc)]
                  split at h
                  · cases h
                  · obtain ⟨row, hrow, h⟩ := Option.bind_eq_some_iff.mp h
                    obtain ⟨t₁, happend, h⟩ := Option.bind_eq_some_iff.mp h
                    have hround : refreshDisk t disk = some t₁ := by
                      simp only [refreshDisk, hupdate, Option.bind_eq_bind, Option.bind_some,
                        Bool.false_eq_true, if_false, hrow]
                      exact happend
                    obtain ⟨rows', ht', hnames⟩ := refreshDisk_names ht hround
                    rw [if_neg hnew] at hnames
                    exact hnames ▸ ih ht' h

theorem constructRounds_done (h : constructRounds rounds t = some (done, s')) :
    done = true ↔ ∀ r ∈ rounds, r.Given := by
  induction rounds generalizing t with
  | nil =>
      cases h
      exact iff_of_true rfl nofun
  | cons r rounds ih =>
      rw [List.forall_mem_cons, Round.Given]
      rw [constructRounds] at h
      split at h
      · next hnode =>
        cases h
        exact iff_of_false Bool.false_ne_true fun hp => Bool.false_ne_true (hnode.symm.trans hp.1.1)
      · next hnode =>
        cases hdisk : r.disk with
        | none =>
            rw [hdisk] at h
            cases h
            exact iff_of_false Bool.false_ne_true fun hp => Bool.false_ne_true hp.1.2.1
        | some disk =>
            simp only [hdisk] at h
            split at h
            · next hsvc =>
              cases h
              exact iff_of_false Bool.false_ne_true fun hp => Bool.false_ne_true (hsvc.symm.trans hp.1.2.2)
            · next hsvc =>
              split at h
              · cases h
              · obtain ⟨t₁, -, h⟩ := Option.bind_eq_some_iff.mp h
                rw [ih h]
                exact (and_iff_right ⟨Bool.not_eq_false _ ▸ hnode, rfl, Bool.not_eq_false _ ▸ hsvc⟩).symm

theorem constructRounds_guard (h : constructRounds rounds t = some (done, s')) :
    s'.hmPrevDiskRef = t.1.hmPrevDiskRef := by
  induction rounds generalizing t with
  | nil =>
      cases h
      rfl
  | cons r rounds ih =>
      rw [constructRounds] at h
      split at h
      · cases h
        rfl
      · split at h
        · cases h
          rfl
        · split at h
          · cases h
            rfl
          · split at h
            · cases h
            · obtain ⟨t₁, ht₁, h⟩ := Option.bind_eq_some_iff.mp h
              obtain ⟨row, -, happend⟩ := Option.bind_eq_some_iff.mp ht₁
              exact (ih h).trans (appendRow_count happend).2

theorem construct_guard (h : constructDISKTable conf finished rounds s = some s') (hticks : finished ≠ 0) :
    s'.hmPrevDiskRef ≠ 0 ↔ ∀ r ∈ rounds, r.Given := by
  rw [constructDISKTable] at h
  split at h
  · cases h
  · obtain ⟨⟨done, s₁⟩, hrounds, h⟩ := Option.bind_eq_some_iff.mp h
    rw [← constructRounds_done hrounds]
    cases done with
    | true =>
        obtain ⟨s₂, -, h⟩ := Option.bind_eq_some_iff.mp h
        cases h
        exact iff_of_true hticks rfl
    | false =>
        cases h
        exact iff_of_false (fun hne => hne (constructRounds_guard hrounds)) Bool.false_ne_true

theorem refreshRounds_guard (h : refreshRounds rounds t = some (done, s')) :
    s'.hmPrevDiskRef = t.1.hmPrevDiskRef := by
  obtain ⟨disks, a, hrun, -⟩ := refreshRounds_reports h
  exact (refreshDisks_count hrun).2

theorem refresh_guard {cells : List (Addr × Row)} (hs : Stored s cells) (hdue : Due conf now s)
    (hticks : finished ≠ 0)
    (h : refreshDISKTable conf now finished rounds s = some s') :
    s'.hmPrevDiskRef ≠ 0 ↔ Provided rounds ((cells.map Prod.snd).map Row.hmDiskName) := by
  simp only [refreshDISKTable, if_pos hdue] at h
  obtain ⟨⟨heap, tailPtr⟩, hreset, h⟩ := Option.bind_eq_some_iff.mp h
  simp only at h
  split at h
  · cases h
  · obtain ⟨⟨done, s₁⟩, hrounds, h⟩ := Option.bind_eq_some_iff.mp h
    have hne : cells ≠ [] := by
      rintro rfl
      rw [resetFrom_nil hs] at hreset
      cases hreset
    obtain ⟨heap', e, hreset', ht⟩ := resetFrom_tailed hs hne
    cases hreset.symm.trans hreset'
    rw [← reset_names, ← refreshRounds_done ht hrounds]
    cases done with
    | true =>
        obtain ⟨heap₁, -, h⟩ := Option.bind_eq_some_iff.mp h
        obtain ⟨s₂, -, h⟩ := Option.bind_eq_some_iff.mp h
        cases h
        exact iff_of_true hticks rfl
    | false =>
        cases h
        exact iff_of_false (fun hne => hne (refreshRounds_guard hrounds)) Bool.false_ne_true

section Runs

variable {o : Op} {m m' : Monitor}

structure Idle (m : Monitor) : Prop where
  stored : ∃ cells, Stored m.disks cells
  disks : m.disks.hmPrevDiskRef ≠ 0
  all : m.hmPrevRefTime ≠ 0

theorem idle_blank : Idle blank := ⟨⟨[], .nil, fun _ _ => rfl, Nat.one_pos⟩, by decide, by decide⟩

theorem refreshAll_time (θ : Thresholds) (interval now : Int) (samples : (node : Node) → node.Sample)
    (hm : m.hmPrevRefTime ≠ 0)
    (hticks : finished ≠ 0) : (refreshAllHMData θ interval now finished samples m).disks = m.disks ∧
      (refreshAllHMData θ interval now finished samples m).hmPrevRefTime ≠ 0 := by
  rw [refreshAllHMData, if_neg hm]
  split
  · exact ⟨rfl, hm⟩
  · exact ⟨rfl, hticks⟩

theorem step_times (hm : Idle m) (hticks : Ticks o m) (h : step o m = some m') :
    (m'.disks.hmPrevDiskRef ≠ 0 ∧ m'.hmPrevRefTime ≠ 0) ↔ Complete o m := by
  cases o with
  | construct conf finished rounds =>
      obtain ⟨disks, hrun, rfl⟩ := Option.map_eq_some_iff.mp h
      exact (and_iff_left hm.all).trans (construct_guard hrun hticks)
  | refreshDisks conf now finished rounds =>
      obtain ⟨disks, hrun, rfl⟩ := Option.map_eq_some_iff.mp h
      refine (and_iff_left hm.all).trans ?_
      by_cases hdue : Due conf now m.disks
      · obtain ⟨cells, hs⟩ := hm.stored
        rw [refresh_guard hs hdue hticks hrun]
        constructor
        · intro hp _ rows hrows
          rwa [hrows.unique hs.listed]
        · exact fun hp => hp hdue _ hs.listed
      · rw [refreshDISKTable, if_neg hdue] at hrun
        cases hrun
        exact iff_of_true hm.disks fun h => absurd h hdue
  | refreshAll θ interval now finished samples =>
      cases h
      obtain ⟨hdisks, hall⟩ := refreshAll_time θ interval now samples hm.all hticks
      rw [hdisks]
      exact iff_of_true ⟨hm.disks, hall⟩ trivial

theorem step_idle (hm : Idle m) (hok : Ticks o m ∧ Complete o m) (h : step o m = some m') : Idle m' := by
  obtain ⟨hdisks, hall⟩ := (step_times hm hok.1 h).mpr hok.2
  refine ⟨?_, hdisks, hall⟩
  obtain ⟨cells, hs⟩ := hm.stored
  cases o with
  | construct conf finished rounds =>
      obtain ⟨disks, hrun, rfl⟩ := Option.map_eq_some_iff.mp h
      obtain ⟨e, hrun⟩ := construct_enumeration hrun
      obtain ⟨cells', hs', -⟩ := construct_stored hs hrun
      exact ⟨cells', hs'⟩
  | refreshDisks conf now finished rounds =>
      obtain ⟨disks, hrun, rfl⟩ := Option.map_eq_some_iff.mp h
      obtain ⟨e, hrun⟩ := refresh_enumeration hrun
      obtain ⟨cells', hs', -⟩ := refresh_stored hs hrun
      exact ⟨cells', hs'⟩
  | refreshAll θ interval now finished samples =>
      cases h
      rw [(refreshAll_time _ _ _ _ hm.all hok.1).1]
      exact ⟨cells, hs⟩

theorem refresh_blocked (h : s.hmPrevDiskRef = 0) : refreshDISKTable conf now finished rounds s = some s :=
  if_neg fun hdue => hdue.1 h

/-- In a run without failures the times are not zero between the calls, and the first failure of a disk function
makes one zero. -/
theorem times_nonzero (h : Reachable step (fun o m => Ticks o m ∧ Complete o m) (· = blank) m) :
    (m.disks.hmPrevDiskRef ≠ 0 ∧ m.hmPrevRefTime ≠ 0) ∧ ∀ o m', Ticks o m → step o m = some m' →
      ((m'.disks.hmPrevDiskRef ≠ 0 ∧ m'.hmPrevRefTime ≠ 0) ↔ Complete o m) := by
  have hm := h.invariant Idle (fun _ hm => hm ▸ idle_blank) fun _ _ _ => step_idle
  exact ⟨⟨hm.disks, hm.all⟩, fun _ _ => step_times hm⟩

def constructed : Monitor :=
  { blank with disks := ⟨(∅ : Lib.Chains.Heap HmDiskEntry).insert 1
    ⟨⟨['s', 'd', '0'], ['s', 'd', '0'], 3, ['0', '.', '0'],
    ['0', '.', '0'], ['0', '.', '0'], .ok, false⟩, 0⟩, 2, 1, 1, 100⟩ }

def sd0 : Round := ⟨true, some (idle ['s', 'd', '0']), true, true⟩

theorem step_constructed : step (.construct defaults 100 [sd0]) blank = some constructed := rfl

theorem times_nonzero_constructed :
    (constructed.disks.hmPrevDiskRef ≠ 0 ∧ constructed.hmPrevRefTime ≠ 0) ∧ ∀ o m', Ticks o constructed →
      step o constructed = some m' →
      ((m'.disks.hmPrevDiskRef ≠ 0 ∧ m'.hmPrevRefTime ≠ 0) ↔ Complete o constructed) := by
  refine times_nonzero (.next (.construct defaults 100 [sd0]) (.start rfl) ⟨?_, ?_⟩ step_constructed)
  · exact (by decide : (100 : Int) ≠ 0)
  · intro r hr
    obtain rfl := List.mem_singleton.mp hr
    exact ⟨rfl, rfl, rfl⟩

/-- Reading the data of a disk fails in a refresh, and none of the later ones does anything. -/
theorem refresh_failed : ∃ m, Reachable step Ticks (· = blank) m ∧
    ¬ (m.disks.hmPrevDiskRef ≠ 0 ∧ m.hmPrevRefTime ≠ 0) ∧
    ∀ conf now finished rounds, step (.refreshDisks conf now finished rounds) m = some m := by
  obtain ⟨m, hstep, hzero⟩ : ∃ m,
      step (.refreshDisks defaults 200 200 [⟨true, none, true, true⟩]) constructed = some m ∧ m.disks.hmPrevDiskRef = 0 := ⟨_, rfl, rfl⟩
  refine ⟨m, .next (.refreshDisks defaults 200 200 [⟨true, none, true, true⟩])
    (.next (.construct defaults 100 [sd0]) (.start rfl) (by decide : (100 : Int) ≠ 0) step_constructed)
    (by decide : (200 : Int) ≠ 0) hstep,
    fun h => h.1 hzero, fun conf now finished rounds => ?_⟩
  rw [step, refresh_blocked hzero]
  rfl

end Runs

end OiUserland.HealthMonitor.RefreshGuards
