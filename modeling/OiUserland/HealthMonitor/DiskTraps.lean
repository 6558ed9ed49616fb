import OiUserland.HealthMonitor.DiskRuns

namespace OiUserland.HealthMonitor.DiskTraps

open Lib.Chains Lib.CStrings Lib.Runs Rules DiskTable DiskRows DiskLoops DiskRefresh DiskRuns

def oidOf (c : Char) : Nat := ((BitVec.ofNat 8 c.toNat).signExtend 64).toNat

def diskTrap (hmDiskName : List Char) (status : AlarmState) : Trap where
  trapoid := [1, 3, 6, 1, 4, 1, 42, 2, 12, 2, 2, 11, 5, 1, 1, 1] ++ hmDiskName.length :: hmDiskName.map oidOf
  status := convAlarmState status
  description := "Disk Loaded "
  dvalue := String.ofList hmDiskName
  dtype := 12

def severity (conf : Config) (row : Row) : AlarmState :=
  newDiskState conf (strtol row.hmDiskBusyPcnt).1 (strtol row.hmAvgDiskSvcTime).1

def rowTrap (conf : Config) (row : Row) : Option Trap :=
  let new := severity conf row
  if row.hmDiskState < new then some (diskTrap row.hmDiskName new)
  else if new < row.hmDiskState ∧ new = .ok then some (diskTrap row.hmDiskName .ok)
  else none

def reportFrom (conf : Config) : Nat → Addr → Heap HmDiskEntry → Option (Heap HmDiskEntry × List Trap)
  | 0, _, _ => none
  | n + 1, headPtr, heap =>
      if headPtr = 0 then some (heap, [])
      else do
        let entry ← heap.lookup headPtr
        let (heap, traps) ← reportFrom conf n entry.pNext (heap.insert headPtr { entry with row := checkRow conf entry.row })
        some (heap, (rowTrap conf entry.row).toList ++ traps)

def reportStateDISK (conf : Config) (s : HmState) : Option (HmState × List Trap) := do
  let (heap, traps) ← reportFrom conf (s.heap.keys.length + 1) s.head s.heap
  some ({ s with heap := heap }, traps)

def tableFor : Op → HmState → Option HmState
  | .construct _ _ e, s =>
      if e.disks = [] ∧ e.failed = false then none
      else (e.disks.foldlM constructDisk ({ s with hmPrevDiskRef := 0, diskCount := 0 }, 0)).map Prod.fst
  | .refresh conf now _ e, s =>
      if Due conf now s then do
        let s := { s with hmPrevDiskRef := 0, diskCount := 0 }
        let (heap, tailPtr) ← resetFrom (s.heap.keys.length + 1) s.head s.heap
        if e.disks = [] ∧ e.failed = false then none
        else
          let (s, _) ← e.disks.foldlM refreshDisk ({ s with heap := heap }, tailPtr)
          if e.failed then some s
          else
            let heap ← sweepFrom (s.heap.keys.length + 1) s.head s.head s.heap
            some { s with heap := heap }
      else some s

def checks : Op → HmState → Option Config
  | .construct conf _ e, _ => if e.failed then none else some conf
  | .refresh conf now _ e, s => if Due conf now s ∧ e.failed = false then some conf else none

def finishedOf : Op → Int
  | .construct _ finished _ => finished
  | .refresh _ _ finished _ => finished

def report (op : Op) (s : HmState) : Option (HmState × List Trap) := do
  let s₁ ← tableFor op s
  match checks op s with
  | none => some (s₁, [])
  | some conf =>
    let (s₂, traps) ← reportStateDISK conf s₁
    some ({ s₂ with hmPrevDiskRef := finishedOf op }, traps)

variable {conf : Config} {n : Nat} {a : Addr} {heap heap' : Heap HmDiskEntry} {cells : List (Addr × Row)} {traps : List Trap}
  {op : Op} {s s' : HmState} {name : List Char} {row : Row} {rows mid : List Row}

theorem reportFrom_heap (conf : Config) (n : Nat) (a : Addr) (heap : Heap HmDiskEntry) :
    (reportFrom conf n a heap).map Prod.fst = checkFrom conf n a heap := by
  induction n generalizing a heap with
  | zero => rfl
  | succ n ih =>
      unfold reportFrom checkFrom
      by_cases ha : a = 0
      · rw [if_pos ha, if_pos ha]
        rfl
      · rw [if_neg ha, if_neg ha]
        cases hv : heap.lookup a with
        | none => rfl
        | some entry =>
            simp only [Option.bind_eq_bind, Option.bind_some]
            rw [← ih]
            cases reportFrom conf n entry.pNext (heap.insert a { entry with row := checkRow conf entry.row }) <;> rfl

theorem reportStateDISK_state (conf : Config) (s : HmState) :
    (reportStateDISK conf s).map Prod.fst = checkStateDISK conf s := by
  unfold reportStateDISK checkStateDISK
  rw [← reportFrom_heap]
  cases reportFrom conf (s.heap.keys.length + 1) s.head s.heap <;> rfl

theorem report_step (op : Op) (s : HmState) : (report op s).map Prod.fst = step op s := by
  cases op with
  | construct conf finished e =>
      simp only [report, tableFor, checks, finishedOf, step, constructDISKTable, Option.bind_eq_bind]
      by_cases he : e.disks = [] ∧ e.failed = false
      · rw [if_pos he, if_pos he]
        rfl
      · rw [if_neg he, if_neg he]
        cases e.disks.foldlM constructDisk ({ s with hmPrevDiskRef := 0, diskCount := 0 }, 0) with
        | none => rfl
        | some t =>
            rw [Option.map_some, Option.bind_some, Option.bind_some]
            by_cases hfailed : e.failed = true
            · rw [if_pos hfailed, if_pos hfailed]
              rfl
            · rw [if_neg hfailed, if_neg hfailed, ← reportStateDISK_state]
              dsimp only
              cases reportStateDISK conf t.1 <;> rfl
  | refresh conf now finished e =>
      simp only [report, tableFor, checks, finishedOf, step, refreshDISKTable, Option.bind_eq_bind]
      by_cases hdue : Due conf now s
      · rw [if_pos hdue, if_pos hdue]
        cases resetFrom (s.heap.keys.length + 1) s.head s.heap with
        | none => rfl
        | some r =>
            rw [Option.bind_some, Option.bind_some]
            by_cases he : e.disks = [] ∧ e.failed = false
            · rw [if_pos he, if_pos he]
              rfl
            · rw [if_neg he, if_neg he]
              cases e.disks.foldlM refreshDisk ({ s with hmPrevDiskRef := 0, diskCount := 0, heap := r.1 }, r.2) with
              | none => rfl
              | some t =>
                  rw [Option.bind_some, Option.bind_some]
                  by_cases hfailed : e.failed = true
                  · have hnot : ¬ (Due conf now s ∧ e.failed = false) := fun h => Bool.false_ne_true (h.2.symm.trans hfailed)
                    rw [if_pos hfailed, if_pos hfailed, Option.bind_some, if_neg hnot]
                    rfl
                  · rw [if_neg hfailed, if_neg hfailed, if_pos ⟨hdue, Bool.eq_false_iff.mpr hfailed⟩]
                    cases sweepFrom (t.1.heap.keys.length + 1) t.1.head t.1.head t.1.heap with
                    | none => rfl
                    | some heap =>
                        simp only [Option.bind_some]
                        rw [← reportStateDISK_state]
                        cases reportStateDISK conf { t.1 with heap := heap } <;> rfl
      · rw [if_neg hdue, if_neg hdue, Option.bind_some, if_neg fun h => hdue h.1]
        rfl

theorem reportFrom_rows (hl : Rows heap a cells) (hrun : reportFrom conf n a heap = some (heap', traps)) :
    traps = (cells.map Prod.snd).filterMap (rowTrap conf) := by
  induction cells generalizing heap a n traps with
  | nil =>
      cases hl
      cases n with
      | zero => cases hrun
      | succ n =>
          cases hrun
          rfl
  | cons cell cells ih =>
      obtain ⟨c, r⟩ := cell
      cases n with
      | zero => cases hrun
      | succ n =>
          obtain ⟨rfl, entry, hv, rfl, -⟩ := hl.head
          simp only [reportFrom, if_neg hl.ne_zero, hv, Option.bind_eq_bind, Option.bind_some, Option.bind_eq_some_iff] at hrun
          obtain ⟨⟨heap₁, traps₁⟩, hrest, hrun⟩ := hrun
          cases hrun
          obtain rfl := ih (rows_store hl hv (checkRow conf entry.row)).2 hrest
          rw [List.map_cons, List.filterMap_cons]
          cases rowTrap conf entry.row <;> rfl

theorem reportStateDISK_rows (hs : Stored s cells) (hrun : reportStateDISK conf s = some (s', traps)) :
    traps = (cells.map Prod.snd).filterMap (rowTrap conf) ∧
      ∃ cells', Stored s' cells' ∧ cells'.map Prod.snd = (cells.map Prod.snd).map (checkRow conf) := by
  obtain ⟨⟨heap, traps'⟩, hfrom, hsome⟩ := Option.bind_eq_some_iff.mp hrun
  cases hsome
  refine ⟨reportFrom_rows hs.holds hfrom, ?_⟩
  obtain ⟨heap', hcheck, hs'⟩ := checkStateDISK_stored conf hs
  rw [← reportStateDISK_state, hrun] at hcheck
  cases hcheck
  refine ⟨_, hs', ?_⟩
  rw [List.map_map, List.map_map]
  rfl

theorem rowTrap_name {t : Trap} (h : rowTrap conf row = some t) : t.dvalue = String.ofList row.hmDiskName := by
  unfold rowTrap at h
  dsimp only at h
  split_ifs at h <;> cases h <;> rfl

def about (name : List Char) (traps : List Trap) : List Trap := traps.filter fun t => t.dvalue = String.ofList name

theorem about_append (name : List Char) (ts us : List Trap) : about name (ts ++ us) = about name ts ++ about name us :=
  List.filter_append ..

theorem about_rowTrap (name : List Char) (row : Row) :
    about name (rowTrap conf row).toList = if row.hmDiskName = name then (rowTrap conf row).toList else [] := by
  cases ht : rowTrap conf row with
  | none => exact (ite_self _).symm
  | some t =>
      have hiff : t.dvalue = String.ofList name ↔ row.hmDiskName = name := by rw [rowTrap_name ht, String.ofList_inj]
      by_cases hname : row.hmDiskName = name
      · rw [if_pos hname]
        exact List.filter_cons_of_pos (decide_eq_true (hiff.mpr hname))
      · rw [if_neg hname]
        exact List.filter_cons_of_neg fun h => hname (hiff.mp (of_decide_eq_true h))

theorem about_traps (hnodup : (rows.map Row.hmDiskName).Nodup) (hrow : row ∈ rows) :
    about row.hmDiskName (rows.filterMap (rowTrap conf)) = (rowTrap conf row).toList := by
  have hother (rows : List Row) (hout : row.hmDiskName ∉ rows.map Row.hmDiskName) :
      about row.hmDiskName (rows.filterMap (rowTrap conf)) = [] := by
    refine List.filter_eq_nil_iff.mpr fun t ht heq => hout ?_
    obtain ⟨r, hr, htrap⟩ := List.mem_filterMap.mp ht
    rw [rowTrap_name htrap] at heq
    exact List.mem_map.mpr ⟨r, hr, String.ofList_inj.mp (of_decide_eq_true heq)⟩
  have hcons (r : Row) (rows : List Row) :
      (r :: rows).filterMap (rowTrap conf) = (rowTrap conf r).toList ++ rows.filterMap (rowTrap conf) := by
    rw [List.filterMap_cons]
    cases rowTrap conf r <;> rfl
  induction rows with
  | nil => cases hrow
  | cons r rows ih =>
      obtain ⟨hout, hrest⟩ := List.nodup_cons.mp hnodup
      rw [hcons, about_append, about_rowTrap]
      rcases List.mem_cons.mp hrow with rfl | hin
      · rw [if_pos rfl, hother rows hout, List.append_nil]
      · rw [if_neg fun heq => hout (List.mem_map.mpr ⟨row, hin, heq.symm⟩), ih hrest hin, List.nil_append]

def Origin (rows : List Row) (r : Row) : Prop :=
  (∃ r₀ ∈ rows, r₀.hmDiskName = r.hmDiskName ∧ r₀.hmDiskState = r.hmDiskState) ∨
    r.hmDiskName ∉ rows.map Row.hmDiskName ∧ r.hmDiskState = .ok

theorem insertOrUpdate_origin {d : Disk} (hrun : insertOrUpdate d mid = some rows') (hnames : ∀ x ∈ rows.map Row.hmDiskName, x ∈ mid.map Row.hmDiskName)
    (hmid : ∀ r ∈ mid, Origin rows r) :
    (∀ x ∈ rows.map Row.hmDiskName, x ∈ rows'.map Row.hmDiskName) ∧ ∀ r ∈ rows', Origin rows r := by
  rcases insertOrUpdate_cases hrun with ⟨xs, r, ys, rfl, -, -, rfl⟩ | ⟨hnone, rfl⟩
  · constructor
    · intro x hx
      have hin := hnames x hx
      simp only [List.map_append, List.map_cons] at hin ⊢
      exact hin
    · intro r' hr'
      rcases List.mem_append.mp hr' with hin | hin
      · exact hmid r' (List.mem_append_left _ hin)
      · rcases List.mem_cons.mp hin with rfl | hin
        · exact hmid r (List.mem_append_right _ (List.mem_cons_self ..))
        · exact hmid r' (List.mem_append_right _ (List.mem_cons_of_mem _ hin))
  · constructor
    · intro x hx
      rw [List.map_append]
      exact List.mem_append_left _ (hnames x hx)
    · intro r' hr'
      rcases List.mem_append.mp hr' with hin | hin
      · exact hmid r' hin
      · obtain rfl := List.mem_singleton.mp hin
        exact .inr ⟨fun hin => name_not_mem hnone (hnames _ hin), rfl⟩

theorem refreshRows_origin {disks : List Disk} (hrun : refreshRows disks rows = some mid) : ∀ r ∈ mid, Origin rows r := by
  have hfold (ds : List Disk) (start : List Row) (hrun : ds.foldlM (fun rows d => insertOrUpdate d rows) start = some mid)
      (hnames : ∀ x ∈ rows.map Row.hmDiskName, x ∈ start.map Row.hmDiskName) (hstart : ∀ r ∈ start, Origin rows r) :
      ∀ r ∈ mid, Origin rows r := by
    induction ds generalizing start with
    | nil =>
        cases hrun
        exact hstart
    | cons d ds ih =>
        obtain ⟨next, hnext, hrest⟩ := Option.bind_eq_some_iff.mp hrun
        obtain ⟨hnames', hnext'⟩ := insertOrUpdate_origin hnext hnames hstart
        exact ih next hrest hnames' hnext'
  refine hfold disks _ hrun ?_ ?_
  · rw [reset_names]
    exact fun x hx => hx
  · intro r hr
    obtain ⟨r₀, hr₀, rfl⟩ := List.mem_map.mp hr
    exact .inl ⟨r₀, hr₀, rfl, rfl⟩

def Rebuilds : Op → Prop
  | .construct _ _ e => e.disks ≠ []
  | .refresh _ _ _ _ => False

structure Prepared (op : Op) (rows : List Row) (s₁ : HmState) (cells₁ : List (Addr × Row)) : Prop where
  stored : Stored s₁ cells₁
  distinct : ((cells₁.map Prod.snd).map Row.hmDiskName).Nodup
  rebuilt : Rebuilds op → ∀ r ∈ cells₁.map Prod.snd, r.hmDiskState = .ok
  origin : ¬ Rebuilds op → ∀ r ∈ cells₁.map Prod.snd, Origin rows r

theorem origin_self (rows : List Row) : ∀ r ∈ rows, Origin rows r := fun r hr => .inl ⟨r, hr, rfl, rfl⟩

theorem tableFor_construct {finished : Int} {e : Enumeration} {s₁ : HmState} (hs : Stored s cells)
    (hnodup : ((cells.map Prod.snd).map Row.hmDiskName).Nodup) (hdisks : (e.disks.map Disk.name).Nodup)
    (htable : tableFor (.construct conf finished e) s = some s₁) :
    ∃ cells₁, Prepared (.construct conf finished e) (cells.map Prod.snd) s₁ cells₁ := by
  rw [tableFor] at htable
  by_cases he : e.disks = [] ∧ e.failed = false
  · rw [if_pos he] at htable
    cases htable
  · rw [if_neg he] at htable
    obtain ⟨t, hfold, rfl⟩ := Option.map_eq_some_iff.mp htable
    obtain ⟨cells₁, hs₁, ⟨hnil, rfl⟩ | ⟨hne, hnames, hstates⟩⟩ := construct_rows hs hfold
    · exact ⟨cells₁, hs₁, hnodup, fun h => absurd hnil h, fun _ => origin_self _⟩
    · exact ⟨cells₁, hs₁, hnames ▸ hdisks, fun _ => hstates, fun h => absurd hne h⟩

theorem first_stays {t : HmState × Addr} (ht : Tailed mid t)
    (hsweep : sweepFrom (t.1.heap.keys.length + 1) t.1.head t.1.head t.1.heap = some heap)
    (hcheck : reportStateDISK conf { t.1 with heap := heap } = some (s', traps)) :
    ∀ m, mid.head? = some m → m.hmTraversed = true := by
  intro m hm
  by_contra hgone
  have hnone := sweep_gone conf ht hm (Bool.eq_false_iff.mpr hgone)
  rw [sweepAndCheck, hsweep, Option.bind_some, ← reportStateDISK_state, hcheck] at hnone
  cases hnone

theorem tableFor_refresh {now finished : Int} {e : Enumeration} {s₁ : HmState} (hs : Stored s cells)
    (hnodup : ((cells.map Prod.snd).map Row.hmDiskName).Nodup)
    (htable : tableFor (.refresh conf now finished e) s = some s₁)
    (hrun : report (.refresh conf now finished e) s = some (s', traps)) :
    ∃ cells₁, Prepared (.refresh conf now finished e) (cells.map Prod.snd) s₁ cells₁ := by
  have hkept {mid : List Row} (hmid : refreshRows e.disks (cells.map Prod.snd) = some mid) : (mid.map Row.hmDiskName).Nodup :=
    run_nodup (by rwa [reset_names]) hmid
  by_cases hdue : Due conf now s
  · have hne : cells ≠ [] := by
      rintro rfl
      simp only [tableFor, if_pos hdue, resetFrom_nil hs, Option.bind_eq_bind, Option.bind_none] at htable
      cases htable
    obtain ⟨heap, last, hreset, ht₀⟩ := resetFrom_tailed hs hne
    rw [report, htable, Option.bind_eq_bind, Option.bind_some] at hrun
    simp only [tableFor, if_pos hdue, hreset, Option.bind_eq_bind, Option.bind_some] at htable
    by_cases he : e.disks = [] ∧ e.failed = false
    · rw [if_pos he] at htable
      cases htable
    · rw [if_neg he] at htable
      obtain ⟨t, hfold, htable⟩ := Option.bind_eq_some_iff.mp htable
      have hrel := refreshDisks_tailed e.disks ht₀
      rw [hfold] at hrel
      obtain ⟨mid, hmid, ht⟩ := some_of_rel hrel
      by_cases hfailed : e.failed = true
      · rw [if_pos hfailed] at htable
        cases htable
        obtain ⟨cells₁, hs₁, rfl, -⟩ := ht
        exact ⟨cells₁, hs₁, hkept hmid, False.elim, fun _ => refreshRows_origin hmid⟩
      · rw [if_neg hfailed] at htable
        obtain ⟨heap₁, hsweep, htable⟩ := Option.bind_eq_some_iff.mp htable
        cases htable
        have hchecks : checks (.refresh conf now finished e) s = some conf := if_pos ⟨hdue, Bool.eq_false_iff.mpr hfailed⟩
        rw [hchecks] at hrun
        obtain ⟨⟨s₂, traps₂⟩, hcheck, -⟩ := Option.bind_eq_some_iff.mp hrun
        obtain ⟨heap₂, cells₁, hsweep₂, hs₁, hrows⟩ := sweep_kept ht (first_stays ht hsweep hcheck)
        obtain rfl := Option.some.inj (hsweep.symm.trans hsweep₂)
        refine ⟨cells₁, hs₁, ?_, False.elim, fun _ r hr => ?_⟩
        · rw [hrows]
          exact (hkept hmid).sublist (List.filter_sublist.map _)
        · rw [hrows] at hr
          exact refreshRows_origin hmid r (List.mem_of_mem_filter hr)
  · rw [tableFor, if_neg hdue] at htable
    cases htable
    exact ⟨cells, hs, hnodup, False.elim, fun _ => origin_self _⟩

def lastReported (reports : List (Option AlarmState)) : AlarmState := (reports.filterMap id).getLast?.getD .ok

def reportOf (last severity : AlarmState) : Option AlarmState :=
  if last < severity ∨ severity = .ok ∧ last ≠ .ok then some severity else none

/-- The reports of a disk are lawful for the severities that are judged. -/
inductive Lawful : List (Option AlarmState) → List (Option AlarmState) → Prop
  | nil : Lawful [] []
  | judged {severities reports : List (Option AlarmState)} (severity : AlarmState) (h : Lawful severities reports) :
      Lawful (severities ++ [some severity]) (reports ++ [reportOf (lastReported reports) severity])
  | idle {severities reports : List (Option AlarmState)} (h : Lawful severities reports) :
      Lawful (severities ++ [none]) (reports ++ [none])

theorem lastReported_snoc (reports : List (Option AlarmState)) (r : Option AlarmState) :
    lastReported (reports ++ [r]) = r.getD (lastReported reports) := by
  unfold lastReported
  rw [List.filterMap_append]
  cases r with
  | none => rw [List.filterMap_cons_none rfl, List.filterMap_nil, List.append_nil, Option.getD_none]
  | some r =>
      have hsingle : [some r].filterMap id = [r] := rfl
      rw [hsingle, List.getLast?_concat, Option.getD_some, Option.getD_some]

theorem nextState_eq (last severity : AlarmState) : nextState last severity = (reportOf last severity).getD last := by
  unfold nextState reportOf
  cases last <;> cases severity <;> rfl

theorem rowTrap_eq (conf : Config) (row : Row) :
    rowTrap conf row = (reportOf row.hmDiskState (severity conf row)).map (diskTrap row.hmDiskName) := by
  unfold rowTrap reportOf
  cases row.hmDiskState <;> cases severity conf row <;> rfl

/-- The row of a disk in the table. -/
def RowOf (s : HmState) (name : List Char) (row : Row) : Prop := ∃ rows, Listed s rows ∧ row ∈ rows ∧ row.hmDiskName = name

/-- What a round does for a disk: how severe its numbers are, if they are judged, and the traps
that are sent about it. -/
structure Round where
  severity : Option AlarmState
  traps : List Trap

def Judged (name : List Char) (before : AlarmState) (round : Round) (after : AlarmState) : Prop :=
  match round.severity with
  | none => round.traps = [] ∧ after = before
  | some severity =>
    round.traps = (reportOf before severity).toList.map (diskTrap name) ∧ after = (reportOf before severity).getD before

def roundOf (op : Op) (s : HmState) (traps : List Trap) (row : Row) : Round :=
  ⟨(checks op s).map fun conf => severity conf row, about row.hmDiskName traps⟩

/-- The rounds since a disk has appeared in the table. -/
inductive Stay (name : List Char) : HmState → List Round → Prop
  | appears {op : Op} {s s' : HmState} {traps : List Trap} {row : Row} (hs : Reachable step Legal Init s) (hlegal : Legal op s)
      (hnew : Rebuilds op ∨ ¬ ∃ row, RowOf s name row) (hrun : report op s = some (s', traps)) (hrow : RowOf s' name row) :
      Stay name s' [roundOf op s traps row]
  | stays {op : Op} {s s' : HmState} {traps : List Trap} {row : Row} {rounds : List Round} (h : Stay name s rounds)
      (hlegal : Legal op s) (hkept : ¬ Rebuilds op) (hrun : report op s = some (s', traps)) (hrow : RowOf s' name row) :
      Stay name s' (rounds ++ [roundOf op s traps row])

theorem report_prepared (hs : Stored s cells) (hnodup : ((cells.map Prod.snd).map Row.hmDiskName).Nodup) (hlegal : Legal op s)
    (hrun : report op s = some (s', traps)) :
    ∃ s₁ cells₁, tableFor op s = some s₁ ∧ Prepared op (cells.map Prod.snd) s₁ cells₁ := by
  obtain ⟨s₁, htable, -⟩ := Option.bind_eq_some_iff.mp hrun
  cases op with
  | construct conf finished e =>
      obtain ⟨cells₁, h⟩ := tableFor_construct hs hnodup hlegal htable
      exact ⟨s₁, cells₁, htable, h⟩
  | refresh conf now finished e =>
      obtain ⟨cells₁, h⟩ := tableFor_refresh hs hnodup htable hrun
      exact ⟨s₁, cells₁, htable, h⟩

theorem report_row {s₁ : HmState} {cells₁ : List (Addr × Row)} (htable : tableFor op s = some s₁)
    (h : Prepared op rows s₁ cells₁) (hrun : report op s = some (s', traps)) (hrow : RowOf s' name row) :
    ∃ r ∈ cells₁.map Prod.snd, r.hmDiskName = name ∧ Judged name r.hmDiskState (roundOf op s traps row) row.hmDiskState := by
  obtain ⟨rows', hlisted, hin, rfl⟩ := hrow
  rw [report, htable, Option.bind_eq_bind, Option.bind_some] at hrun
  unfold Judged roundOf
  cases hchecks : checks op s with
  | none =>
      rw [hchecks] at hrun
      cases hrun
      obtain rfl := hlisted.unique h.stored.listed
      exact ⟨row, hin, rfl, rfl, rfl⟩
  | some conf =>
      rw [hchecks] at hrun
      obtain ⟨⟨s₂, traps₂⟩, hcheck, hrun⟩ := Option.bind_eq_some_iff.mp hrun
      cases hrun
      obtain ⟨rfl, cells₂, hs₂, hrows⟩ := reportStateDISK_rows h.stored hcheck
      have hlisted₂ : Listed { s₂ with hmPrevDiskRef := finishedOf op } (cells₂.map Prod.snd) := ⟨cells₂, hs₂.holds, rfl⟩
      obtain rfl := hlisted.unique hlisted₂
      rw [hrows] at hin
      obtain ⟨r, hr, rfl⟩ := List.mem_map.mp hin
      refine ⟨r, hr, rfl, ?_, ?_⟩
      · change about r.hmDiskName _ = (reportOf r.hmDiskState (severity conf r)).toList.map (diskTrap r.hmDiskName)
        rw [about_traps h.distinct hr, rowTrap_eq]
        cases reportOf r.hmDiskState (severity conf r) <;> rfl
      · exact nextState_eq _ _

theorem Stay.reachable {rounds : List Round} (h : Stay name s rounds) : Reachable step Legal Init s := by
  have hnext {op : Op} {s s' : HmState} {traps : List Trap} (hs : Reachable step Legal Init s) (hlegal : Legal op s)
      (hrun : report op s = some (s', traps)) : Reachable step Legal Init s' := by
    refine .next op hs hlegal ?_
    rw [← report_step, hrun, Option.map_some]
  induction h with
  | appears hs hlegal _ hrun _ => exact hnext hs hlegal hrun
  | stays _ hlegal _ hrun _ ih => exact hnext ih hlegal hrun

theorem Judged.reported (rounds : List Round) {round : Round} {reports : List (Option AlarmState)} {after : AlarmState}
    (h : Judged name (lastReported reports) round after) (hlaw : Lawful (rounds.map Round.severity) reports)
    (htraps : rounds.map Round.traps = reports.map fun r => r.toList.map (diskTrap name)) :
    ∃ reports', Lawful ((rounds ++ [round]).map Round.severity) reports' ∧
      (rounds ++ [round]).map Round.traps = reports'.map (fun r => r.toList.map (diskTrap name)) ∧
        after = lastReported reports' := by
  rw [List.map_append, List.map_append, htraps]
  unfold Judged at h
  cases hseverity : round.severity with
  | none =>
      rw [hseverity] at h
      refine ⟨reports ++ [none], ?_, ?_, ?_⟩
      · rw [List.map_singleton, hseverity]
        exact hlaw.idle
      · rw [List.map_append, List.map_singleton, h.1]
        rfl
      · rw [lastReported_snoc, h.2]
        rfl
  | some severity =>
      rw [hseverity] at h
      refine ⟨reports ++ [reportOf (lastReported reports) severity], ?_, ?_, ?_⟩
      · rw [List.map_singleton, hseverity]
        exact hlaw.judged severity
      · rw [List.map_append, List.map_singleton, h.1]
        rfl
      · rw [lastReported_snoc, h.2]

/-- The reports about a disk are lawful, each is sent as one trap, and its row keeps the last of them. -/
theorem disk_traps {rounds : List Round} (h : Stay name s rounds) :
    ∃ reports row, Lawful (rounds.map Round.severity) reports ∧
      rounds.map Round.traps = reports.map (fun r => r.toList.map (diskTrap name)) ∧
      RowOf s name row ∧ row.hmDiskState = lastReported reports := by
  induction h with
  | @appears op s s' traps row hs hlegal hnew hrun hrow =>
      obtain ⟨cells, hstored, hnodup⟩ := reached_inv hs
      obtain ⟨s₁, cells₁, htable, hprepared⟩ := report_prepared hstored hnodup hlegal hrun
      obtain ⟨r, hr, hname, hjudged⟩ := report_row htable hprepared hrun hrow
      have hstate : r.hmDiskState = lastReported [] := by
        by_cases hrebuilds : Rebuilds op
        · exact hprepared.rebuilt hrebuilds r hr
        · rcases hprepared.origin hrebuilds r hr with ⟨r₀, hr₀, hname₀, -⟩ | ⟨-, hok⟩
          · exact absurd ⟨r₀, _, hstored.listed, hr₀, hname₀.trans hname⟩ (hnew.resolve_left hrebuilds)
          · exact hok
      rw [hstate] at hjudged
      obtain ⟨reports, hlaw, htraps, hlast⟩ := hjudged.reported [] .nil rfl
      exact ⟨reports, row, hlaw, htraps, hrow, hlast⟩
  | @stays op s s' traps row rounds h hlegal hkept hrun hrow ih =>
      obtain ⟨reports, row₀, hlaw, htraps, ⟨rows, hlisted, hin, hname₀⟩, hlast⟩ := ih
      obtain ⟨cells, hstored, hnodup⟩ := reached_inv h.reachable
      obtain rfl := hlisted.unique hstored.listed
      obtain ⟨s₁, cells₁, htable, hprepared⟩ := report_prepared hstored hnodup hlegal hrun
      obtain ⟨r, hr, hname, hjudged⟩ := report_row htable hprepared hrun hrow
      have hstate : r.hmDiskState = lastReported reports := by
        rcases hprepared.origin hkept r hr with ⟨r₀, hr₀, hsame, hstate⟩ | ⟨hout, -⟩
        · obtain rfl := List.inj_on_of_nodup_map hnodup hin hr₀ (hname₀.trans (hsame.trans hname).symm)
          exact hstate.symm.trans hlast
        · exact absurd (List.mem_map.mpr ⟨row₀, hin, hname₀.trans hname.symm⟩) hout
      rw [hstate] at hjudged
      obtain ⟨reports', hlaw', htraps', hlast'⟩ := hjudged.reported _ hlaw htraps
      exact ⟨reports', row, hlaw', htraps', hrow, hlast'⟩

def busy (name : List Char) : Disk := ⟨name, name, ['0', '.', '0'], ['9', '0', '.', '0'], ['8', '5', '.', '0']⟩

/-- A disk that is idle at first is loaded. -/
theorem disk_traps_loaded : ∃ (s : HmState) (rounds : List Round), rounds.map Round.severity = [some .ok, some .error] ∧
    ∃ reports row, Lawful (rounds.map Round.severity) reports ∧
      rounds.map Round.traps = reports.map (fun r => r.toList.map (diskTrap ['s', 'd', '0'])) ∧
      RowOf s ['s', 'd', '0'] row ∧ row.hmDiskState = lastReported reports := by
  let row₁ : Row := { fresh (idle ['s', 'd', '0']) with hmTraversed := false }
  let row₂ : Row := { fresh (busy ['s', 'd', '0']) with hmDiskState := .error }
  let s₁ : HmState := ⟨AList.insert 1 ⟨row₁, 0⟩ ∅, 2, 1, 1, 100⟩
  let s₂ : HmState := ⟨AList.insert 1 ⟨row₂, 0⟩ ∅, 2, 1, 1, 200⟩
  have hrow₁ : RowOf s₁ ['s', 'd', '0'] row₁ :=
    ⟨_, ⟨[(1, row₁)], .cons (by decide) (AList.lookup_insert _) .nil, rfl⟩, List.mem_singleton_self _, rfl⟩
  have hrow₂ : RowOf s₂ ['s', 'd', '0'] row₂ :=
    ⟨_, ⟨[(1, row₂)], .cons (by decide) (AList.lookup_insert _) .nil, rfl⟩, List.mem_singleton_self _, rfl⟩
  let op₁ : Op := .construct defaults 100 ⟨[idle ['s', 'd', '0']], false⟩
  let op₂ : Op := .refresh defaults 200 200 ⟨[busy ['s', 'd', '0']], false⟩
  have hrun₁ : report op₁ ⟨∅, 1, 0, 0, 1⟩ = some (s₁, []) := rfl
  have hrun₂ : report op₂ s₁ = some (s₂, [diskTrap ['s', 'd', '0'] .error]) := rfl
  have hlegal₁ : Legal op₁ ⟨∅, 1, 0, 0, 1⟩ := List.nodup_singleton _
  have hlegal₂ : Legal op₂ s₁ := List.nodup_singleton _
  have hrebuilds : Rebuilds op₁ := List.cons_ne_nil _ _
  have hstay₁ := Stay.appears (.start rfl) hlegal₁ (.inl hrebuilds) hrun₁ hrow₁
  have hstay₂ := hstay₁.stays hlegal₂ id hrun₂ hrow₂
  exact ⟨s₂, _, rfl, disk_traps hstay₂⟩

end OiUserland.HealthMonitor.DiskTraps
