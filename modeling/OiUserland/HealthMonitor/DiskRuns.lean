import OiUserland.Lib.Runs
import OiUserland.HealthMonitor.DiskLoops

namespace OiUserland.HealthMonitor.DiskRefresh

open Lib.Chains DiskTable DiskRows DiskLoops

variable {d : Disk} {disks : List Disk} {e : Addr} {row : Row} {rows mid : List Row} {cells : List (Addr × Row)} {conf : Config}
  {now finished : Int} {s : HmState} {t t' : HmState × Addr}

/-- The table is a list of rows. NULL and the addresses that are still to come are not allocated. -/
structure Stored (s : HmState) (cells : List (Addr × Row)) : Prop where
  holds : Rows s.heap s.head cells
  unused : ∀ a, (a = 0 ∨ s.next ≤ a) → s.heap.lookup a = none
  pos : 0 < s.next

/-- The rows from the first node on. -/
def Listed (s : HmState) (rows : List Row) : Prop := ∃ cells, Rows s.heap s.head cells ∧ cells.map Prod.snd = rows

theorem Stored.listed (h : Stored s cells) : Listed s (cells.map Prod.snd) := ⟨cells, h.holds, rfl⟩

theorem Listed.unique {rows' : List Row} (h : Listed s rows) (h' : Listed s rows') : rows = rows' := by
  obtain ⟨cells, hl, rfl⟩ := h
  obtain ⟨cells', hl', rfl⟩ := h'
  rw [hl.unique hl']

theorem Stored.rounds (h : Stored s cells) : cells.length < s.heap.keys.length + 1 := Nat.lt_succ_of_le h.holds.length_le

theorem Stored.lt_next (h : Stored s cells) (he : e ∈ cells.map Prod.fst) : e < s.next := by
  by_contra hle
  obtain ⟨v, hv⟩ := h.holds.lookup he
  rw [h.unused e (.inr (Nat.not_lt.mp hle))] at hv
  cases hv

theorem Stored.change {heap : Heap HmDiskEntry} {cells' : List (Addr × Row)} (h : Stored s cells) (hl : Rows heap s.head cells')
    (hframe : Frame cells s.heap heap) : Stored { s with heap := heap } cells' := by
  refine ⟨hl, fun a ha => ?_, h.pos⟩
  refine (hframe a fun hin => ?_).trans (h.unused a ha)
  obtain ⟨v, hv⟩ := h.holds.lookup hin
  rw [h.unused a ha] at hv
  cases hv

theorem checkStateDISK_stored (conf : Config) (h : Stored s cells) :
    ∃ heap, checkStateDISK conf s = some { s with heap := heap } ∧
      Stored { s with heap := heap } (cells.map fun (c, r) => (c, checkRow conf r)) := by
  obtain ⟨heap, hrun, hl, hframe⟩ := checkFrom_rows conf h.holds h.rounds
  refine ⟨heap, ?_, h.change hl hframe⟩
  simp only [checkStateDISK, hrun, Option.bind_eq_bind, Option.bind_some]

def Tailed (rows : List Row) (t : HmState × Addr) : Prop :=
  ∃ cells, Stored t.1 cells ∧ cells.map Prod.snd = rows ∧ (cells.map Prod.fst).getLast? = some t.2

theorem appendRow_first (row : Row) (hunused : ∀ a, (a = 0 ∨ s.next ≤ a) → s.heap.lookup a = none) (hpos : 0 < s.next) :
    ∃ t', appendRow row 0 s = some t' ∧ Tailed [row] t' ∧ t'.1.diskCount = s.diskCount ∧ t'.1.hmPrevDiskRef = s.hmPrevDiskRef := by
  have hne : s.next ≠ 0 := Nat.ne_of_gt hpos
  have hstored : Stored { s with heap := s.heap.insert s.next ⟨row, 0⟩, next := s.next + 1, head := s.next } [(s.next, row)] := by
    refine ⟨.cons (v := (⟨row, 0⟩ : HmDiskEntry)) hne (AList.lookup_insert _) .nil, fun a ha => ?_, Nat.succ_pos _⟩
    have hother : a ≠ s.next := by
      rcases ha with rfl | ha
      · exact hne.symm
      · exact Nat.ne_of_gt ha
    refine (AList.lookup_insert_ne hother).trans (hunused a (ha.imp_right fun h => ?_))
    exact Nat.le_of_succ_le h
  exact ⟨(_, s.next), rfl, ⟨_, hstored, rfl, rfl⟩, rfl, rfl⟩

theorem appendRow_last (row : Row) (h : Tailed rows (s, e)) :
    ∃ t', appendRow row e s = some t' ∧ Tailed (rows ++ [row]) t' ∧ t'.1.diskCount = s.diskCount ∧
      t'.1.hmPrevDiskRef = s.hmPrevDiskRef := by
  obtain ⟨cells, hs, rfl, hlast⟩ := h
  obtain ⟨firsts, hfirsts⟩ := List.getLast?_eq_some_iff.mp hlast
  obtain ⟨xs, ys, rfl, -, hys⟩ := List.map_eq_append_iff.mp hfirsts
  obtain ⟨⟨e', r⟩, rest, rfl, rfl, hrest⟩ := List.map_eq_cons_iff.mp hys
  obtain rfl := List.map_eq_nil_iff.mp hrest
  have hmem : e' ∈ (xs ++ [(e', r)]).map Prod.fst := List.mem_of_getLast? hlast
  obtain ⟨tail, htail⟩ := hs.holds.lookup hmem
  have hne : s.next ≠ 0 := Nat.ne_of_gt hs.pos
  have he : e' ≠ s.next := Nat.ne_of_lt (hs.lt_next hmem)
  have hout : s.next ∉ (xs ++ [(e', r)]).map Prod.fst := fun hin => Nat.lt_irrefl _ (hs.lt_next hin)
  have hl := hs.holds.append (w := { tail with pNext := s.next }) (u := ⟨row, 0⟩) hne hout htail rfl rfl rfl
  have htail' : (s.heap.insert s.next ⟨row, 0⟩).lookup e' = some tail := (AList.lookup_insert_ne he).trans htail
  have he0 : e' ≠ 0 := hs.holds.chain.ne_zero hmem
  refine ⟨({ s with heap := (s.heap.insert s.next ⟨row, 0⟩).insert e' { tail with pNext := s.next }, next := s.next + 1 }, s.next),
    ?_, ⟨_, ⟨hl, fun a ha => ?_, Nat.succ_pos _⟩, ?_, ?_⟩, rfl, rfl⟩
  · simp only [appendRow, if_neg he0, htail', Option.bind_eq_bind, Option.bind_some]
  · have hother : a ≠ s.next ∧ a ≠ e' := by
      rcases ha with rfl | ha
      · exact ⟨hne.symm, he0.symm⟩
      · exact ⟨Nat.ne_of_gt ha, Nat.ne_of_gt (Nat.lt_trans (hs.lt_next hmem) ha)⟩
    refine (AList.lookup_insert_ne hother.2).trans ((AList.lookup_insert_ne hother.1).trans (hs.unused a (ha.imp_right fun h => ?_)))
    exact Nat.le_of_succ_le h
  · rw [List.map_append]
    rfl
  · rw [List.map_append]
    exact List.getLast?_concat

theorem insertOrUpdate_split {ps qs : List Row} {r : Row} (hps : ∀ x ∈ ps, sameName d x = false) (hr : sameName d r = true) :
    insertOrUpdate d (ps ++ r :: qs) = (updateRow d r).map fun r' => ps ++ r' :: qs := by
  rw [insertOrUpdate_append hps, insertOrUpdate, if_pos hr, Option.map_map]
  rfl

theorem refreshDisk_tailed (ht : Tailed rows t) : Option.Rel Tailed (insertOrUpdate d rows) (refreshDisk t d) := by
  obtain ⟨cells, hs, rfl, hlast⟩ := ht
  rcases first_or_none d (cells.map Prod.snd) with ⟨ps, r, qs, hrows, hps, hr⟩ | hnone
  · obtain ⟨xs, rest, rfl, rfl, hrest⟩ := List.map_eq_append_iff.mp hrows
    obtain ⟨⟨c, r⟩, ys, rfl, rfl, rfl⟩ := List.map_eq_cons_iff.mp hrest
    have hxs : ∀ x ∈ xs, sameName d x.2 = false := fun x hx => hps x.2 (List.mem_map_of_mem hx)
    have hn : xs.length < t.1.heap.keys.length + 1 := by
      refine Nat.lt_of_le_of_lt ?_ hs.rounds
      rw [List.length_append]
      exact Nat.le_add_right _ _
    obtain ⟨hundef, hdef⟩ := updateFrom_match hs.holds hn hxs hr
    rw [hrows, insertOrUpdate_split hps hr]
    cases hupdate : updateRow d r with
    | none =>
        have hrun : refreshDisk t d = none := by
          simp only [refreshDisk, hundef hupdate, Option.bind_eq_bind, Option.bind_none]
        rw [hrun]
        exact .none
    | some r' =>
        obtain ⟨heap, hrun, hl, hframe⟩ := hdef r' hupdate
        have hrun' : refreshDisk t d = some ({ t.1 with heap := heap, diskCount := t.1.diskCount + 1 }, t.2) := by
          simp only [refreshDisk, hrun, Option.bind_eq_bind, Option.bind_some, if_true]
        rw [hrun']
        have hs' := hs.change hl hframe
        refine .some ⟨_, ⟨hs'.holds, hs'.unused, hs'.pos⟩, ?_, ?_⟩
        · simp
        · rw [← hlast]
          simp
  · have hrows : insertOrUpdate d (cells.map Prod.snd) = (newRow true d).map fun r => cells.map Prod.snd ++ [r] := by
      have happend := insertOrUpdate_append hnone []
      rw [List.append_nil] at happend
      rw [happend, insertOrUpdate, Option.map_map]
      rfl
    have hcells : ∀ x ∈ cells, sameName d x.2 = false := fun x hx => hnone x.2 (List.mem_map_of_mem hx)
    have hmiss := updateFrom_none hs.holds hs.rounds hcells
    rw [hrows]
    cases hnew : newRow true d with
    | none =>
        have hrun : refreshDisk t d = none := by
          simp only [refreshDisk, hmiss, Option.bind_eq_bind, Option.bind_some, Bool.false_eq_true, if_false, hnew, Option.bind_none]
        rw [hrun]
        exact .none
    | some r =>
        have hs' : Stored { t.1 with diskCount := t.1.diskCount + 1 } cells := ⟨hs.holds, hs.unused, hs.pos⟩
        obtain ⟨t', hrun, ht', -⟩ := appendRow_last (e := t.2) r ⟨cells, hs', rfl, hlast⟩
        have hrun' : refreshDisk t d = some t' := by
          simp only [refreshDisk, hmiss, Option.bind_eq_bind, Option.bind_some, Bool.false_eq_true, if_false, hnew, hrun]
        rw [hrun']
        exact .some ht'

theorem appendRow_count {row : Row} (h : appendRow row e s = some t) :
    t.1.diskCount = s.diskCount ∧ t.1.hmPrevDiskRef = s.hmPrevDiskRef := by
  unfold appendRow at h
  dsimp only at h
  split at h
  · obtain rfl := Option.some.inj h
    exact ⟨rfl, rfl⟩
  · obtain ⟨tail, -, h⟩ := Option.bind_eq_some_iff.mp h
    obtain rfl := Option.some.inj h
    exact ⟨rfl, rfl⟩

theorem refreshDisk_count (h : refreshDisk t d = some t') :
    t'.1.diskCount = t.1.diskCount + 1 ∧ t'.1.hmPrevDiskRef = t.1.hmPrevDiskRef := by
  unfold refreshDisk at h
  obtain ⟨⟨heap, hit⟩, -, h⟩ := Option.bind_eq_some_iff.mp h
  cases hit with
  | true =>
      obtain rfl := Option.some.inj h
      exact ⟨rfl, rfl⟩
  | false =>
      obtain ⟨row, -, h⟩ := Option.bind_eq_some_iff.mp h
      exact appendRow_count h

theorem refreshDisks_tailed (disks : List Disk) (ht : Tailed rows t) :
    Option.Rel Tailed (disks.foldlM (fun rows d => insertOrUpdate d rows) rows) (disks.foldlM refreshDisk t) := by
  induction disks generalizing rows t with
  | nil => exact .some ht
  | cons d disks ih =>
      simp only [List.foldlM_cons, Option.bind_eq_bind]
      have hround := refreshDisk_tailed (d := d) ht
      generalize insertOrUpdate d rows = changed at hround ⊢
      generalize refreshDisk t d = run at hround ⊢
      cases hround with
      | none => exact .none
      | some ht' => exact ih ht'

theorem refreshDisks_count (h : disks.foldlM refreshDisk t = some t') :
    t'.1.diskCount = t.1.diskCount + disks.length ∧ t'.1.hmPrevDiskRef = t.1.hmPrevDiskRef := by
  induction disks generalizing t with
  | nil =>
      obtain rfl := Option.some.inj h
      exact ⟨rfl, rfl⟩
  | cons d disks ih =>
      simp only [List.foldlM_cons, Option.bind_eq_bind, Option.bind_eq_some_iff] at h
      obtain ⟨t₁, ht₁, h⟩ := h
      obtain ⟨hcount, href⟩ := ih h
      obtain ⟨hcount₁, href₁⟩ := refreshDisk_count ht₁
      refine ⟨?_, href.trans href₁⟩
      rw [hcount, hcount₁, List.length_cons]
      omega

def Inv (s : HmState) : Prop := ∃ cells, Stored s cells ∧ ((cells.map Prod.snd).map Row.hmDiskName).Nodup

theorem Stored.split_last (h : Stored s cells) (hne : cells ≠ []) :
    ∃ xs e r, cells = xs ++ [(e, r)] := by
  obtain ⟨⟨e, r⟩, hlast⟩ := Option.ne_none_iff_exists'.mp (mt List.getLast?_eq_none_iff.mp hne)
  obtain ⟨xs, rfl⟩ := List.getLast?_eq_some_iff.mp hlast
  exact ⟨xs, e, r, rfl⟩

theorem resetFrom_tailed (h : Stored s cells) (hne : cells ≠ []) :
    ∃ heap e, resetFrom (s.heap.keys.length + 1) s.head s.heap = some (heap, e) ∧
      Tailed ((cells.map Prod.snd).map reset) ({ s with heap := heap, hmPrevDiskRef := 0, diskCount := 0 }, e) := by
  obtain ⟨xs, e, r, rfl⟩ := h.split_last hne
  have hn : xs.length < s.heap.keys.length + 1 := by
    refine Nat.lt_of_le_of_lt ?_ h.rounds
    rw [List.length_append]
    exact Nat.le_add_right _ _
  obtain ⟨heap, hrun, hl, hframe⟩ := resetFrom_rows h.holds hn
  have hs := h.change hl hframe
  refine ⟨heap, e, hrun, _, ⟨hs.holds, hs.unused, hs.pos⟩, ?_, ?_⟩
  · simp
  · simp

theorem resetFrom_nil (h : Stored s []) : resetFrom (s.heap.keys.length + 1) s.head s.heap = none := by
  have hhead : s.head = 0 := by
    have hl := h.holds
    generalize s.head = a at hl
    cases hl
    rfl
  simp only [resetFrom, h.unused s.head (.inl hhead), Option.bind_eq_bind, Option.bind_none]

def sweepAndCheck (conf : Config) (s : HmState) : Option HmState :=
  (sweepFrom (s.heap.keys.length + 1) s.head s.head s.heap).bind fun heap => checkStateDISK conf { s with heap := heap }

theorem sweep_kept (ht : Tailed mid t) (hfirst : ∀ m, mid.head? = some m → m.hmTraversed = true) :
    ∃ heap cells, sweepFrom (t.1.heap.keys.length + 1) t.1.head t.1.head t.1.heap = some heap ∧
      Stored { t.1 with heap := heap } cells ∧ cells.map Prod.snd = mid.filter Row.hmTraversed := by
  obtain ⟨cells, hs, rfl, hlast⟩ := ht
  cases cells with
  | nil => cases hlast
  | cons cell cells =>
      obtain ⟨c, r⟩ := cell
      have hr : r.hmTraversed = true := hfirst r rfl
      obtain ⟨heap, hrun, hl, hframe⟩ := sweepFrom_kept hs.holds hr hs.rounds
      refine ⟨heap, _, hrun, hs.change hl hframe, ?_⟩
      rw [List.filter_map]
      rfl

theorem sweep_tailed (conf : Config) (ht : Tailed mid t) (hfirst : ∀ m, mid.head? = some m → m.hmTraversed = true) :
    ∃ s', sweepAndCheck conf t.1 = some s' ∧
        (∃ cells, Stored s' cells ∧ cells.map Prod.snd = swept conf mid) ∧ s'.diskCount = t.1.diskCount := by
  obtain ⟨heap, cells, hrun, hs, hrows⟩ := sweep_kept ht hfirst
  obtain ⟨heap', hrun', hs'⟩ := checkStateDISK_stored conf hs
  refine ⟨_, ?_, ⟨_, hs', ?_⟩, rfl⟩
  · rw [sweepAndCheck, hrun, Option.bind_some, hrun']
  · rw [swept, ← hrows, List.map_map, List.map_map]
    rfl

theorem sweep_gone (conf : Config) (ht : Tailed mid t) {m : Row} (hm : mid.head? = some m) (hgone : m.hmTraversed = false) :
    sweepAndCheck conf t.1 = none := by
  obtain ⟨cells, hs, rfl, hlast⟩ := ht
  cases cells with
  | nil => cases hlast
  | cons cell cells =>
      obtain ⟨c, r⟩ := cell
      obtain rfl := Option.some.inj hm
      unfold sweepAndCheck
      cases hsweep : sweepFrom (t.1.heap.keys.length + 1) t.1.head t.1.head t.1.heap with
      | none => rfl
      | some heap =>
          have hcheck := sweepFrom_gone conf hs.holds hgone (t.1.heap.keys.length + 1) (heap.keys.length + 1)
          rw [hsweep, Option.bind_some] at hcheck
          simp only [Option.bind_eq_bind, Option.bind_some, checkStateDISK, hcheck, Option.bind_none]

theorem refresh_run (finished : Int) {e : Enumeration} (hs : Stored s cells) (hne : cells ≠ []) (hdue : Due conf now s)
    (he : ¬ (e.disks = [] ∧ e.failed = false)) :
    ∃ t, Tailed ((cells.map Prod.snd).map reset) t ∧ t.1.diskCount = 0 ∧
      refreshDISKTable conf now finished e s = (e.disks.foldlM refreshDisk t).bind fun t =>
        if e.failed then some t.1 else (sweepAndCheck conf t.1).map fun s => { s with hmPrevDiskRef := finished } := by
  obtain ⟨heap, last, hreset, ht⟩ := resetFrom_tailed hs hne
  refine ⟨_, ht, rfl, ?_⟩
  simp only [refreshDISKTable, if_pos hdue, hreset, Option.bind_eq_bind, Option.bind_some, if_neg he]
  congr 1
  funext t
  by_cases hfailed : e.failed = true
  · rw [if_pos hfailed, if_pos hfailed]
  · rw [if_neg hfailed, if_neg hfailed, sweepAndCheck]
    cases sweepFrom (t.1.heap.keys.length + 1) t.1.head t.1.head t.1.heap with
    | none => rfl
    | some heap =>
        rw [Option.bind_some, Option.bind_some]
        cases checkStateDISK conf { t.1 with heap := heap } <;> rfl

theorem refresh_nil {e : Enumeration} (hs : Stored s []) (hdue : Due conf now s) : refreshDISKTable conf now finished e s = none := by
  simp only [refreshDISKTable, if_pos hdue, resetFrom_nil hs, Option.bind_eq_bind, Option.bind_none]

end OiUserland.HealthMonitor.DiskRefresh

namespace OiUserland.HealthMonitor.DiskRuns

open Lib.Runs DiskTable DiskRows DiskLoops DiskRefresh

variable {d : Disk} {disks : List Disk} {e : Enumeration} {rows : List Row} {conf : Config} {now finished : Int}
  {s s' : HmState} {t t' : HmState × Addr}

theorem newRow_name {traversed : Bool} {row : Row} (h : newRow traversed d = some row) : row.hmDiskName = d.name := by
  rw [(newRow_eq_some.mp h).2]
  rfl

theorem newRow_state {traversed : Bool} {row : Row} (h : newRow traversed d = some row) : row.hmDiskState = .ok := by
  rw [(newRow_eq_some.mp h).2]
  rfl

theorem constructDisks_tailed (ht : Tailed rows t) (h : disks.foldlM constructDisk t = some t') :
    ∃ rows', Tailed rows' t' ∧ rows'.map Row.hmDiskName = rows.map Row.hmDiskName ++ disks.map Disk.name ∧
      ∀ r ∈ rows', r ∈ rows ∨ r.hmDiskState = .ok := by
  induction disks generalizing rows t with
  | nil =>
      obtain rfl := Option.some.inj h
      exact ⟨rows, ht, (List.append_nil _).symm, fun r hr => .inl hr⟩
  | cons d disks ih =>
      simp only [List.foldlM_cons, Option.bind_eq_bind, Option.bind_eq_some_iff] at h
      obtain ⟨t₁, ht₁, h⟩ := h
      obtain ⟨row, hrow, hadd⟩ := Option.bind_eq_some_iff.mp ht₁
      obtain ⟨cells, hs, hrows, hlast⟩ := ht
      have hs' : Stored { t.1 with diskCount := t.1.diskCount + 1 } cells := ⟨hs.holds, hs.unused, hs.pos⟩
      obtain ⟨t₂, hrun, ht₂, -⟩ := appendRow_last (e := t.2) row ⟨cells, hs', hrows, hlast⟩
      obtain rfl := Option.some.inj (hrun.symm.trans hadd)
      obtain ⟨rows', ht', hnames, hstates⟩ := ih ht₂ h
      refine ⟨rows', ht', ?_, fun r hr => ?_⟩
      · rw [hnames, List.map_append, List.append_assoc, List.map_cons, newRow_name hrow]
        rfl
      · rcases hstates r hr with hin | hok
        · rcases List.mem_append.mp hin with hin | hin
          · exact .inl hin
          · exact .inr (List.mem_singleton.mp hin ▸ newRow_state hrow)
        · exact .inr hok

theorem construct_rows {cells : List (Addr × Row)} (hs : Stored s cells)
    (ht : disks.foldlM constructDisk ({ s with hmPrevDiskRef := 0, diskCount := 0 }, 0) = some t) :
    ∃ cells', Stored t.1 cells' ∧
      (disks = [] ∧ cells' = cells ∨ disks ≠ [] ∧ (cells'.map Prod.snd).map Row.hmDiskName = disks.map Disk.name ∧
        ∀ r ∈ cells'.map Prod.snd, r.hmDiskState = .ok) := by
  cases disks with
  | nil =>
      obtain rfl := Option.some.inj ht
      exact ⟨cells, ⟨hs.holds, hs.unused, hs.pos⟩, .inl ⟨rfl, rfl⟩⟩
  | cons d disks =>
      simp only [List.foldlM_cons, Option.bind_eq_bind, Option.bind_eq_some_iff] at ht
      obtain ⟨t₁, ht₁, ht⟩ := ht
      obtain ⟨row, hrow, hadd⟩ := Option.bind_eq_some_iff.mp ht₁
      obtain ⟨t₂, hrun₂, ht₂, -⟩ := appendRow_first (s := { s with hmPrevDiskRef := 0, diskCount := 1 }) row hs.unused hs.pos
      obtain rfl := Option.some.inj (hrun₂.symm.trans hadd)
      obtain ⟨rows', ⟨cells', hs', hrows, -⟩, hnames, hstates⟩ := constructDisks_tailed ht₂ ht
      refine ⟨cells', hs', .inr ⟨List.cons_ne_nil _ _, ?_, fun r hr => ?_⟩⟩
      · rw [hrows, hnames, List.map_singleton, newRow_name hrow]
        rfl
      · rcases hstates r (hrows ▸ hr) with hin | hok
        · exact List.mem_singleton.mp hin ▸ newRow_state hrow
        · exact hok

theorem check_stored {cells : List (Addr × Row)} (hs : Stored s cells) (hrun : checkStateDISK conf s = some s') (finished : Int) :
    ∃ cells', Stored { s' with hmPrevDiskRef := finished } cells' ∧
      (cells'.map Prod.snd).map Row.hmDiskName = (cells.map Prod.snd).map Row.hmDiskName := by
  obtain ⟨heap, hrun', hs'⟩ := checkStateDISK_stored conf hs
  obtain rfl := Option.some.inj (hrun'.symm.trans hrun)
  refine ⟨_, ⟨hs'.holds, hs'.unused, hs'.pos⟩, ?_⟩
  rw [List.map_map, List.map_map, List.map_map]
  rfl

theorem construct_stored {cells : List (Addr × Row)} (hs : Stored s cells)
    (hrun : constructDISKTable conf finished e s = some s') : ∃ cells', Stored s' cells' ∧
      (cells'.map Prod.snd).map Row.hmDiskName = if e.disks = [] then (cells.map Prod.snd).map Row.hmDiskName
        else e.disks.map Disk.name := by
  unfold constructDISKTable at hrun
  dsimp only at hrun
  split at hrun
  · cases hrun
  · obtain ⟨t, ht, hrun⟩ := Option.bind_eq_some_iff.mp hrun
    obtain ⟨cells', hs', hrows⟩ := construct_rows hs ht
    have hnames : (cells'.map Prod.snd).map Row.hmDiskName =
        if e.disks = [] then (cells.map Prod.snd).map Row.hmDiskName else e.disks.map Disk.name := by
      rcases hrows with ⟨hnil, rfl⟩ | ⟨hne, hnames, -⟩
      · rw [if_pos hnil]
      · rw [if_neg hne, hnames]
    split at hrun
    · obtain rfl := Option.some.inj hrun
      exact ⟨cells', hs', hnames⟩
    · obtain ⟨s₁, hcheck, hrun⟩ := Option.bind_eq_some_iff.mp hrun
      obtain rfl := Option.some.inj hrun
      obtain ⟨cells₁, hs₁, hsame⟩ := check_stored hs' hcheck finished
      exact ⟨cells₁, hs₁, hsame.trans hnames⟩

theorem construct_inv (h : Inv s) (hdisks : (e.disks.map Disk.name).Nodup)
    (hrun : constructDISKTable conf finished e s = some s') : Inv s' := by
  obtain ⟨cells, hs, hnodup⟩ := h
  obtain ⟨cells', hs', hnames⟩ := construct_stored hs hrun
  refine ⟨cells', hs', ?_⟩
  rw [hnames]
  split
  · exact hnodup
  · exact hdisks

theorem some_of_rel {α β : Type} {R : α → β → Prop} {o : Option α} {b : β} (h : Option.Rel R o (some b)) : ∃ a, o = some a ∧ R a b := by
  cases h with
  | some h => exact ⟨_, rfl, h⟩

theorem some_of_rel' {α β : Type} {R : α → β → Prop} {a : α} {o : Option β} (h : Option.Rel R (some a) o) : ∃ b, o = some b ∧ R a b := by
  cases h with
  | some h => exact ⟨_, rfl, h⟩

theorem refresh_defined {cells : List (Addr × Row)} (hs : Stored s cells) (hdue : Due conf now s)
    (hrun : refreshDISKTable conf now finished e s = some s') :
    cells ≠ [] ∧ ∃ mid t, refreshRows e.disks (cells.map Prod.snd) = some mid ∧ Tailed mid t ∧
      (e.failed = true ∧ s' = t.1 ∨ e.failed = false ∧ (∀ m, mid.head? = some m → m.hmTraversed = true) ∧
        ∃ s₁, sweepAndCheck conf t.1 = some s₁ ∧ s' = { s₁ with hmPrevDiskRef := finished }) := by
  have hne : cells ≠ [] := by
    rintro rfl
    rw [refresh_nil hs hdue] at hrun
    cases hrun
  have he : ¬ (e.disks = [] ∧ e.failed = false) := by
    intro he
    obtain ⟨heap, last, hreset, -⟩ := resetFrom_tailed hs hne
    simp only [refreshDISKTable, if_pos hdue, hreset, Option.bind_eq_bind, Option.bind_some, if_pos he] at hrun
    cases hrun
  obtain ⟨t₀, ht₀, -, hrefresh⟩ := refresh_run finished hs hne hdue he
  rw [hrefresh] at hrun
  obtain ⟨t, hfold, hrun⟩ := Option.bind_eq_some_iff.mp hrun
  have hrel := refreshDisks_tailed e.disks ht₀
  rw [hfold] at hrel
  obtain ⟨mid, hmid, ht⟩ := some_of_rel hrel
  refine ⟨hne, mid, t, hmid, ht, ?_⟩
  by_cases hfailed : e.failed = true
  · rw [if_pos hfailed] at hrun
    exact .inl ⟨hfailed, (Option.some.inj hrun).symm⟩
  · rw [if_neg hfailed] at hrun
    obtain ⟨s₁, hsweep, rfl⟩ := Option.map_eq_some_iff.mp hrun
    refine .inr ⟨Bool.eq_false_iff.mpr hfailed, fun m hm => ?_, s₁, hsweep, rfl⟩
    by_contra hgone
    rw [sweep_gone _ ht hm (Bool.eq_false_iff.mpr hgone)] at hsweep
    cases hsweep

theorem reset_names (rows : List Row) : (rows.map reset).map Row.hmDiskName = rows.map Row.hmDiskName := by
  rw [List.map_map]
  rfl

theorem refresh_stored {cells : List (Addr × Row)} (hs : Stored s cells)
    (hrun : refreshDISKTable conf now finished e s = some s') : ∃ cells', Stored s' cells' ∧
      (((cells.map Prod.snd).map Row.hmDiskName).Nodup → ((cells'.map Prod.snd).map Row.hmDiskName).Nodup) := by
  by_cases hdue : Due conf now s
  · obtain ⟨-, mid, t, hmid, ht, hend⟩ := refresh_defined hs hdue hrun
    have hnames (hnodup : ((cells.map Prod.snd).map Row.hmDiskName).Nodup) : (mid.map Row.hmDiskName).Nodup :=
      run_nodup (by rwa [reset_names]) hmid
    rcases hend with ⟨-, rfl⟩ | ⟨-, hfirst, s₁, hsweep, rfl⟩
    · obtain ⟨cells', hs', rfl, -⟩ := ht
      exact ⟨cells', hs', hnames⟩
    · obtain ⟨s₂, hsweep', ⟨cells', hs', hrows'⟩, -⟩ := sweep_tailed conf ht hfirst
      obtain rfl := Option.some.inj (hsweep'.symm.trans hsweep)
      refine ⟨cells', ⟨hs'.holds, hs'.unused, hs'.pos⟩, fun hnodup => ?_⟩
      rw [hrows', swept_names]
      exact (hnames hnodup).sublist (List.filter_sublist.map _)
  · rw [refreshDISKTable, if_neg hdue] at hrun
    obtain rfl := Option.some.inj hrun
    exact ⟨cells, hs, id⟩

theorem refresh_inv (h : Inv s) (hrun : refreshDISKTable conf now finished e s = some s') : Inv s' := by
  obtain ⟨cells, hs, hnodup⟩ := h
  obtain ⟨cells', hs', hnames⟩ := refresh_stored hs hrun
  exact ⟨cells', hs', hnames hnodup⟩

def Refreshed (conf : Config) (now finished : Int) (disks : List Disk) (rows : List Row) (s : HmState) : Prop :=
  ∃ s' rows', refreshDISKTable conf now finished ⟨disks, false⟩ s = some s' ∧ Listed s' rows' ∧ Current conf disks rows rows' ∧
    s'.diskCount = rows'.length

theorem refreshed_of_distinguished {cells : List (Addr × Row)} (hs : Stored s cells)
    (hnodup : ((cells.map Prod.snd).map Row.hmDiskName).Nodup) (hdue : Due conf now s) (hdisks : (disks.map Disk.name).Nodup)
    (h : Distinguished disks (cells.map Prod.snd)) : Refreshed conf now finished disks (cells.map Prod.snd) s := by
  obtain ⟨mid, hmid, hfirst, hcurrent⟩ := current_of_distinguished conf hnodup hdisks h
  obtain ⟨r, hr, hin⟩ := h.first
  have hne : cells ≠ [] := by
    rintro rfl
    cases hr
  have he : ¬ (disks = [] ∧ false = false) := by
    rintro ⟨rfl, -⟩
    cases hin
  obtain ⟨t₀, ht₀, hcount₀, hrefresh⟩ := refresh_run (e := ⟨disks, false⟩) finished hs hne hdue he
  have hrel := refreshDisks_tailed disks ht₀
  rw [show disks.foldlM (fun rows d => insertOrUpdate d rows) ((cells.map Prod.snd).map reset) = some mid from hmid] at hrel
  obtain ⟨t, hfold, ht⟩ := some_of_rel' hrel
  obtain ⟨s₁, hsweep, ⟨cells', hs', hrows'⟩, hcount⟩ := sweep_tailed conf ht hfirst
  refine ⟨{ s₁ with hmPrevDiskRef := finished }, swept conf mid, ?_, ⟨cells', hs'.holds, hrows'⟩, hcurrent, ?_⟩
  · rw [hrefresh, hfold, Option.bind_some, if_neg Bool.false_ne_true, hsweep]
    rfl
  · have hlength := hcurrent.once.length_eq
    rw [List.length_map, List.length_map] at hlength
    change s₁.diskCount = _
    rw [hcount, (refreshDisks_count hfold).1, hcount₀, hlength, Nat.zero_add]

theorem distinguished_of_refreshed {cells : List (Addr × Row)} (hs : Stored s cells)
    (hnodup : ((cells.map Prod.snd).map Row.hmDiskName).Nodup) (hdue : Due conf now s) (hdisks : (disks.map Disk.name).Nodup)
    (h : Refreshed conf now finished disks (cells.map Prod.snd) s) : Distinguished disks (cells.map Prod.snd) := by
  obtain ⟨s', rows', hrun, hlisted, hcurrent, -⟩ := h
  obtain ⟨hne, mid, t, hmid, ht, hend⟩ := refresh_defined hs hdue hrun
  rcases hend with ⟨hfailed, -⟩ | ⟨-, hfirst, s₁, hsweep, rfl⟩
  · cases hfailed
  · obtain ⟨s₂, hsweep', ⟨cells', hs', hrows'⟩, -⟩ := sweep_tailed conf ht hfirst
    obtain rfl := Option.some.inj (hsweep'.symm.trans hsweep)
    have hswept : Listed { s₂ with hmPrevDiskRef := finished } (swept conf mid) := ⟨cells', hs'.holds, hrows'⟩
    obtain rfl := hlisted.unique hswept
    exact distinguished_of_current hnodup hdisks (mt List.map_eq_nil_iff.mp hne) hmid hfirst hcurrent

theorem reached_inv (h : Reachable step Legal Init s) : Inv s := by
  refine h.invariant Inv ?_ ?_
  · rintro s rfl
    exact ⟨[], ⟨.nil, fun _ _ => rfl, Nat.one_pos⟩, List.nodup_nil⟩
  · intro op s s' hinv hlegal hrun
    cases op with
    | construct conf finished e => exact construct_inv hinv hlegal hrun
    | refresh conf now finished e => exact refresh_inv hinv hrun

/-- Every table that is reached is a list of rows, and a refresh that takes place brings it up to date
if and only if the names can be told apart, the first row stays and what is stored has room. -/
theorem refresh_current_iff (h : Reachable step Legal Init s) (hdue : Due conf now s) (hdisks : (disks.map Disk.name).Nodup) :
    ∃ rows, Listed s rows ∧ (Refreshed conf now finished disks rows s ↔ Distinguished disks rows) := by
  obtain ⟨cells, hs, hnodup⟩ := reached_inv h
  exact ⟨_, hs.listed, distinguished_of_refreshed hs hnodup hdue hdisks, refreshed_of_distinguished hs hnodup hdue hdisks⟩

def idle (name : List Char) : Disk := ⟨name, name, ['0', '.', '0'], ['0', '.', '0'], ['0', '.', '0']⟩

def defaults : Config := ⟨60, 10, 30, 20, 30⟩

/-- A table of one disk, and an enumeration that reports another one behind it. -/
theorem refresh_current_added :
    ∃ s, (step (.construct defaults 100 ⟨[idle ['s', 'd', '0']], false⟩) ⟨∅, 1, 0, 0, 1⟩) = some s ∧
      ∃ rows, Listed s rows ∧ (Refreshed defaults 200 200 [idle ['s', 'd', '0'], idle ['s', 'd', '1']] rows s ↔
        Distinguished [idle ['s', 'd', '0'], idle ['s', 'd', '1']] rows) := by
  refine ⟨_, rfl, refresh_current_iff (.next (.construct defaults 100 ⟨[idle ['s', 'd', '0']], false⟩) (.start rfl) ?_ rfl) ?_ ?_⟩
  · exact List.nodup_singleton _
  · exact ⟨by decide, by decide⟩
  · decide

/-- The first disk of the table is not reported any more: its node is read after it has been freed. -/
theorem first_disk_removed :
    ¬ ∀ conf now finished disks s, Reachable step Legal Init s → Due conf now s → (disks.map Disk.name).Nodup →
      ∃ rows, Listed s rows ∧ Refreshed conf now finished disks rows s := by
  intro h
  obtain ⟨s, hreach, hdue, hrun⟩ : ∃ s, Reachable step Legal Init s ∧ Due defaults 200 s ∧
      refreshDISKTable defaults 200 200 ⟨[idle ['s', 'd', '1']], false⟩ s = none := by
    refine ⟨_, .next (.construct defaults 100 ⟨[idle ['s', 'd', '0'], idle ['s', 'd', '1']], false⟩) (.start rfl) ?_ rfl, ?_, rfl⟩
    · change List.Nodup _
      decide
    · exact ⟨by decide, by decide⟩
  obtain ⟨rows, -, s', rows', hrefresh, -⟩ := h defaults 200 200 [idle ['s', 'd', '1']] s hreach hdue (List.nodup_singleton _)
  rw [hrun] at hrefresh
  cases hrefresh

end OiUserland.HealthMonitor.DiskRuns
