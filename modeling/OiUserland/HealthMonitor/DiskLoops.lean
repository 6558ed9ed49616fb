import OiUserland.HealthMonitor.DiskRows

namespace OiUserland.HealthMonitor.DiskLoops

open Lib.Chains Lib.Contents DiskTable DiskRows

variable {d : Disk} {h h' : Heap HmDiskEntry} {a c e : Addr} {n : Nat} {r r' : Row} {entry : HmDiskEntry}
  {cells xs ys : List (Addr × Row)} {conf : Config}

abbrev Rows (h : Heap HmDiskEntry) (a : Addr) (cells : List (Addr × Row)) : Prop :=
  Holds HmDiskEntry.pNext HmDiskEntry.row h a cells

def Frame (cells : List (Addr × Row)) (h h' : Heap HmDiskEntry) : Prop :=
  ∀ c, c ∉ cells.map Prod.fst → h'.lookup c = h.lookup c

theorem Frame.refl (cells : List (Addr × Row)) (h : Heap HmDiskEntry) : Frame cells h h := fun _ _ => rfl

theorem rows_store (hl : Rows h a ((c, r) :: cells)) (hv : h.lookup c = some entry) (r' : Row) :
    Rows (h.insert c { entry with row := r' }) a ((c, r') :: cells) ∧
      Rows (h.insert c { entry with row := r' }) entry.pNext cells := by
  obtain ⟨rfl, v, hv', -, ht⟩ := hl.head
  obtain rfl := Option.some.inj (hv.symm.trans hv')
  have hrest := ht.insert_not_mem (w := { entry with row := r' }) hl.head_not_mem
  exact ⟨.cons (v := { entry with row := r' }) hl.ne_zero (AList.lookup_insert _) hrest, hrest⟩

theorem rows_rest (hl : Rows h a ((c, r) :: cells)) (hv : h.lookup c = some entry) {cells' : List (Addr × Row)}
    (hrest : Rows h' entry.pNext cells') (hframe : Frame cells h h') : Rows h' a ((c, r) :: cells') := by
  obtain ⟨rfl, v, hv', rfl, -⟩ := hl.head
  obtain rfl := Option.some.inj (hv.symm.trans hv')
  exact .cons hl.ne_zero ((hframe a hl.head_not_mem).trans hv) hrest

theorem frame_cons (hframe : Frame cells (h.insert c entry) h') : Frame ((c, r) :: cells) h h' := by
  intro x hx
  have hxc : x ≠ c := fun hxc => hx (hxc ▸ List.mem_cons_self ..)
  rw [hframe x fun hin => hx (List.mem_cons_of_mem _ hin), AList.lookup_insert_ne hxc]

theorem checkFrom_rows (conf : Config) (hl : Rows h a cells) (hn : cells.length < n) :
    ∃ h', checkFrom conf n a h = some h' ∧ Rows h' a (cells.map fun (c, r) => (c, checkRow conf r)) ∧ Frame cells h h' := by
  induction cells generalizing h a n with
  | nil =>
      obtain ⟨m, rfl⟩ := Nat.exists_eq_succ_of_ne_zero (Nat.ne_of_gt hn)
      cases hl
      exact ⟨h, rfl, .nil, .refl _ _⟩
  | cons cell cells ih =>
      obtain ⟨m, rfl⟩ := Nat.exists_eq_succ_of_ne_zero (Nat.ne_of_gt (Nat.zero_lt_of_lt hn))
      obtain ⟨c, r⟩ := cell
      obtain ⟨rfl, entry, hv, rfl, -⟩ := hl.head
      obtain ⟨hrow, hrest⟩ := rows_store hl hv (checkRow conf entry.row)
      obtain ⟨h', hrun, hl', hframe⟩ := ih hrest (Nat.lt_of_succ_lt_succ hn)
      refine ⟨h', ?_, rows_rest hrow (AList.lookup_insert _) hl' hframe, frame_cons hframe⟩
      simp only [checkFrom, if_neg hl.ne_zero, hv, Option.bind_eq_bind, Option.bind_some, hrun]

theorem resetFrom_rows (hl : Rows h a (cells ++ [(e, r)])) (hn : cells.length < n) :
    ∃ h', resetFrom n a h = some (h', e) ∧ Rows h' a ((cells ++ [(e, r)]).map fun (c, r) => (c, reset r)) ∧
      Frame (cells ++ [(e, r)]) h h' := by
  induction cells generalizing h a n with
  | nil =>
      obtain ⟨m, rfl⟩ := Nat.exists_eq_succ_of_ne_zero (Nat.ne_of_gt hn)
      obtain ⟨rfl, entry, hv, rfl, ht⟩ := hl.head
      obtain ⟨hrow, -⟩ := rows_store hl hv (reset entry.row)
      have hend : entry.pNext = 0 := by
        cases hp : entry.pNext with
        | zero => rfl
        | succ k =>
            rw [hp] at ht
            cases ht
      refine ⟨_, ?_, hrow, frame_cons (.refl _ _)⟩
      simp only [resetFrom, hv, Option.bind_eq_bind, Option.bind_some, if_pos hend]
      rfl
  | cons cell cells ih =>
      obtain ⟨m, rfl⟩ := Nat.exists_eq_succ_of_ne_zero (Nat.ne_of_gt (Nat.zero_lt_of_lt hn))
      obtain ⟨c, r₁⟩ := cell
      obtain ⟨rfl, entry, hv, rfl, ht⟩ := hl.head
      obtain ⟨hrow, hrest⟩ := rows_store hl hv (reset entry.row)
      obtain ⟨h', hrun, hl', hframe⟩ := ih hrest (Nat.lt_of_succ_lt_succ hn)
      have hnext : entry.pNext ≠ 0 := by
        intro hp
        rw [hp] at ht
        exact List.append_ne_nil_of_right_ne_nil _ (List.cons_ne_nil _ _) ht.zero
      refine ⟨h', ?_, rows_rest hrow (AList.lookup_insert _) hl' hframe, frame_cons hframe⟩
      simp only [resetFrom, hv, Option.bind_eq_bind, Option.bind_some, if_neg hnext]
      exact hrun

theorem updateFrom_none (hl : Rows h a cells) (hn : cells.length < n) (hnone : ∀ x ∈ cells, sameName d x.2 = false) :
    updateFrom d n a h = some (h, false) := by
  induction cells generalizing a n with
  | nil =>
      obtain ⟨m, rfl⟩ := Nat.exists_eq_succ_of_ne_zero (Nat.ne_of_gt hn)
      cases hl
      rfl
  | cons cell cells ih =>
      obtain ⟨m, rfl⟩ := Nat.exists_eq_succ_of_ne_zero (Nat.ne_of_gt (Nat.zero_lt_of_lt hn))
      obtain ⟨c, r⟩ := cell
      obtain ⟨rfl, entry, hv, rfl, ht⟩ := hl.head
      have hother : sameName d entry.row = false := hnone _ (List.mem_cons_self ..)
      have hrun := ih ht (Nat.lt_of_succ_lt_succ hn) fun x hx => hnone x (List.mem_cons_of_mem _ hx)
      simp only [updateFrom, if_neg hl.ne_zero, hv, Option.bind_eq_bind, Option.bind_some, hother, Bool.false_eq_true, if_false, hrun]

theorem updateFrom_match (hl : Rows h a (xs ++ (c, r) :: ys)) (hn : xs.length < n) (hxs : ∀ x ∈ xs, sameName d x.2 = false)
    (hr : sameName d r = true) :
    (updateRow d r = none → updateFrom d n a h = none) ∧
      ∀ r', updateRow d r = some r' → ∃ h', updateFrom d n a h = some (h', true) ∧ Rows h' a (xs ++ (c, r') :: ys) ∧
        Frame (xs ++ (c, r) :: ys) h h' := by
  induction xs generalizing h a n with
  | nil =>
      obtain ⟨m, rfl⟩ := Nat.exists_eq_succ_of_ne_zero (Nat.ne_of_gt hn)
      obtain ⟨rfl, entry, hv, rfl, ht⟩ := hl.head
      refine ⟨fun hnone => ?_, fun r' hr' => ?_⟩
      · simp only [updateFrom, if_neg hl.ne_zero, hv, Option.bind_eq_bind, Option.bind_some, hr, if_true, hnone, Option.bind_none]
      · refine ⟨_, ?_, (rows_store hl hv r').1, frame_cons (.refl _ _)⟩
        simp only [updateFrom, if_neg hl.ne_zero, hv, Option.bind_eq_bind, Option.bind_some, hr, if_true, hr']
  | cons cell xs ih =>
      obtain ⟨m, rfl⟩ := Nat.exists_eq_succ_of_ne_zero (Nat.ne_of_gt (Nat.zero_lt_of_lt hn))
      obtain ⟨c₁, r₁⟩ := cell
      obtain ⟨rfl, entry, hv, rfl, ht⟩ := hl.head
      have hother : sameName d entry.row = false := hxs _ (List.mem_cons_self ..)
      have hstep : updateFrom d (m + 1) a h = updateFrom d m entry.pNext h := by
        simp only [updateFrom, if_neg hl.ne_zero, hv, Option.bind_eq_bind, Option.bind_some, hother, Bool.false_eq_true, if_false]
      obtain ⟨hundef, hdef⟩ := ih ht (Nat.lt_of_succ_lt_succ hn) fun x hx => hxs x (List.mem_cons_of_mem _ hx)
      rw [hstep]
      refine ⟨hundef, fun r' hr' => ?_⟩
      obtain ⟨h', hrun, hl', hframe⟩ := hdef r' hr'
      refine ⟨h', hrun, rows_rest hl hv hl' hframe, fun x hx => hframe x fun hin => hx (List.mem_cons_of_mem _ hin)⟩

def kept (cells : List (Addr × Row)) : List (Addr × Row) := cells.filter fun x => x.2.hmTraversed

theorem kept_pos (hr : r.hmTraversed = true) : kept ((c, r) :: cells) = (c, r) :: kept cells :=
  List.filter_cons_of_pos (p := fun x : Addr × Row => x.2.hmTraversed) hr

theorem kept_neg (hr : ¬ r.hmTraversed = true) : kept ((c, r) :: cells) = kept cells :=
  List.filter_cons_of_neg (p := fun x : Addr × Row => x.2.hmTraversed) hr

theorem sweepFrom_rest {p1 : Addr} {e1 : HmDiskEntry} (hp : h.lookup p1 = some e1) (hl : Rows h e1.pNext cells)
    (hout : p1 ∉ cells.map Prod.fst) (hn : cells.length < n) :
    ∃ h' e1', sweepFrom n p1 e1.pNext h = some h' ∧ h'.lookup p1 = some e1' ∧ e1'.row = e1.row ∧
      Rows h' e1'.pNext (kept cells) ∧ Frame ((p1, e1.row) :: cells) h h' := by
  induction cells generalizing h p1 e1 n with
  | nil =>
      obtain ⟨m, rfl⟩ := Nat.exists_eq_succ_of_ne_zero (Nat.ne_of_gt hn)
      have hend : e1.pNext = 0 := by
        generalize e1.pNext = p at hl
        cases hl
        rfl
      refine ⟨h, e1, ?_, hp, rfl, hl, .refl _ _⟩
      rw [sweepFrom, if_pos hend]
  | cons cell cells ih =>
      obtain ⟨m, rfl⟩ := Nat.exists_eq_succ_of_ne_zero (Nat.ne_of_gt (Nat.zero_lt_of_lt hn))
      obtain ⟨c, r⟩ := cell
      have hne := hl.ne_zero
      have hlast := hl.head_not_mem
      obtain ⟨hc, e2, hv, rfl, ht⟩ := hl.head
      have hp1c : p1 ≠ c := fun heq => hout (heq ▸ List.mem_cons_self ..)
      have hp1 : p1 ∉ cells.map Prod.fst := fun hin => hout (List.mem_cons_of_mem _ hin)
      have hframe {e : HmDiskEntry} : Frame ((p1, e1.row) :: (c, e2.row) :: cells) h ((h.insert p1 e).erase c) := by
        intro x hx
        have hxp : x ≠ p1 := fun heq => hx (heq ▸ List.mem_cons_self ..)
        have hxc : x ≠ c := fun heq => hx (heq ▸ List.mem_cons_of_mem _ (List.mem_cons_self ..))
        rw [AList.lookup_erase_ne hxc, AList.lookup_insert_ne hxp]
      have hlookup {e : HmDiskEntry} : ((h.insert p1 e).erase c).lookup p1 = some e := by
        rw [AList.lookup_erase_ne hp1c, AList.lookup_insert]
      rw [sweepFrom, if_neg hne, hc]
      by_cases htraversed : e2.row.hmTraversed = true
      · rw [kept_pos htraversed]
        by_cases hnext : e2.pNext = 0
        · have hnil : cells = [] := (hnext ▸ ht).zero
          subst hnil
          obtain ⟨k, rfl⟩ := Nat.exists_eq_succ_of_ne_zero (Nat.ne_of_gt (Nat.lt_of_succ_lt_succ hn))
          refine ⟨h, e1, ?_, hp, rfl, hl, .refl _ _⟩
          simp only [hv, Option.bind_eq_bind, Option.bind_some, htraversed, Bool.true_eq_false, if_false, hnext, ne_eq,
            not_true_eq_false, sweepFrom, if_true]
        · obtain ⟨h', e2', hrun, hv', hrow, hl', hframe'⟩ := ih hv ht hlast (Nat.lt_of_succ_lt_succ hn)
          refine ⟨h', e1, ?_, (hframe' p1 hout).trans hp, rfl, ?_, fun x hx => hframe' x fun hin => hx (List.mem_cons_of_mem _ hin)⟩
          · simp only [hv, Option.bind_eq_bind, Option.bind_some, htraversed, Bool.true_eq_false, if_false, ne_eq, hnext,
              not_false_eq_true, if_true, hrun]
          · rw [hc, ← hrow]
            exact .cons (hc ▸ hne) hv' hl'
      · have hgone : e2.row.hmTraversed = false := Bool.eq_false_iff.mpr htraversed
        rw [kept_neg htraversed]
        by_cases hnext : e2.pNext = 0
        · have hnil : cells = [] := (hnext ▸ ht).zero
          subst hnil
          refine ⟨_, { e1 with pNext := 0 }, ?_, hlookup, rfl, .nil, hframe⟩
          simp only [hv, Option.bind_eq_bind, Option.bind_some, hgone, if_true, hp, hnext, ne_eq, not_true_eq_false, if_false]
        · have hrest : Rows ((h.insert p1 { e1 with pNext := e2.pNext }).erase c) e2.pNext cells :=
            (ht.insert_not_mem hp1).erase_not_mem hlast
          obtain ⟨h', e1', hrun, hv', hrow, hl', hframe'⟩ := ih hlookup hrest hp1 (Nat.lt_of_succ_lt_succ hn)
          refine ⟨h', e1', ?_, hv', hrow, hl', fun x hx => ?_⟩
          · simp only [hv, Option.bind_eq_bind, Option.bind_some, hgone, if_true, hp, ne_eq, hnext, not_false_eq_true, hlookup, hrun]
          · refine (hframe' x fun hin => hx ?_).trans (hframe x hx)
            rcases List.mem_cons.mp hin with rfl | hin
            · exact List.mem_cons_self ..
            · exact List.mem_cons_of_mem _ (List.mem_cons_of_mem _ hin)

theorem sweepFrom_kept (hl : Rows h a ((c, r) :: cells)) (hr : r.hmTraversed = true) (hn : cells.length + 1 < n) :
    ∃ h', sweepFrom n a a h = some h' ∧ Rows h' a (kept ((c, r) :: cells)) ∧
      Frame ((c, r) :: cells) h h' := by
  obtain ⟨m, rfl⟩ := Nat.exists_eq_succ_of_ne_zero (Nat.ne_of_gt (Nat.zero_lt_of_lt hn))
  have hne := hl.ne_zero
  have hlast := hl.head_not_mem
  obtain ⟨rfl, entry, hv, rfl, ht⟩ := hl.head
  obtain ⟨h', e', hrun, hv', hrow, hl', hframe⟩ := sweepFrom_rest hv ht hlast (Nat.lt_of_succ_lt_succ hn)
  refine ⟨h', ?_, ?_, hframe⟩
  · by_cases hnext : entry.pNext = 0
    · simp only [sweepFrom, if_neg hne, hv, Option.bind_eq_bind, Option.bind_some, hr, Bool.true_eq_false, if_false, ne_eq, hnext,
        not_true_eq_false]
      rwa [hnext] at hrun
    · simp only [sweepFrom, if_neg hne, hv, Option.bind_eq_bind, Option.bind_some, hr, Bool.true_eq_false, if_false, ne_eq, hnext,
        not_false_eq_true, if_true, hrun]
  · rw [kept_pos hr, ← hrow]
    exact .cons hne hv' hl'

theorem sweepFrom_gone (conf : Config) (hl : Rows h a ((c, r) :: cells)) (hr : r.hmTraversed = false) (n m : Nat) :
    ((sweepFrom n a a h).bind fun h' => checkFrom conf m a h') = none := by
  have hne := hl.ne_zero
  obtain ⟨rfl, entry, hv, rfl, ht⟩ := hl.head
  cases n with
  | zero => rfl
  | succ n =>
      by_cases hnext : entry.pNext = 0
      · simp only [sweepFrom, if_neg hne, hv, Option.bind_eq_bind, Option.bind_some, hr, if_true, hnext, ne_eq, not_true_eq_false,
          if_false]
        cases m with
        | zero => rfl
        | succ m => simp only [checkFrom, if_neg hne, AList.lookup_erase, Option.bind_eq_bind, Option.bind_none]
      · simp only [sweepFrom, if_neg hne, hv, Option.bind_eq_bind, Option.bind_some, hr, if_true, hnext, ne_eq, not_false_eq_true,
          AList.lookup_erase, Option.bind_none]

end OiUserland.HealthMonitor.DiskLoops
