import OiUserland.EntityMib.ContainedIn

namespace OiUserland.EntityMib.Placement

open EntityTable Entities MibState PhysicalContainsTable ListInvariant Frames Purge
open MappingSets ContainedIn

variable {s t : State} {n : Node PhysicalEntry} {l : List (Node PhysicalEntry)} {f : PhysicalEntry → PhysicalEntry}
  {p c x v w : Int}

def Placed (e : PhysicalEntry) : Prop := e.entPhysicalContainedIn = 0 ↔ e.entPhysicalParentRelPos = -1

/-- The live entries keep the rule. -/
def AllPlaced (s : State) : Prop := ∀ n ∈ s.physical.head, 0 < n.index → Placed n.entry

/-- The live entries keep the rule but perhaps for `x`, where that is an index. -/
def PlacedBut (x : Int) (s : State) : Prop := ∀ n ∈ unlink x s.physical.head, 0 < n.index → Placed n.entry

/-- entPhysicalContainedIn of a live entry. -/
def recorded (s : State) (c : Int) : Option Int :=
  (getPhysicalTableEntry c s).map fun n => n.entry.entPhysicalContainedIn

theorem get_iff : getPhysicalTableEntry c s = some n ↔ inRange c ∧ find c s.physical.head = .live n := by
  unfold getPhysicalTableEntry getTableEntry
  by_cases hc : inRange c
  · rw [if_pos hc]
    cases hf : find c s.physical.head <;> simp [hc]
  · simp [hc]

theorem placed_assign (h : ∀ m ∈ l, 0 < m.index → Placed m.entry) (hf : find c l = .live n)
    (hn : Placed (f n.entry)) : ∀ m ∈ assign c f l, 0 < m.index → Placed m.entry := by
  induction l with
  | nil => cases hf
  | cons z zs ih =>
      obtain ⟨hz, hzs⟩ := List.forall_mem_cons.mp h
      unfold find at hf
      unfold assign
      split at hf
      · rename_i hzc
        cases hf
        rw [if_pos hzc]
        exact List.forall_mem_cons.mpr ⟨fun _ => hn, hzs⟩
      · rename_i hzc
        split at hf
        · cases hf
        · rw [if_neg hzc]
          exact List.forall_mem_cons.mpr ⟨hz, ih hzs hf⟩

theorem unlink_assign (x c : Int) (f : PhysicalEntry → PhysicalEntry) (l : List (Node PhysicalEntry)) :
    unlink x (assign c f l) = if c = x then unlink x l else assign c f (unlink x l) := by
  induction l with
  | nil => simp [unlink, assign]
  | cons z zs ih =>
      by_cases hzc : z.index = c
      · by_cases hcx : c = x
        · simp [assign, unlink, hzc, hcx]
        · simp [assign, unlink, hzc, hcx]
      · by_cases hzx : z.index = x
        · have hcx : c ≠ x := fun he => hzc (hzx.trans he.symm)
          have hxc : x ≠ c := Ne.symm hcx
          simp [assign, unlink, hzx, hcx, hxc]
        · by_cases hcx : c = x <;> simp_all [assign, unlink]

theorem find_unlink (hx : x ≠ c) (hneg : x ≠ -c) (l : List (Node PhysicalEntry)) :
    find c (unlink x l) = find c l := by
  induction l with
  | nil => rfl
  | cons z zs ih =>
      by_cases hzx : z.index = x
      · simp [unlink, find, hzx, hx, hneg]
      · rw [unlink, if_neg hzx, find, find, ih]

theorem find_assign (c : Int) (f : PhysicalEntry → PhysicalEntry) (l : List (Node PhysicalEntry)) :
    find c (assign c f l) = match find c l with
      | .live n => .live { n with entry := f n.entry }
      | r => r := by
  induction l with
  | nil => rfl
  | cons z zs ih =>
      by_cases hzc : z.index = c
      · simp [assign, find, hzc]
      · rw [assign, if_neg hzc, find, find, if_neg hzc, if_neg hzc]
        by_cases hneg : z.index = -c
        · rw [if_pos hneg, if_pos hneg]
        · rw [if_neg hneg, if_neg hneg, ih]

theorem live_assign (hx : x ≠ c) (f : PhysicalEntry → PhysicalEntry) (l : List (Node PhysicalEntry)) :
    find x (assign c f l) = .live n ↔ find x l = .live n := by
  induction l with
  | nil => exact Iff.rfl
  | cons z zs ih =>
      by_cases hzc : z.index = c
      · have hzx : z.index ≠ x := fun he => hx (he.symm.trans hzc)
        rw [assign, if_pos hzc, find, find, if_neg hzx, if_neg hzx]
        by_cases hneg : z.index = -x
        · simp [hneg]
        · simp [hneg]
      · rw [assign, if_neg hzc, find, find]
        by_cases hzx : z.index = x
        · rw [if_pos hzx, if_pos hzx]
        · rw [if_neg hzx, if_neg hzx]
          by_cases hneg : z.index = -x
          · rw [if_pos hneg, if_pos hneg]
          · rw [if_neg hneg, if_neg hneg]
            exact ih

theorem get_setContainedIn (c v : Int) (s : State) :
    getPhysicalTableEntry c (setContainedIn c v s) =
      (getPhysicalTableEntry c s).map fun n => { n with entry := { n.entry with entPhysicalContainedIn := v } } := by
  unfold getPhysicalTableEntry getTableEntry setContainedIn modifyPhysical
  by_cases hc : inRange c
  · rw [if_pos hc, if_pos hc, find_assign]
    cases find c s.physical.head <;> rfl
  · rw [if_neg hc, if_neg hc]
    rfl

theorem get_setContainedIn_ne (hx : x ≠ c) (v : Int) (s : State) :
    getPhysicalTableEntry x (setContainedIn c v s) = getPhysicalTableEntry x s := by
  ext n
  rw [get_iff, get_iff]
  exact and_congr_right fun _ => live_assign hx _ s.physical.head

theorem recorded_pos (h : recorded s c = some v) : 0 < c := by
  obtain ⟨n, hn, _⟩ := Option.map_eq_some_iff.mp h
  exact inRange_pos (get_iff.mp hn).1

theorem recorded_congr (hp : t.physical = s.physical) (c : Int) : recorded t c = recorded s c := by
  unfold recorded getPhysicalTableEntry
  rw [hp]

theorem recorded_set (c v : Int) (s : State) :
    recorded (setContainedIn c v s) c = (recorded s c).map fun _ => v := by
  rw [recorded, recorded, get_setContainedIn, Option.map_map, Option.map_map]
  rfl

theorem recorded_set_ne (hx : x ≠ c) (v : Int) (s : State) : recorded (setContainedIn c v s) x = recorded s x := by
  rw [recorded, recorded, get_setContainedIn_ne hx]

theorem reset_of_ne (h : recorded s c ≠ some p) : resetContainedIn p s c = s := by
  unfold resetContainedIn
  split
  · rename_i n hn
    apply if_neg
    intro hp
    apply h
    rw [recorded, hn, Option.map_some, hp]
  · rfl

theorem reset_of_eq (h : recorded s c = some p) :
    resetContainedIn p s c = setContainedIn c (lowestParent c s.contains) s := by
  obtain ⟨n, hn, hp⟩ := Option.map_eq_some_iff.mp h
  unfold resetContainedIn
  rw [hn]
  exact if_pos hp

theorem recorded_reset (h : recorded s c = some p) :
    recorded (resetContainedIn p s c) c = some (lowestParent c s.contains) := by
  rw [reset_of_eq h, recorded_set, h, Option.map_some]

theorem recorded_reset_ne (hx : x ≠ c) (p : Int) (s : State) : recorded (resetContainedIn p s c) x = recorded s x := by
  by_cases h : recorded s c = some p
  · rw [reset_of_eq h, recorded_set_ne hx]
  · rw [reset_of_ne h]

theorem lowestParent_zero (h : SoundContains s.contains) (hc : 0 < c) :
    lowestParent c s.contains = 0 ↔ ∀ q, ¬ ContainsPair s q c := by
  rcases lowestParent_least h hc with ⟨hpair, _⟩ | ⟨hempty, h0⟩
  · constructor
    · intro h0
      have := hpair.1
      omega
    · exact fun hnone => absurd hpair (hnone _)
  · exact ⟨fun _ => Set.eq_empty_iff_forall_notMem.mp hempty, fun _ => h0⟩

theorem placedBut_zero : PlacedBut 0 s ↔ AllPlaced s := by
  have hmem (n : Node PhysicalEntry) (h0 : 0 < n.index) (l : List (Node PhysicalEntry)) :
      n ∈ unlink 0 l ↔ n ∈ l := by
    induction l with
    | nil => rfl
    | cons z zs ih =>
        by_cases hz : z.index = 0
        · have hne : n ≠ z := fun he => by
            rw [he, hz] at h0
            exact lt_irrefl 0 h0
          rw [unlink, if_pos hz, List.mem_cons]
          exact ⟨.inr, fun h => h.resolve_left hne⟩
        · rw [unlink, if_neg hz, List.mem_cons, List.mem_cons, ih]
  constructor
  · exact fun h n hn h0 => h n ((hmem n h0 _).mpr hn) h0
  · exact fun h n hn h0 => h n ((hmem n h0 _).mp hn) h0

theorem AllPlaced.but (h : AllPlaced s) (x : Int) : PlacedBut x s :=
  fun n hn => h n ((unlink_sublist x s.physical.head).subset hn)

theorem PlacedBut.congr (h : PlacedBut x s) (hp : t.physical = s.physical) : PlacedBut x t := by
  intro n hn
  rw [hp] at hn
  exact h n hn

theorem PlacedBut.set (h : PlacedBut x s) (hx : 0 ≤ x) (hr : recorded s c = some w)
    (hv : c = x ∨ (v = 0 ↔ w = 0)) : PlacedBut x (setContainedIn c v s) := by
  unfold PlacedBut setContainedIn modifyPhysical
  dsimp only
  rw [unlink_assign]
  by_cases hcx : c = x
  · rw [if_pos hcx]
    exact h
  · rw [if_neg hcx]
    obtain ⟨n, hn, rfl⟩ := Option.map_eq_some_iff.mp hr
    obtain ⟨hrange, hfind⟩ := get_iff.mp hn
    have hc := inRange_pos hrange
    rw [← find_unlink (Ne.symm hcx) (by omega)] at hfind
    apply placed_assign h hfind
    have hplaced := h n (find_live hfind).1 (by rw [(find_live hfind).2]; exact hc)
    rw [Placed, hv.resolve_left hcx]
    exact hplaced

theorem PlacedBut.sign (h : AllPlaced s) (hsame : SameEntries s t) (ht : PlacedBut x t) (hx : 0 ≤ x) (hcx : c ≠ x)
    (hv : recorded s c = some v) (hw : recorded t c = some w) : v = 0 ↔ w = 0 := by
  obtain ⟨n, hn, rfl⟩ := Option.map_eq_some_iff.mp hv
  obtain ⟨m, hm, rfl⟩ := Option.map_eq_some_iff.mp hw
  obtain ⟨hrange, hfn⟩ := get_iff.mp hn
  obtain ⟨_, hfm⟩ := get_iff.mp hm
  have hc := inRange_pos hrange
  have hrel : m.entry.entPhysicalParentRelPos = n.entry.entPhysicalParentRelPos := by
    have hfind := congrArg (find c) hsame.physical
    rw [find_map outline (fun _ => rfl), find_map outline (fun _ => rfl), hfn, hfm] at hfind
    exact congrArg (fun k => k.entry.entPhysicalParentRelPos) (Found.live.inj hfind)
  have hpn := h n (find_live hfn).1 (by rw [(find_live hfn).2]; exact hc)
  rw [← find_unlink (Ne.symm hcx) (by omega)] at hfm
  have hpm := ht m (find_live hfm).1 (by rw [(find_live hfm).2]; exact hc)
  rw [Placed] at hpn hpm
  rw [hpn, hpm, hrel]

theorem PlacedBut.reset (h : PlacedBut x s) (hx : 0 ≤ x) (hp : p ≠ 0)
    (hc : c = x ∨ ¬ (recorded s c = some p ∧ lowestParent c s.contains = 0)) :
    PlacedBut x (resetContainedIn p s c) := by
  by_cases hr : recorded s c = some p
  · rw [reset_of_eq hr]
    refine h.set hx hr (hc.imp_right fun hlost => ?_)
    exact iff_of_false (fun h0 => hlost ⟨hr, h0⟩) hp
  · rw [reset_of_ne hr]
    exact h

theorem PlacedBut.foldl_reset (cs : List Int) (h : PlacedBut x s) (hx : 0 ≤ x) (hp : p ≠ 0)
    (hcs : ∀ c ∈ cs, c = x ∨ ¬ (recorded s c = some p ∧ lowestParent c s.contains = 0)) :
    PlacedBut x (cs.foldl (resetContainedIn p) s) := by
  induction cs generalizing s with
  | nil => exact h
  | cons c cs ih =>
      obtain ⟨hc, hcs⟩ := List.forall_mem_cons.mp hcs
      refine ih (h.reset hx hp hc) fun z hz => (hcs z hz).imp_right fun hlost => ?_
      rw [(resetContainedIn_tables p s c).1]
      rintro ⟨hr, h0⟩
      by_cases hzc : z = c
      · subst hzc
        by_cases hrz : recorded s z = some p
        · exact hlost ⟨hrz, h0⟩
        · rw [reset_of_ne hrz] at hr
          exact hrz hr
      · rw [recorded_reset_ne hzc] at hr
        exact hlost ⟨hr, h0⟩

theorem recorded_foldl_reset (cs : List Int) (hp : p ≠ 0)
    (hr : (recorded s c = some p ∧ c ∈ cs ∧ lowestParent c s.contains = 0) ∨ recorded s c = some 0) :
    recorded (cs.foldl (resetContainedIn p) s) c = some 0 := by
  induction cs generalizing s with
  | nil =>
      rcases hr with ⟨_, hmem, _⟩ | hr
      · cases hmem
      · exact hr
  | cons z zs ih =>
      apply ih
      rw [(resetContainedIn_tables p s z).1]
      by_cases hcz : c = z
      · subst hcz
        rcases hr with ⟨hr, _, h0⟩ | hr
        · rw [recorded_reset hr, h0]
          exact .inr rfl
        · rw [reset_of_ne (by rw [hr]; exact fun he => hp (Option.some.inj he).symm)]
          exact .inr hr
      · rw [recorded_reset_ne hcz]
        rcases hr with ⟨hr, hmem, h0⟩ | hr
        · exact .inl ⟨hr, (List.mem_cons.mp hmem).resolve_left hcz, h0⟩
        · exact .inr hr

end OiUserland.EntityMib.Placement
