import OiUserland.Lib.Cursor
import OiUserland.EntityMib.MappingRuns

namespace OiUserland.EntityMib.TableWalks

open Lib.Cursor MibState
open RowSets MappingSets

variable {α : Type}

/-- What the walks of the three mapping tables differ in: which element ends an array, which
stands for a pair, and the second index of that pair. -/
structure Cells (α : Type) where
  ends : α → Bool
  live : α → Bool
  shown : α → Int

def indexCells : Cells Int := ⟨fun z => decide (z = 0), fun z => decide (0 < z), id⟩

def aliasCells : Cells LogicalAlias :=
  ⟨fun a => decide ((a.entAliasMapIdSize : Int) < 0), fun a => decide (0 ≤ a.entAliasLogicalIndexorZero),
    LogicalAlias.entAliasLogicalIndexorZero⟩

structure Point (α : Type) where
  row : MappingRow α
  after : List (MappingRow α)
  element : α
  behind : List α

/-- What is kept between two calls: the loop context, the data context and the pointer in the
table's own static variable. A pointer is the list of what is found from there on. -/
structure Contexts (α : Type) where
  loop : List (MappingRow α) := []
  data : Option (List α) := none
  tracker : Option (List α) := none

def findLive (c : Cells α) : List α → Option (α × List α)
  | [] => none
  | a :: as => if c.ends a then none else if c.live a then some (a, as) else findLive c as

def liveIn (c : Cells α) (r : MappingRow α) (zRunner : Option (List α)) : Option (α × List α) :=
  if 0 < r.index then zRunner.bind (findLive c) else none

def firstPoint (c : Cells α) : List (MappingRow α) → Option (Point α)
  | [] => none
  | r :: rs =>
      match liveIn c r r.values with
      | some (a, as) => some ⟨r, rs, a, as⟩
      | none => firstPoint c rs

def nextPoint (c : Cells α) : List (MappingRow α) → Option (List α) → Option (Point α)
  | [], _ => none
  | r :: rs, ptr =>
      match liveIn c r ptr with
      | some (a, as) => some ⟨r, rs, a, as⟩
      | none =>
          match rs with
          | [] => none
          | q :: qs => nextPoint c (q :: qs) q.values

def Point.indices (c : Cells α) (p : Point α) : Int × Int := (p.row.index, c.shown p.element)

def Point.contexts (p : Point α) : Contexts α :=
  ⟨p.row :: p.after, some (p.element :: p.behind), some (p.element :: p.behind)⟩

/-- The contexts afterwards and the indices put in `put_index_data`. A null result leaves the contexts alone. -/
def found (c : Cells α) (x : Contexts α) : Option (Point α) → Contexts α × Option (Int × Int)
  | some p => (p.contexts, some (p.indices c))
  | none => (x, none)

def getFirstDataPoint (c : Cells α) (rows : List (MappingRow α)) (x : Contexts α) : Contexts α × Option (Int × Int) :=
  found c x (firstPoint c rows)

def getNextDataPoint (c : Cells α) (x : Contexts α) : Contexts α × Option (Int × Int) :=
  found c x (nextPoint c x.loop (x.tracker.map List.tail))

def entPhysicalContainsTableGetFirstDataPoint (s : State) (x : Contexts Int) : Contexts Int × Option (Int × Int) :=
  getFirstDataPoint indexCells s.contains x

def entPhysicalContainsTableGetNextDataPoint (x : Contexts Int) : Contexts Int × Option (Int × Int) :=
  getNextDataPoint indexCells x

def entLPMappingTableGetFirstDataPoint (s : State) (x : Contexts Int) : Contexts Int × Option (Int × Int) :=
  getFirstDataPoint indexCells s.lpMapping x

def entLPMappingTableGetNextDataPoint (x : Contexts Int) : Contexts Int × Option (Int × Int) :=
  getNextDataPoint indexCells x

def entAliasMappingTableGetFirstDataPoint (s : State) (x : Contexts LogicalAlias) :
    Contexts LogicalAlias × Option (Int × Int) :=
  getFirstDataPoint aliasCells s.aliasMapping { x with tracker := none }

def entAliasMappingTableGetNextDataPoint (x : Contexts LogicalAlias) : Contexts LogicalAlias × Option (Int × Int) :=
  getNextDataPoint aliasCells x

def answer (r : Contexts α × Option (Int × Int)) : Option (Contexts α × (Int × Int)) :=
  r.2.map fun i => (r.1, i)

/-- get_first_data_point followed by calls of get_next_data_point. -/
def walk (first : Contexts α × Option (Int × Int)) (next : Contexts α → Contexts α × Option (Int × Int)) :
    Nat → Option (Contexts α × (Int × Int)) :=
  visit (answer first) fun x => answer (next x.1)

def Matches (c : Cells α) (rows : List (MappingRow α)) (x : Contexts α × (Int × Int)) : Prop :=
  ∃ before r after front a behind, rows = before ++ r :: after ∧ x.1.loop = r :: after ∧
    r.values = some (front ++ a :: behind) ∧ x.1.data = some (a :: behind) ∧ x.2 = (r.index, c.shown a)

section Points

variable {c : Cells α} {rows rs : List (MappingRow α)} {r : MappingRow α} {as : List α} {p : Point α}

def value (c : Cells α) (a : α) : Option Int := if c.live a then some (c.shown a) else none

theorem value_index : value indexCells = liveIndex := by
  funext z
  simp [value, indexCells, liveIndex]

theorem value_alias : value aliasCells = liveAlias := by
  funext a
  simp [value, aliasCells, liveAlias]

def elementPoints (c : Cells α) (r : MappingRow α) (rs : List (MappingRow α)) : List α → List (Point α)
  | [] => []
  | a :: as =>
      if c.ends a then []
      else if c.live a then ⟨r, rs, a, as⟩ :: elementPoints c r rs as
      else elementPoints c r rs as

def points (c : Cells α) : List (MappingRow α) → List (Point α)
  | [] => []
  | r :: rs => (if 0 < r.index then elementPoints c r rs (elements r) else []) ++ points c rs

def after (c : Cells α) (p : Point α) : Option (Point α) := nextPoint c (p.row :: p.after) (some p.behind)

theorem nextPoint_cons (c : Cells α) (r : MappingRow α) (rs : List (MappingRow α)) (ptr : Option (List α)) :
    nextPoint c (r :: rs) ptr = match liveIn c r ptr with
      | some (a, as) => some ⟨r, rs, a, as⟩
      | none => firstPoint c rs := by
  induction rs generalizing r ptr with
  | nil => simp only [nextPoint, firstPoint]
  | cons q qs ih =>
      rw [nextPoint]
      split
      · rfl
      · rw [ih, firstPoint]

theorem nextPoint_values (c : Cells α) (r : MappingRow α) (rs : List (MappingRow α)) :
    nextPoint c (r :: rs) r.values = firstPoint c (r :: rs) := by
  rw [nextPoint_cons, firstPoint]

theorem elements_follow (hr : 0 < r.index) (h : Follows (after c) (firstPoint c rs) (points c rs)) (as : List α) :
    Follows (after c) (nextPoint c (r :: rs) (some as)) (elementPoints c r rs as ++ points c rs) := by
  induction as with
  | nil =>
      rw [nextPoint_cons, liveIn, if_pos hr]
      exact h
  | cons a as ih =>
      rw [nextPoint_cons, liveIn, if_pos hr] at ih ⊢
      by_cases he : c.ends a
      · simpa only [Option.bind_some, findLive, elementPoints, if_pos he, List.nil_append] using h
      · by_cases hl : c.live a
        · simp only [Option.bind_some, findLive, elementPoints, if_neg he, if_pos hl]
          apply Follows.step
          rw [after, nextPoint_cons, liveIn, if_pos hr]
          exact ih
        · simpa only [Option.bind_some, findLive, elementPoints, if_neg he, if_neg hl] using ih

theorem rows_follow (c : Cells α) (rows : List (MappingRow α)) :
    Follows (after c) (firstPoint c rows) (points c rows) := by
  induction rows with
  | nil => exact .done
  | cons r rs ih =>
      by_cases hr : 0 < r.index
      · rw [points, if_pos hr]
        cases hv : r.values with
        | none => simpa [firstPoint, liveIn, hv, elements, elementPoints] using ih
        | some as =>
            rw [← nextPoint_values, hv, elements, hv]
            exact elements_follow hr ih as
      · rw [points, if_neg hr, firstPoint, liveIn, if_neg hr]
        exact ih

theorem elementPoints_split (hp : p ∈ elementPoints c r rs as) :
    p.row = r ∧ p.after = rs ∧ ∃ front, as = front ++ p.element :: p.behind := by
  induction as with
  | nil => cases hp
  | cons a as ih =>
      unfold elementPoints at hp
      split at hp
      · cases hp
      · split at hp
        · rcases List.mem_cons.mp hp with rfl | hp
          · exact ⟨rfl, rfl, [], rfl⟩
          · obtain ⟨hrow, hafter, front, hfront⟩ := ih hp
            exact ⟨hrow, hafter, a :: front, congrArg (List.cons a) hfront⟩
        · obtain ⟨hrow, hafter, front, hfront⟩ := ih hp
          exact ⟨hrow, hafter, a :: front, congrArg (List.cons a) hfront⟩

theorem points_split (hp : p ∈ points c rows) : ∃ before front,
    rows = before ++ p.row :: p.after ∧ p.row.values = some (front ++ p.element :: p.behind) := by
  induction rows with
  | nil => cases hp
  | cons r rs ih =>
      rcases List.mem_append.mp hp with hp | hp
      · split at hp
        · obtain ⟨rfl, rfl, front, hfront⟩ := elementPoints_split hp
          refine ⟨[], front, rfl, ?_⟩
          cases hv : p.row.values with
          | none => simp [elements, hv] at hfront
          | some vs =>
              rw [elements, hv] at hfront
              exact congrArg some hfront
        · cases hp
      · obtain ⟨before, front, hrows, hfront⟩ := ih hp
        exact ⟨r :: before, front, congrArg (List.cons r) hrows, hfront⟩

def Ended (c : Cells α) (rows : List (MappingRow α)) : Prop := ∀ r ∈ rows, ∀ a ∈ elements r, c.ends a = false

theorem elementPoints_indices (he : ∀ a ∈ as, c.ends a = false) :
    (elementPoints c r rs as).map (Point.indices c) = (as.filterMap (value c)).map (Prod.mk r.index) := by
  induction as with
  | nil => rfl
  | cons a as ih =>
      obtain ⟨ha, has⟩ := List.forall_mem_cons.mp he
      by_cases hl : c.live a
      · have hv : value c a = some (c.shown a) := if_pos hl
        rw [elementPoints, ha, if_neg Bool.false_ne_true, if_pos hl, List.filterMap_cons_some hv, List.map_cons,
          List.map_cons, ih has]
        rfl
      · have hv : value c a = none := if_neg hl
        rw [elementPoints, ha, if_neg Bool.false_ne_true, if_neg hl, List.filterMap_cons_none hv, ih has]

theorem points_indices (hpos : ∀ r ∈ rows, 0 < r.index) (he : Ended c rows) :
    (points c rows).map (Point.indices c) =
      rows.flatMap fun r => (liveValues (value c) r).map (Prod.mk r.index) := by
  induction rows with
  | nil => rfl
  | cons r rs ih =>
      obtain ⟨hr, hrs⟩ := List.forall_mem_cons.mp hpos
      obtain ⟨her, hers⟩ := List.forall_mem_cons.mp he
      rw [points, if_pos hr, List.map_append, elementPoints_indices her, ih hrs hers, List.flatMap_cons]
      rfl

theorem points_pairs (h : SoundRows (value c) rows) (he : Ended c rows) :
    ((points c rows).map (Point.indices c)).Nodup ∧
      ∀ q, q ∈ pairs (value c) rows ↔ q ∈ (points c rows).map (Point.indices c) := by
  rw [points_indices h.positive he]
  constructor
  · rw [List.nodup_flatMap]
    constructor
    · intro r hr
      exact (h.nodup r hr).map (Prod.mk_right_injective r.index)
    · refine (List.pairwise_map.mp h.oneRow).imp fun {r q} hne => ?_
      intro x hr hq
      obtain ⟨_, _, rfl⟩ := List.mem_map.mp hr
      obtain ⟨_, _, hx⟩ := List.mem_map.mp hq
      exact hne (congrArg Prod.fst hx).symm
  · intro ⟨x, z⟩
    rw [List.mem_flatMap]
    constructor
    · rintro ⟨r, hr, rfl, hz⟩
      exact ⟨r, hr, List.mem_map_of_mem hz⟩
    · rintro ⟨r, hr, hq⟩
      obtain ⟨z', hz, hq⟩ := List.mem_map.mp hq
      cases hq
      exact ⟨r, hr, rfl, hz⟩

end Points

section Walks

variable {c : Cells α} {rows : List (MappingRow α)}

def Point.position (c : Cells α) (p : Point α) : Contexts α × (Int × Int) := (p.contexts, p.indices c)

theorem answer_found (c : Cells α) (x : Contexts α) (o : Option (Point α)) :
    answer (found c x o) = o.map (Point.position c) := by
  cases o <;> rfl

theorem walk_follows (c : Cells α) (rows : List (MappingRow α)) (x : Contexts α) :
    Follows (fun y => answer (getNextDataPoint c y.1)) (answer (getFirstDataPoint c rows x))
      ((points c rows).map (Point.position c)) := by
  rw [getFirstDataPoint, answer_found]
  exact (rows_follow c rows).map fun p => answer_found c p.contexts (after c p)

theorem walk_enumerates (h : SoundRows (value c) rows) (he : Ended c rows) (x : Contexts α) :
    Enumerates (walk (getFirstDataPoint c rows x) (getNextDataPoint c)) Prod.snd (pairs (value c) rows) ∧
      ∀ k y, walk (getFirstDataPoint c rows x) (getNextDataPoint c) k = some y → Matches c rows y := by
  have hf := walk_follows c rows x
  have hsnd : ((points c rows).map (Point.position c)).map Prod.snd = (points c rows).map (Point.indices c) := by
    rw [List.map_map]
    rfl
  obtain ⟨hnodup, hmem⟩ := points_pairs h he
  constructor
  · apply hf.enumerates
    · rw [hsnd]
      exact hnodup
    · rw [hsnd]
      exact hmem
  · intro k y hy
    rw [walk, hf.visit_eq] at hy
    obtain ⟨p, hp, rfl⟩ := List.mem_map.mp (List.mem_of_getElem? hy)
    obtain ⟨before, front, hrows, hfront⟩ := points_split hp
    exact ⟨before, p.row, p.after, front, p.element, p.behind, hrows, rfl, hfront, rfl, rfl⟩

end Walks

end OiUserland.EntityMib.TableWalks
