import OiUserland.EntityMib.Containment
import OiUserland.EntityMib.Integrity

namespace OiUserland.EntityMib.ChildLists

open Lib.Runs EntityTable Entities MibState PhysicalContainsTable Containment Module

abbrev Cells := List (Option Int)

def malloc (n : Nat) : Cells := List.replicate n none

def realloc (n : Nat) (cells : Cells) : Cells := cells.take n ++ List.replicate (n - cells.length) none

def store (i : Nat) (x : Int) (cells : Cells) : Option Cells :=
  if i < cells.length then some (cells.set i (some x)) else none

def upToZero : Cells → Option (List Int)
  | [] => none
  | none :: _ => none
  | some x :: cells => if x = 0 then some [] else (upToZero cells).map (x :: ·)

/-- The walk along the table, with the array, the index `i` and how many allocations have been asked
for. It yields the array that is returned, or NULL. -/
def walkTable (parentIdx : Int) (mem : Nat → Bool) : List (Node PhysicalEntry) → Option Cells → (i asked : Nat) →
    Option (Option Cells)
  | [], child_list, _, _ => some child_list
  | zRunner :: rest, child_list, i, asked =>
      if zRunner.entry.entPhysicalContainedIn = parentIdx then
        match child_list with
        | none =>
            if mem asked then do
              let child_list ← store 0 zRunner.index (malloc 2)
              let child_list ← store 1 0 child_list
              walkTable parentIdx mem rest (some child_list) (i + 1) (asked + 1)
            else some none
        | some child_list =>
            if mem asked then do
              let child_list ← store i zRunner.index (realloc (i + 2) child_list)
              let child_list ← store (i + 1) 0 child_list
              walkTable parentIdx mem rest (some child_list) i (asked + 1)
            else some none
      else walkTable parentIdx mem rest child_list i asked

def getAllChildrenFromPhysicalContainedIn (parentIdx : Int) (mem : Nat → Bool) (t : Table PhysicalEntry) :
    Option (Option Cells) :=
  if parentIdx ≤ 0 ∨ maxEntityIndex < parentIdx then some none else walkTable parentIdx mem t.head none 0 0

/-- What the cycle check reads. It passes over a list that is NULL. -/
def listed : Option Cells → Option (List Int)
  | none => some []
  | some child_list => upToZero child_list

/-- Nothing is stored behind the array, and the list is that of the entries that name the parent. -/
def ListsChildren (parentIdx : Int) (mem : Nat → Bool) (t : Table PhysicalEntry) : Prop :=
  ∃ child_list, getAllChildrenFromPhysicalContainedIn parentIdx mem t = some child_list ∧
    listed child_list = some (containedIn parentIdx t)

def FewChildren (parentIdx : Int) (mem : Nat → Bool) (t : Table PhysicalEntry) : Prop :=
  containedIn parentIdx t = [] ∨ inRange parentIdx = true ∧ (containedIn parentIdx t).length ≤ 2 ∧
    0 ∉ containedIn parentIdx t ∧ ∀ k < (containedIn parentIdx t).length, mem k = true

variable {parentIdx z y : Int} {mem : Nat → Bool} {t : Table PhysicalEntry} {nodes : List (Node PhysicalEntry)}

def childrenOf (parentIdx : Int) (nodes : List (Node PhysicalEntry)) : List Int :=
  (nodes.filter fun n => decide (n.entry.entPhysicalContainedIn = parentIdx)).map Node.index

theorem childrenOf_cons (parentIdx : Int) (n : Node PhysicalEntry) (nodes : List (Node PhysicalEntry)) :
    childrenOf parentIdx (n :: nodes) =
      if n.entry.entPhysicalContainedIn = parentIdx then n.index :: childrenOf parentIdx nodes
      else childrenOf parentIdx nodes := by
  rw [childrenOf, List.filter_cons]
  by_cases hn : n.entry.entPhysicalContainedIn = parentIdx
  · rw [if_pos (decide_eq_true hn), if_pos hn]
    rfl
  · rw [if_neg (by simpa using hn), if_neg hn]
    rfl

theorem store_further (x : Int) {cells : Cells}
    (hcells : cells = [some z, some 0] ∨ cells = [some z, some y, some 0]) :
    ((store 1 x (realloc 3 cells)).bind fun cells => store 2 0 cells) = some [some z, some x, some 0] := by
  rcases hcells with rfl | rfl <;> rfl

theorem walkTable_further {asked : Nat} {cells : Cells}
    (hcells : cells = [some z, some 0] ∨ ∃ y, cells = [some z, some y, some 0]) :
    walkTable parentIdx mem nodes (some cells) 1 asked = some
      (match (childrenOf parentIdx nodes).getLast? with
      | none => some cells
      | some x => if ∀ k < (childrenOf parentIdx nodes).length, mem (asked + k) = true then
          some [some z, some x, some 0] else none) := by
  induction nodes generalizing cells asked with
  | nil => rfl
  | cons n nodes ih =>
      rw [walkTable, childrenOf_cons]
      by_cases hn : n.entry.entPhysicalContainedIn = parentIdx
      · rw [if_pos hn, if_pos hn]
        have hstore : ((store 1 n.index (realloc 3 cells)).bind fun cells => store 2 0 cells) =
            some [some z, some n.index, some 0] := by
          rcases hcells with hcells | ⟨y, hcells⟩
          · exact store_further (y := 0) n.index (.inl hcells)
          · exact store_further n.index (.inr hcells)
        obtain ⟨cells', hfirst, hsecond⟩ := Option.bind_eq_some_iff.mp hstore
        by_cases hmem : mem asked = true
        · simp only [hmem, if_true, hfirst, hsecond, Option.bind_eq_bind, Option.bind_some]
          rw [ih (.inr ⟨_, rfl⟩)]
          have hall : (∀ k < (childrenOf parentIdx nodes).length + 1, mem (asked + k) = true) ↔
              ∀ k < (childrenOf parentIdx nodes).length, mem (asked + 1 + k) = true := by
            constructor
            · intro h k hk
              have hk' := h (k + 1) (Nat.succ_lt_succ hk)
              rwa [← Nat.add_assoc, Nat.add_right_comm] at hk'
            · intro h k hk
              cases k with
              | zero => exact hmem
              | succ k =>
                  have hk' := h k (Nat.lt_of_succ_lt_succ hk)
                  rwa [Nat.add_right_comm] at hk'
          cases hlast : childrenOf parentIdx nodes with
          | nil => simp [hmem]
          | cons x xs =>
              rw [hlast] at hall
              simp only [List.getLast?_cons, List.length_cons] at hall ⊢
              simp only [hall, Option.getD_some]
        · have hnot : ¬ ∀ k < (childrenOf parentIdx nodes).length + 1, mem (asked + k) = true :=
            fun h => hmem (h 0 (Nat.succ_pos _))
          rw [if_neg hmem, List.getLast?_cons]
          simp only [List.length_cons, hnot, if_false]
      · rw [if_neg hn, if_neg hn]
        exact ih hcells

def reported (mem : Nat → Bool) : List Int → Option Cells
  | [] => none
  | z :: zs =>
      if ∀ k < (z :: zs).length, mem k = true then
        match zs.getLast? with
        | none => some [some z, some 0]
        | some x => some [some z, some x, some 0]
      else none

theorem walkTable_first (nodes : List (Node PhysicalEntry)) :
    walkTable parentIdx mem nodes none 0 0 = some (reported mem (childrenOf parentIdx nodes)) := by
  induction nodes with
  | nil => rfl
  | cons n nodes ih =>
      rw [walkTable, childrenOf_cons]
      by_cases hn : n.entry.entPhysicalContainedIn = parentIdx
      · rw [if_pos hn, if_pos hn]
        have hall : (∀ k < (childrenOf parentIdx nodes).length + 1, mem k = true) ↔
            mem 0 = true ∧ ∀ k < (childrenOf parentIdx nodes).length, mem (1 + k) = true := by
          constructor
          · intro h
            refine ⟨h 0 (Nat.succ_pos _), fun k hk => ?_⟩
            rw [Nat.add_comm]
            exact h (k + 1) (Nat.succ_lt_succ hk)
          · intro h k hk
            cases k with
            | zero => exact h.1
            | succ k =>
                rw [Nat.add_comm]
                exact h.2 k (Nat.lt_of_succ_lt_succ hk)
        by_cases hmem : mem 0 = true
        · have hstore : store 0 n.index (malloc 2) = some [some n.index, none] := rfl
          have hzero : store 1 0 [some n.index, none] = some [some n.index, some 0] := rfl
          rw [if_pos hmem, hstore, Option.bind_eq_bind, Option.bind_some, hzero, Option.bind_some,
            walkTable_further (.inl rfl), reported]
          cases hlast : (childrenOf parentIdx nodes).getLast? with
          | none =>
              have hnil := List.getLast?_eq_none_iff.mp hlast
              simp [hnil, hmem]
          | some x =>
              simp only [List.length_cons, hall, hmem, true_and]
        · have hnot : ¬ ∀ k < (childrenOf parentIdx nodes).length + 1, mem k = true := fun h => hmem (hall.mp h).1
          rw [if_neg hmem, reported, List.length_cons, if_neg hnot]
      · rw [if_neg hn, if_neg hn]
        exact ih

theorem getAllChildren_spec (parentIdx : Int) (mem : Nat → Bool) (t : Table PhysicalEntry) :
    getAllChildrenFromPhysicalContainedIn parentIdx mem t =
      some (if inRange parentIdx then reported mem (containedIn parentIdx t) else none) := by
  have hrange : (parentIdx ≤ 0 ∨ maxEntityIndex < parentIdx) ↔ ¬ inRange parentIdx = true := by
    simp only [inRange, Bool.and_eq_true, decide_eq_true_eq, not_and_or, Int.not_lt, Int.not_le]
  rw [getAllChildrenFromPhysicalContainedIn]
  by_cases hin : inRange parentIdx = true
  · rw [if_neg fun h => hrange.mp h hin, if_pos hin]
    exact walkTable_first t.head
  · rw [if_pos (hrange.mpr hin), if_neg hin]

theorem upToZero_not_zero {cells : Cells} {l : List Int} (h : upToZero cells = some l) : 0 ∉ l := by
  induction cells generalizing l with
  | nil => cases h
  | cons x cells ih =>
      cases x with
      | none => cases h
      | some x =>
          rw [upToZero] at h
          split at h
          · obtain rfl := Option.some.inj h
            exact List.not_mem_nil
          · next hx =>
              obtain ⟨l', hl', rfl⟩ := Option.map_eq_some_iff.mp h
              rw [List.mem_cons, not_or]
              exact ⟨fun h0 => hx h0.symm, ih hl'⟩

theorem upToZero_map {l : List Int} (h : 0 ∉ l) : upToZero (l.map some ++ [some 0]) = some l := by
  induction l with
  | nil => rfl
  | cons x l ih =>
      rw [List.mem_cons, not_or] at h
      rw [List.map_cons, List.cons_append, upToZero, if_neg fun hx => h.1 hx.symm, ih h.2]
      rfl

theorem reported_few {l : List Int} (hne : l ≠ []) (hlen : l.length ≤ 2) (hmem : ∀ k < l.length, mem k = true) :
    reported mem l = some (l.map some ++ [some 0]) := by
  match l with
  | [] => exact absurd rfl hne
  | [z] => exact if_pos hmem
  | [z, y] => exact if_pos hmem
  | z :: y :: x :: l => exact absurd hlen (by simp)

theorem upToZero_length {cells : Cells} {l : List Int} (h : upToZero cells = some l) : l.length < cells.length := by
  induction cells generalizing l with
  | nil => cases h
  | cons x cells ih =>
      cases x with
      | none => cases h
      | some x =>
          rw [upToZero] at h
          split at h
          · obtain rfl := Option.some.inj h
            exact Nat.succ_pos _
          · obtain ⟨l', hl', rfl⟩ := Option.map_eq_some_iff.mp h
            exact Nat.succ_lt_succ (ih hl')

theorem reported_length {l : List Int} {cells : Cells} (h : reported mem l = some cells) :
    cells.length ≤ 3 ∧ ∀ k < l.length, mem k = true := by
  cases l with
  | nil => cases h
  | cons z zs =>
      rw [reported] at h
      split at h
      · next hmem =>
          refine ⟨?_, hmem⟩
          split at h
          · exact Option.some.inj h ▸ Nat.le_succ 2
          · exact Option.some.inj h ▸ Nat.le_refl 3
      · cases h

theorem listed_reported {l : List Int} (h : 0 ∉ l) (granted : Bool) :
    listed (reported (fun _ => granted) l) = some (if granted then firstAndLast l else []) := by
  cases granted with
  | false =>
      cases l with
      | nil => rfl
      | cons z zs =>
          rw [reported, if_neg fun hall => Bool.false_ne_true (hall 0 (Nat.succ_pos _))]
          rfl
  | true =>
      rcases l with _ | ⟨z, _ | ⟨y, zs⟩⟩
      · rfl
      · exact upToZero_map h
      · have hlast : 0 ∉ [z, zs.getLastD y] := fun hmem => h (by
          rcases List.mem_pair.mp hmem with rfl | hmem
          · exact List.mem_cons_self
          · exact List.mem_cons_of_mem z (hmem ▸ List.getLastD_mem_cons))
        rw [reported, if_pos fun _ _ => rfl, List.getLast?_cons, ← List.getLastD_eq_getLast?]
        exact upToZero_map hlast

/-- The array has what the cycle check is said to read. -/
theorem listed_eq {s : State} (h : 0 ∉ containedIn parentIdx s.physical) (granted : Bool) :
    ∃ child_list, getAllChildrenFromPhysicalContainedIn parentIdx (fun _ => granted) s.physical = some child_list ∧
      listed child_list =
        some (PhysicalContainsTable.getAllChildrenFromPhysicalContainedIn parentIdx granted s) := by
  refine ⟨_, getAllChildren_spec .., ?_⟩
  rw [getAllChildren_eq]
  cases inRange parentIdx with
  | false => rfl
  | true => exact listed_reported h granted

def lone : State := { physical := { head := (physicalDefaults { entPhysicalContainedIn := 1 }).toList.map (⟨1, 2, ·⟩) } }

theorem listed_eq_lone : ∃ child_list, getAllChildrenFromPhysicalContainedIn 1 (fun _ => true) lone.physical =
    some child_list ∧ listed child_list = some (PhysicalContainsTable.getAllChildrenFromPhysicalContainedIn 1 true lone) :=
  listed_eq (by decide) true

/-- The children are listed just if they are few. -/
theorem children_listed_iff (parentIdx : Int) (mem : Nat → Bool) (t : Table PhysicalEntry) :
    ListsChildren parentIdx mem t ↔ FewChildren parentIdx mem t := by
  rw [ListsChildren, getAllChildren_spec, FewChildren]
  simp only [Option.some.injEq, exists_eq_left']
  by_cases hnil : containedIn parentIdx t = []
  · rw [hnil]
    refine iff_of_true ?_ (.inl rfl)
    split <;> rfl
  · rw [or_iff_right hnil]
    constructor
    · intro h
      by_cases hin : inRange parentIdx = true
      · rw [if_pos hin] at h
        cases hcells : reported mem (containedIn parentIdx t) with
        | none =>
            rw [hcells] at h
            exact absurd (Option.some.inj h).symm hnil
        | some cells =>
            rw [hcells] at h
            obtain ⟨hthree, hmem⟩ := reported_length hcells
            have hlen := upToZero_length h
            exact ⟨hin, by omega, upToZero_not_zero h, hmem⟩
      · rw [if_neg hin] at h
        exact absurd (Option.some.inj h).symm hnil
    · rintro ⟨hin, hlen, hzero, hmem⟩
      rw [if_pos hin, reported_few hnil hlen hmem]
      exact upToZero_map hzero

/-- Of the entries 2, 3 and 4 in entry 1 the list has 2 and 4. -/
theorem middle_child_overwritten : ∃ s, Reachable step (fun _ _ => True) Empty s ∧
    containedIn 1 s.physical = [2, 3, 4] ∧
    getAllChildrenFromPhysicalContainedIn 1 (fun _ => true) s.physical = some (some [some 2, some 4, some 0]) ∧
      ¬ ListsChildren 1 (fun _ => true) s.physical := by
  let child : NewPhysicalEntry := { entPhysicalContainedIn := 1, entPhysicalParentRelPos := 0 }
  let ops : List Op := [.allocPhysical 1 {} (some 1), .allocPhysical 2 child (some 2),
    .allocPhysical 3 child (some 3),
    .allocPhysical 4 child (some 4)]
  have hrun : (exec step ops {}).any (fun s => decide (containedIn 1 s.physical = [2, 3, 4])) = true :=
    by decide +kernel
  obtain ⟨s, hs, hchildren⟩ := (Option.any_eq_true _ _).mp hrun
  have hchildren : containedIn 1 s.physical = [2, 3, 4] := of_decide_eq_true hchildren
  have hlist : getAllChildrenFromPhysicalContainedIn 1 (fun _ => true) s.physical =
      some (some [some 2, some 4, some 0]) := by
    rw [getAllChildren_spec, hchildren]
    rfl
  refine ⟨s, reachable_of_exec ops (fun _ _ _ => trivial) (.start rfl) hs, hchildren, hlist, ?_⟩
  rintro ⟨child_list, hrun, hlisted⟩
  obtain rfl := Option.some.inj (hlist.symm.trans hrun)
  rw [hchildren] at hlisted
  cases hlisted

end OiUserland.EntityMib.ChildLists
