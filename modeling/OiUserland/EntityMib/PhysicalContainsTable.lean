import Mathlib.Algebra.GroupWithZero.Nat
import OiUserland.EntityMib.Entities

namespace OiUserland.EntityMib.PhysicalContainsTable

open EntityTable Entities MibState

def addChild (acc : List Int × Nat) (idx : Int) : List Int × Nat :=
  if acc.1 = [] then ([idx], acc.2 + 1) else (acc.1.take acc.2 ++ [idx], acc.2)

/-- The indices of all entries, live or stale, whose entPhysicalContainedIn is
the given index. -/
def containedIn (parent : Int) (t : Table PhysicalEntry) : List Int :=
  (t.head.filter (fun n => decide (n.entry.entPhysicalContainedIn = parent))).map Node.index

def getAllChildrenFromPhysicalContainedIn (parentIdx : Int) (mem : Bool) (s : State) : List Int :=
  if inRange parentIdx && mem then ((containedIn parentIdx s.physical).foldl addChild ([], 0)).1 else []

def getPhysicalContainsChildren (parentIndex : Int) (mem : Bool) (s : State) : List Int :=
  if (getPhysicalTableEntry parentIndex s).isNone then []
  else match findRow parentIndex s.contains with
    | some r => if mem then (elements r).filter (fun c => decide (0 < c)) else []
    | none => []

/-- The call path of a recursive descent: for every level, which of the two
child lists was being followed and the child. -/
abbrev CallPath := List (Bool × Int)

/-- Whether the two child lists of a call could be allocated. -/
abbrev ListMemory := CallPath → Bool × Bool

def anyChild (f : Int → Option Bool) : List Int → Option Bool
  | [] => some false
  | c :: cs =>
      match f c with
      | none => none
      | some true => some true
      | some false => anyChild f cs

def isRecursiveChild (s : State) (mem : ListMemory) (childIndex : Int) :
    Nat → CallPath → Int → Option Bool
  | 0, _, _ => none
  | fuel + 1, path, parentIndex =>
      if parentIndex = childIndex then some true
      else
        match anyChild (fun c => isRecursiveChild s mem childIndex fuel ((false, c) :: path) c)
            (getAllChildrenFromPhysicalContainedIn parentIndex (mem path).1 s) with
        | none => none
        | some true => some true
        | some false =>
            anyChild (fun c => isRecursiveChild s mem childIndex fuel ((true, c) :: path) c)
              (getPhysicalContainsChildren parentIndex (mem path).2 s)

/-- A descent deeper than this has met some index twice and goes on for ever:
below the first one, every index on it is that of an entry or of a pair. -/
def depthBound (s : State) : Nat :=
  s.physical.head.length + (s.contains.map (fun r => (elements r).length)).sum + 2

def reuseSlot (c : Int) : List Int → Option (List Int)
  | [] => none
  | z :: zs =>
      match reuseSlot c zs with
      | some r => some (z :: r)
      | none => if z = -1 then some (c :: zs) else none

structure AddMemory where
  lists : ListMemory := fun _ => (true, true)
  block : Bool := true
  array : Bool := true

def lowerContainedIn (p c : Int) (s : State) : State :=
  match getPhysicalTableEntry c s with
  | some n =>
      if n.entry.entPhysicalContainedIn = 0 ∨ n.entry.entPhysicalContainedIn > p then
        setContainedIn c p s
      else s
  | none => s

def linkChild (p c : Int) (mem : AddMemory) (s : State) : State × Int :=
  match findRow p s.contains with
  | some r =>
      match r.values with
      | none =>
          if mem.block then
            (lowerContainedIn p c { s with contains := setValues p (some [c]) s.contains }, 0)
          else (s, -1)
      | some vs =>
          if c ∈ vs then (s, 1)
          else match reuseSlot c vs with
            | some vs' => (lowerContainedIn p c { s with contains := setValues p (some vs') s.contains }, 0)
            | none =>
                -- a failed realloc leaves a null pointer in the node
                if mem.block then
                  (lowerContainedIn p c
                    { s with contains := setValues p (some (vs ++ [c])) s.contains }, 0)
                else ({ s with contains := setValues p none s.contains }, -1)
  | none =>
      if mem.block && mem.array then
        (lowerContainedIn p c { s with contains := s.contains ++ [⟨p, some [c]⟩] }, 0)
      else (s, -1)

def rejectContains (p c : Int) (s : State) : Option Int :=
  if p = c then some (-1)
  else if !inRange p || !inRange c then some (-1)
  else if (getPhysicalTableStaleEntry p s).isSome then some (-2)
  else if (getPhysicalTableStaleEntry c s).isSome then some (-2)
  else if (getPhysicalTableEntry p s).isNone || (getPhysicalTableEntry c s).isNone then some (-1)
  else none

def addPhysicalContainsTableEntry (p c : Int) (mem : AddMemory) (s : State) : Option (State × Int) :=
  match rejectContains p c s with
  | some rc => some (s, rc)
  | none =>
      match isRecursiveChild s mem.lists p (depthBound s) [] c with
      | none => none
      | some true => some (s, -1)
      | some false => some (linkChild p c mem s)

def lowestParent (c : Int) (rows : List (MappingRow Int)) : Int :=
  rows.foldl (fun lowest r =>
    if c ∈ elements r then (if lowest = 0 then r.index else if lowest > r.index then r.index else lowest)
    else lowest) 0

def resetContainedIn (p : Int) (s : State) (c : Int) : State :=
  match getPhysicalTableEntry c s with
  | some n =>
      if n.entry.entPhysicalContainedIn = p then setContainedIn c (lowestParent c s.contains) s else s
  | none => s

def deletePhysicalContainsParentIndex (p : Int) (mem : Bool) (s : State) : State × Int :=
  if !inRange p then (s, -1)
  else if (getPhysicalTableStaleEntry p s).isSome then (s, -2)
  else match findRow p s.contains with
    | none => (s, -1)
    | some _ =>
        let children := getPhysicalContainsChildren p mem s
        (children.foldl (resetContainedIn p) { s with contains := removeRow p s.contains },
          children.countP (fun c => decide (0 < c)))

def deletePhysicalContainsTableEntry (p c : Int) (s : State) : State × Int :=
  if !inRange p || !inRange c then (s, -1)
  else if (getPhysicalTableStaleEntry p s).isSome then (s, -2)
  else if (getPhysicalTableStaleEntry c s).isSome then (s, -2)
  else match findRow p s.contains with
    | none => (s, -1)
    | some r =>
        if c ∈ elements r then
          let values := r.values.map (fun vs => vs.map (fun z => if z = c then -1 else z))
          (resetContainedIn p { s with contains := setValues p values s.contains } c, 0)
        else (s, -1)

def positions (rows : List (MappingRow Int)) : List (Nat × Nat) :=
  (List.range rows.length).flatMap (fun k =>
    (List.range ((rows[k]?.map elements).getD []).length).map (fun j => (k, j)))

def deleteChildAt (c : Int) (acc : State × Int) (pos : Nat × Nat) : State × Int :=
  match acc.1.contains[pos.1]? with
  | some r =>
      if (elements r)[pos.2]? = some c then
        ((deletePhysicalContainsTableEntry r.index c acc.1).1, acc.2 + 1)
      else acc
  | none => acc

def deletePhysicalContainsChildIndex (c : Int) (s : State) : State × Int :=
  if !inRange c then (s, -1)
  else if (getPhysicalTableStaleEntry c s).isSome then (s, -2)
  else
    let r := (positions s.contains).foldl (deleteChildAt c) (s, 0)
    (r.1, if r.2 = 0 then -1 else r.2)

variable {p c : Int} {s s' : State}

def Stored (p c : Int) (rows rows' : List (MappingRow Int)) : Prop :=
  (∃ r vs, findRow p rows = some r ∧ (∀ z ∈ vs, z ∈ elements r ∨ z = c) ∧ rows' = setValues p (some vs) rows) ∨
    (findRow p rows = none ∧ rows' = rows ++ [⟨p, some [c]⟩])

theorem mem_reuseSlot {vs vs' : List Int} (h : reuseSlot c vs = some vs') (z : Int) (hz : z ∈ vs') :
    z ∈ vs ∨ z = c := by
  induction vs generalizing vs' with
  | nil => cases h
  | cons y ys ih =>
      unfold reuseSlot at h
      split at h
      · rename_i r hr
        obtain rfl := Option.some.inj h
        rcases List.mem_cons.mp hz with rfl | hz
        · exact .inl (by simp)
        · exact (ih hr hz).imp_left (List.mem_cons_of_mem y)
      · split at h
        · obtain rfl := Option.some.inj h
          rcases List.mem_cons.mp hz with rfl | hz
          · exact .inr rfl
          · exact .inl (by simp [hz])
        · cases h

theorem linkChild_cases (mem : AddMemory) :
    (linkChild p c mem s).1 = s ∨
    (mem.block = false ∧ (linkChild p c mem s).1 = { s with contains := setValues p none s.contains }) ∨
    ∃ rows, Stored p c s.contains rows ∧
      (linkChild p c mem s).1 = lowerContainedIn p c { s with contains := rows } := by
  unfold linkChild
  split
  · rename_i r hr
    split
    · split
      · exact .inr (.inr ⟨_, .inl ⟨r, [c], hr, by simp, rfl⟩, rfl⟩)
      · exact .inl rfl
    · rename_i vs hv
      have hel : elements r = vs := by simp [elements, hv]
      split
      · exact .inl rfl
      · split
        · rename_i vs' hvs
          exact .inr (.inr ⟨_, .inl ⟨r, vs', hr, hel ▸ mem_reuseSlot hvs, rfl⟩, rfl⟩)
        · split
          · exact .inr (.inr ⟨_, .inl ⟨r, vs ++ [c], hr, by simp [hel], rfl⟩, rfl⟩)
          · rename_i hm
            exact .inr (.inl ⟨by simpa using hm, rfl⟩)
  · rename_i hr
    split
    · exact .inr (.inr ⟨_, .inr ⟨hr, rfl⟩, rfl⟩)
    · exact .inl rfl

theorem addPhysicalContainsTableEntry_cases {mem : AddMemory} {rc : Int}
    (h : addPhysicalContainsTableEntry p c mem s = some (s', rc)) :
    s' = s ∨ (rejectContains p c s = none ∧
      isRecursiveChild s mem.lists p (depthBound s) [] c = some false ∧ s' = (linkChild p c mem s).1) := by
  unfold addPhysicalContainsTableEntry at h
  split at h
  · cases h
    exact .inl rfl
  · rename_i hr
    split at h
    · cases h
    · cases h
      exact .inl rfl
    · rename_i hc
      exact .inr ⟨hr, hc, (congrArg Prod.fst (Option.some.inj h)).symm⟩

theorem rejectContains_none (h : rejectContains p c s = none) :
    p ≠ c ∧ (getPhysicalTableEntry p s).isSome ∧ (getPhysicalTableEntry c s).isSome := by
  unfold rejectContains at h
  split at h
  · cases h
  · rename_i hne
    split at h
    · cases h
    · split at h
      · cases h
      · split at h
        · cases h
        · split at h
          · cases h
          · rename_i hlive
            simp only [Bool.or_eq_true, Option.isNone_iff_eq_none, not_or, ← ne_eq,
              Option.ne_none_iff_isSome] at hlive
            exact ⟨hne, hlive⟩

theorem resetContainedIn_cases :
    resetContainedIn p s c = s ∨
      resetContainedIn p s c = setContainedIn c (lowestParent c s.contains) s := by
  unfold resetContainedIn
  split
  · split
    · exact .inr rfl
    · exact .inl rfl
  · exact .inl rfl

theorem lowerContainedIn_cases :
    lowerContainedIn p c s = s ∨ lowerContainedIn p c s = setContainedIn c p s := by
  unfold lowerContainedIn
  split
  · split
    · exact .inr rfl
    · exact .inl rfl
  · exact .inl rfl

theorem deletePhysicalContainsParentIndex_cases (mem : Bool) :
    (deletePhysicalContainsParentIndex p mem s).1 = s ∨
    (deletePhysicalContainsParentIndex p mem s).1 = (getPhysicalContainsChildren p mem s).foldl
      (resetContainedIn p) { s with contains := removeRow p s.contains } := by
  unfold deletePhysicalContainsParentIndex
  split
  · exact .inl rfl
  · split
    · exact .inl rfl
    · split
      · exact .inl rfl
      · exact .inr rfl

def dropChild (p c : Int) (r : MappingRow Int) (rows : List (MappingRow Int)) : List (MappingRow Int) :=
  setValues p (r.values.map (fun vs => vs.map (fun z => if z = c then -1 else z))) rows

theorem deletePhysicalContainsTableEntry_cases :
    (deletePhysicalContainsTableEntry p c s).1 = s ∨
    ∃ r, findRow p s.contains = some r ∧ (deletePhysicalContainsTableEntry p c s).1 =
      resetContainedIn p { s with contains := dropChild p c r s.contains } c := by
  unfold deletePhysicalContainsTableEntry
  split
  · exact .inl rfl
  · split
    · exact .inl rfl
    · split
      · exact .inl rfl
      · split
        · exact .inl rfl
        · rename_i r hr
          split
          · exact .inr ⟨r, hr, rfl⟩
          · exact .inl rfl

theorem deletePhysicalContainsChildIndex_induction {P : State → Prop}
    (hstep : ∀ p s, P s → P (deletePhysicalContainsTableEntry p c s).1) (h : P s) :
    P (deletePhysicalContainsChildIndex c s).1 := by
  have hat (acc : State × Int) (pos : Nat × Nat) (ha : P acc.1) : P (deleteChildAt c acc pos).1 := by
    unfold deleteChildAt
    split
    · split
      · exact hstep _ _ ha
      · exact ha
    · exact ha
  have hfold (ps : List (Nat × Nat)) (acc : State × Int) (ha : P acc.1) :
      P (ps.foldl (deleteChildAt c) acc).1 := by
    induction ps generalizing acc with
    | nil => exact ha
    | cons pos ps ih => exact ih _ (hat acc pos ha)
  unfold deletePhysicalContainsChildIndex
  split
  · exact h
  · split
    · exact h
    · exact hfold _ (s, 0) h

end OiUserland.EntityMib.PhysicalContainsTable
