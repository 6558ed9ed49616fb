import OiUserland.EntityMib.MappingTables
import OiUserland.EntityMib.PhysicalContainsTable
import OiUserland.Lib.Runs

open OiUserland.EntityMib
open EntityTable Entities MibState LPMappingTable AliasMappingTable PhysicalContainsTable

namespace OiUserland.EntityMib.LogicalTable

def allocLogicalEntry (logicidx : Int) (new : NewLogicalEntry) (mem : Option Nat) (s : State) :
    Option (State × Int) :=
  match logicalDefaults new with
  | none => some (s, -1)
  | some e =>
      match rejectLogical logicidx e with
      | some rc => some (s, rc)
      | none =>
          match mem with
          | none => some (s, -1)
          | some addr =>
              (addToTable ⟨addr, logicidx, e⟩ s.logical).map (fun r => ({ s with logical := r.1 }, r.2))

def purgeLogical (x : Int) (s : State) : State :=
  (deleteLPMappingLogicalIndex x (deleteAliasMappingLogicalIndex x s).1).1

def unlinkLogical (x : Int) (s : State) : State :=
  { s with logical := { s.logical with head := unlink x s.logical.head
                                       size := s.logical.size - 1 } }

def deleteLogicalTableEntry (x : Int) (s : State) : State × Int :=
  if !inRange x then (s, -1)
  else match find x s.logical.head with
    | .live _ => (unlinkLogical x (purgeLogical x s), 0)
    | .stale _ => (s, -2)
    | .absent => (s, -1)

def retagLogical (x i : Int) (s : State) : State :=
  { s with logical := { s.logical with head := retag x i s.logical.head } }

def makeLogicalTableEntryStale (x : Int) (s : State) : State × Int :=
  if !inRange x then (s, -1)
  else match find x s.logical.head with
    | .live _ => (retagLogical x (-x) (purgeLogical x s), 0)
    | .stale _ => (s, -2)
    | .absent => (s, -1)

def makeLogicalTableEntryLive (x : Int) (s : State) : State × Int :=
  if !inRange x then (s, -1)
  else match find x s.logical.head with
    | .live _ => (s, -2)
    | .stale _ => (retagLogical x x s, 0)
    | .absent => (s, -1)

variable {i x : Int} {s s' : State}

theorem allocLogicalEntry_cases {new : NewLogicalEntry} {mem : Option Nat} {rc : Int}
    (h : allocLogicalEntry i new mem s = some (s', rc)) :
    s' = s ∨ ∃ e addr t, logicalDefaults new = some e ∧ rejectLogical i e = none ∧
      mem = some addr ∧ addToTable ⟨addr, i, e⟩ s.logical = some (t, rc) ∧ s' = { s with logical := t } := by
  unfold allocLogicalEntry at h
  split at h
  · cases h
    exact .inl rfl
  · rename_i e he
    split at h
    · cases h
      exact .inl rfl
    · rename_i hr
      split at h
      · cases h
        exact .inl rfl
      · rename_i addr
        obtain ⟨⟨t, j⟩, ht, heq⟩ := Option.map_eq_some_iff.mp h
        cases heq
        exact .inr ⟨e, addr, t, he, hr, rfl, ht, rfl⟩

theorem rejectLogical_bound {e : LogicalEntry} (h : rejectLogical i e = none) : i ≤ maxEntityIndex := by
  unfold rejectLogical at h
  split at h
  · cases h
  · omega

theorem deleteLogicalTableEntry_cases :
    (deleteLogicalTableEntry x s).1 = s ∨ (inRange x ∧ (∃ n, find x s.logical.head = .live n) ∧
      (deleteLogicalTableEntry x s).1 = unlinkLogical x (purgeLogical x s)) := by
  unfold deleteLogicalTableEntry
  split
  · exact .inl rfl
  · rename_i hr
    split
    · rename_i n hn
      exact .inr ⟨by simpa using hr, ⟨n, hn⟩, rfl⟩
    · exact .inl rfl
    · exact .inl rfl

theorem makeLogicalTableEntryStale_cases :
    (makeLogicalTableEntryStale x s).1 = s ∨ (inRange x ∧ (∃ n, find x s.logical.head = .live n) ∧
      (makeLogicalTableEntryStale x s).1 = retagLogical x (-x) (purgeLogical x s)) := by
  unfold makeLogicalTableEntryStale
  split
  · exact .inl rfl
  · rename_i hr
    split
    · rename_i n hn
      exact .inr ⟨by simpa using hr, ⟨n, hn⟩, rfl⟩
    · exact .inl rfl
    · exact .inl rfl

theorem makeLogicalTableEntryLive_cases :
    (makeLogicalTableEntryLive x s).1 = s ∨ (inRange x ∧ (∃ n, find x s.logical.head = .stale n) ∧
      (makeLogicalTableEntryLive x s).1 = retagLogical x x s) := by
  unfold makeLogicalTableEntryLive
  split
  · exact .inl rfl
  · rename_i hr
    split
    · exact .inl rfl
    · rename_i n hn
      exact .inr ⟨by simpa using hr, ⟨n, hn⟩, rfl⟩
    · exact .inl rfl

end OiUserland.EntityMib.LogicalTable

namespace OiUserland.EntityMib.PhysicalTable

def allocPhysicalEntry (physidx : Int) (new : NewPhysicalEntry) (mem : Option Nat) (s : State) :
    Option (State × Int) :=
  match physicalDefaults new with
  | none => some (s, -1)
  | some e =>
      match rejectPhysical physidx e s.physical with
      | some rc => some (s, rc)
      | none =>
          match mem with
          | none => some (s, -1)
          | some addr =>
              (addToTable ⟨addr, physidx, e⟩ s.physical).map (fun r => ({ s with physical := r.1 }, r.2))

def purgePhysical (x : Int) (mem : Bool) (s : State) : State :=
  let s := (deleteAliasMappingPhysicalIndex x s).1
  let s := (deleteLPMappingPhysicalIndex x s).1
  let s := (deletePhysicalContainsParentIndex x mem s).1
  (deletePhysicalContainsChildIndex x s).1

/-- The tail pointer is not written: it keeps naming the freed node when the
last entry goes. -/
def unlinkPhysical (x : Int) (s : State) : State :=
  { s with physical := { s.physical with head := unlink x s.physical.head
                                         size := s.physical.size - 1 } }

def deletePhysicalTableEntry (x : Int) (mem : Bool) (s : State) : State × Int :=
  if !inRange x then (s, -1)
  else match find x s.physical.head with
    | .live _ => (unlinkPhysical x (purgePhysical x mem s), 0)
    | .stale _ => (s, -2)
    | .absent => (s, -1)

def retagPhysical (x i : Int) (s : State) : State :=
  { s with physical := { s.physical with head := retag x i s.physical.head } }

def makePhysicalTableEntryStale (x : Int) (mem : Bool) (s : State) : State × Int :=
  if !inRange x then (s, -1)
  else match find x s.physical.head with
    | .live _ => (retagPhysical x (-x) (purgePhysical x mem s), 0)
    | .stale _ => (s, -2)
    | .absent => (s, -1)

def makePhysicalTableEntryLive (x : Int) (s : State) : State × Int :=
  if !inRange x then (s, -1)
  else match find x s.physical.head with
    | .live _ => (s, -2)
    | .stale _ => (retagPhysical x x s, 0)
    | .absent => (s, -1)

variable {i x : Int} {s s' : State}

theorem check_none {c : Prop} [Decidable c] {a : Int} {e : Option Int} (h : (if c then some a else e) = none) :
    ¬ c ∧ e = none := by
  split at h
  · cases h
  · rename_i hc
    exact ⟨hc, h⟩

theorem check_some {c : Prop} [Decidable c] {a rc : Int} {e : Option Int}
    (h : (if c then some a else e) = some rc) (he : e = some rc → rc = 0 ∨ rc = -1) (ha : a = 0 ∨ a = -1) :
    rc = 0 ∨ rc = -1 := by
  split at h
  · rw [← Option.some.inj h]
    exact ha
  · exact he h

theorem rejectPhysical_some {e : PhysicalEntry} {t : Table PhysicalEntry} {rc : Int}
    (h : rejectPhysical i e t = some rc) : rc = 0 ∨ rc = -1 := by
  unfold rejectPhysical at h
  refine check_some h (fun h => ?_) (.inl rfl)
  refine check_some h (fun h => ?_) (.inr rfl)
  refine check_some h (fun h => ?_) (.inr rfl)
  refine check_some h (fun h => ?_) (.inr rfl)
  refine check_some h (fun h => ?_) (.inr rfl)
  refine check_some h (fun h => ?_) (.inr rfl)
  refine check_some h (fun h => ?_) (.inr rfl)
  refine check_some h (fun h => ?_) (.inr rfl)
  exact check_some h nofun (.inr rfl)

theorem allocPhysicalEntry_cases {new : NewPhysicalEntry} {mem : Option Nat} {rc : Int}
    (h : allocPhysicalEntry i new mem s = some (s', rc)) :
    (s' = s ∧ rc ≤ 0) ∨ ∃ e addr t, physicalDefaults new = some e ∧ rejectPhysical i e s.physical = none ∧
      mem = some addr ∧ addToTable ⟨addr, i, e⟩ s.physical = some (t, rc) ∧ s' = { s with physical := t } := by
  unfold allocPhysicalEntry at h
  split at h
  · cases h
    exact .inl ⟨rfl, by decide⟩
  · rename_i e he
    split at h
    · rename_i hr
      cases h
      have := rejectPhysical_some hr
      exact .inl ⟨rfl, by omega⟩
    · rename_i hr
      split at h
      · cases h
        exact .inl ⟨rfl, by decide⟩
      · rename_i addr
        obtain ⟨⟨t, j⟩, ht, heq⟩ := Option.map_eq_some_iff.mp h
        cases heq
        exact .inr ⟨e, addr, t, he, hr, rfl, ht, rfl⟩

theorem rejectPhysical_bound {e : PhysicalEntry} {t : Table PhysicalEntry} (h : rejectPhysical i e t = none) :
    i ≤ maxEntityIndex := by
  unfold rejectPhysical at h
  split at h
  · cases h
  · omega

theorem rejectPhysical_parent {e : PhysicalEntry} {t : Table PhysicalEntry} (h : rejectPhysical i e t = none)
    (h0 : e.entPhysicalContainedIn ≠ 0) : (getTableEntry e.entPhysicalContainedIn t).isSome := by
  unfold rejectPhysical at h
  obtain ⟨_, h⟩ := check_none h
  obtain ⟨_, h⟩ := check_none h
  obtain ⟨_, h⟩ := check_none h
  obtain ⟨_, h⟩ := check_none h
  obtain ⟨_, h⟩ := check_none h
  obtain ⟨_, h⟩ := check_none h
  have hlive := (check_none h).1
  rw [not_and] at hlive
  simpa [Option.isSome_iff_ne_none] using hlive h0

theorem deletePhysicalTableEntry_cases (mem : Bool) :
    (deletePhysicalTableEntry x mem s).1 = s ∨ (inRange x ∧ (∃ n, find x s.physical.head = .live n) ∧
      (deletePhysicalTableEntry x mem s).1 = unlinkPhysical x (purgePhysical x mem s)) := by
  unfold deletePhysicalTableEntry
  split
  · exact .inl rfl
  · rename_i hr
    split
    · rename_i n hn
      exact .inr ⟨by simpa using hr, ⟨n, hn⟩, rfl⟩
    · exact .inl rfl
    · exact .inl rfl

theorem makePhysicalTableEntryStale_cases (mem : Bool) :
    (makePhysicalTableEntryStale x mem s).1 = s ∨ (inRange x ∧ (∃ n, find x s.physical.head = .live n) ∧
      (makePhysicalTableEntryStale x mem s).1 = retagPhysical x (-x) (purgePhysical x mem s)) := by
  unfold makePhysicalTableEntryStale
  split
  · exact .inl rfl
  · rename_i hr
    split
    · rename_i n hn
      exact .inr ⟨by simpa using hr, ⟨n, hn⟩, rfl⟩
    · exact .inl rfl
    · exact .inl rfl

theorem makePhysicalTableEntryLive_cases :
    (makePhysicalTableEntryLive x s).1 = s ∨ (inRange x ∧ (∃ n, find x s.physical.head = .stale n) ∧
      (makePhysicalTableEntryLive x s).1 = retagPhysical x x s) := by
  unfold makePhysicalTableEntryLive
  split
  · exact .inl rfl
  · rename_i hr
    split
    · exact .inl rfl
    · rename_i n hn
      exact .inr ⟨by simpa using hr, ⟨n, hn⟩, rfl⟩
    · exact .inl rfl

end OiUserland.EntityMib.PhysicalTable

namespace OiUserland.EntityMib.Module

open PhysicalTable LogicalTable

inductive Op
  | allocPhysical (physidx : Int) (new : NewPhysicalEntry) (mem : Option Nat)
  | deletePhysical (x : Int) (mem : Bool)
  | stalePhysical (x : Int) (mem : Bool)
  | livePhysical (x : Int)
  | allocLogical (logicidx : Int) (new : NewLogicalEntry) (mem : Option Nat)
  | deleteLogical (x : Int)
  | staleLogical (x : Int)
  | liveLogical (x : Int)
  | addContains (p c : Int) (mem : AddMemory)
  | deleteContains (p c : Int)
  | deleteContainsParent (p : Int) (mem : Bool)
  | deleteContainsChild (c : Int)
  | addLP (l p : Int)
  | deleteLP (l p : Int)
  | deleteLPLogical (l : Int)
  | deleteLPPhysical (p : Int)
  | addAlias (p l : Int) (aliasMapId : Option (List Nat)) (size : Nat)
  | deleteAlias (p l : Int)
  | deleteAliasLogical (l : Int)
  | deleteAliasPhysical (p : Int)

def freshBlock (mem : Option Nat) (s : State) : Bool :=
  mem.all (fun a => !(s.physical.blocks.contains a || s.logical.blocks.contains a))

def call : Op → State → Option (State × Int)
  | .allocPhysical i new mem, s => if freshBlock mem s then allocPhysicalEntry i new mem s else none
  | .deletePhysical x mem, s => some (deletePhysicalTableEntry x mem s)
  | .stalePhysical x mem, s => some (makePhysicalTableEntryStale x mem s)
  | .livePhysical x, s => some (makePhysicalTableEntryLive x s)
  | .allocLogical i new mem, s => if freshBlock mem s then allocLogicalEntry i new mem s else none
  | .deleteLogical x, s => some (deleteLogicalTableEntry x s)
  | .staleLogical x, s => some (makeLogicalTableEntryStale x s)
  | .liveLogical x, s => some (makeLogicalTableEntryLive x s)
  | .addContains p c mem, s => addPhysicalContainsTableEntry p c mem s
  | .deleteContains p c, s => some (deletePhysicalContainsTableEntry p c s)
  | .deleteContainsParent p mem, s => some (deletePhysicalContainsParentIndex p mem s)
  | .deleteContainsChild c, s => some (deletePhysicalContainsChildIndex c s)
  | .addLP l p, s => some (addLPMappingTableEntry l p s)
  | .deleteLP l p, s => some (deleteLPMappingTableEntry l p s)
  | .deleteLPLogical l, s => some (deleteLPMappingLogicalIndex l s)
  | .deleteLPPhysical p, s => some (deleteLPMappingPhysicalIndex p s)
  | .addAlias p l mapId size, s => some (addAliasMappingTableEntry p l mapId size s)
  | .deleteAlias p l, s => some (deleteAliasMappingTableEntry p l s)
  | .deleteAliasLogical l, s => some (deleteAliasMappingLogicalIndex l s)
  | .deleteAliasPhysical p, s => some (deleteAliasMappingPhysicalIndex p s)

def step (o : Op) (s : State) : Option State := (call o s).map Prod.fst

def Empty (s : State) : Prop := s = {}

end OiUserland.EntityMib.Module
