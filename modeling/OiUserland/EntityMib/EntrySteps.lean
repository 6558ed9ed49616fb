import OiUserland.EntityMib.ListInvariant
import OiUserland.EntityMib.Module

open OiUserland.EntityMib
open EntityTable Entities MibState PhysicalTable LogicalTable ListInvariant Module

namespace OiUserland.EntityMib.Frames

open PhysicalContainsTable LPMappingTable AliasMappingTable

variable {s s' t : State} {x p c l : Int}

def outline (n : Node PhysicalEntry) : Node PhysicalEntry :=
  { n with entry := { n.entry with entPhysicalContainedIn := 0 } }

structure SameEntries (s s' : State) : Prop where
  physical : s'.physical.head.map outline = s.physical.head.map outline
  tail : s'.physical.tail = s.physical.tail
  size : s'.physical.size = s.physical.size
  lost : s'.physical.lost = s.physical.lost
  logical : s'.logical = s.logical

theorem SameEntries.refl (s : State) : SameEntries s s := ⟨rfl, rfl, rfl, rfl, rfl⟩

theorem SameEntries.trans (h : SameEntries s s') (h' : SameEntries s' t) : SameEntries s t :=
  ⟨h'.physical.trans h.physical, h'.tail.trans h.tail, h'.size.trans h.size, h'.lost.trans h.lost,
    h'.logical.trans h.logical⟩

theorem SameEntries.symm (h : SameEntries s s') : SameEntries s' s :=
  ⟨h.physical.symm, h.tail.symm, h.size.symm, h.lost.symm, h.logical.symm⟩

theorem SameEntries.mem (h : SameEntries s s') {n : Node PhysicalEntry} (hn : n ∈ s.physical.head) :
    ∃ m ∈ s'.physical.head, outline m = outline n := by
  have hm : outline n ∈ s.physical.head.map outline := List.mem_map_of_mem hn
  rw [← h.physical] at hm
  exact List.mem_map.mp hm

theorem outline_index {m n : Node PhysicalEntry} (h : outline m = outline n) : m.index = n.index := by
  simpa [outline] using congrArg Node.index h

theorem outline_class {m n : Node PhysicalEntry} (h : outline m = outline n) :
    m.entry.entPhysicalClass = n.entry.entPhysicalClass := by
  simpa [outline] using congrArg (fun k => k.entry.entPhysicalClass) h

theorem SameEntries.key (h : SameEntries s s') : s'.physical.head.map key = s.physical.head.map key := by
  have hk : (ListInvariant.key ∘ outline) = ListInvariant.key := rfl
  have := congrArg (List.map ListInvariant.key) h.physical
  simpa only [List.map_map, hk] using this

theorem find_map (f : Node PhysicalEntry → Node PhysicalEntry) (hf : ∀ n, (f n).index = n.index) (x : Int)
    (l : List (Node PhysicalEntry)) :
    find x (l.map f) = match find x l with
      | .live n => .live (f n)
      | .stale n => .stale (f n)
      | .absent => .absent := by
  induction l with
  | nil => rfl
  | cons z zs ih =>
      simp only [List.map_cons, find, hf]
      split
      · rfl
      · split
        · rfl
        · exact ih

theorem SameEntries.found (h : SameEntries s s') (x : Int) :
    (getPhysicalTableEntry x s').isSome = (getPhysicalTableEntry x s).isSome ∧
      (getPhysicalTableStaleEntry x s').isSome = (getPhysicalTableStaleEntry x s).isSome := by
  have hfind := congrArg (find x) h.physical
  rw [find_map outline (fun _ => rfl), find_map outline (fun _ => rfl)] at hfind
  unfold getPhysicalTableEntry getPhysicalTableStaleEntry getTableEntry getTableStaleEntry
  cases hx : inRange x with
  | false => exact ⟨rfl, rfl⟩
  | true =>
      cases h1 : find x s'.physical.head <;> cases h2 : find x s.physical.head <;> rw [h1, h2] at hfind <;>
        first | exact ⟨rfl, rfl⟩ | cases hfind

theorem SameEntries.stale (h : SameEntries s s') (x : Int) :
    getPhysicalTableStaleEntry x s' = none ↔ getPhysicalTableStaleEntry x s = none := by
  rw [← Option.not_isSome_iff_eq_none, ← Option.not_isSome_iff_eq_none, (h.found x).2]

theorem SameEntries.livePhysical (h : SameEntries s s') (hx : LivePhysical s x) : LivePhysical s' x := by
  obtain ⟨h0, n, hn, hnx⟩ := hx
  obtain ⟨m, hm, hmn⟩ := h.mem hn
  exact ⟨h0, m, hm, (outline_index hmn).trans hnx⟩

theorem SameEntries.liveLogical (h : SameEntries s s') (hx : LiveLogical s x) : LiveLogical s' x := by
  simpa [LiveLogical, h.logical] using hx

theorem setContainedIn_same (x parent : Int) (s : State) : SameEntries s (setContainedIn x parent s) := by
  refine ⟨?_, rfl, rfl, rfl, rfl⟩
  show (assign x _ s.physical.head).map outline = _
  induction s.physical.head with
  | nil => rfl
  | cons z zs ih =>
      unfold assign
      split
      · rfl
      · simp [ih]

theorem contains_same (rows : List (MappingRow Int)) (s : State) :
    SameEntries s { s with contains := rows } := ⟨rfl, rfl, rfl, rfl, rfl⟩

theorem lpMapping_same (rows : List (MappingRow Int)) (s : State) :
    SameEntries s { s with lpMapping := rows } := ⟨rfl, rfl, rfl, rfl, rfl⟩

theorem aliasMapping_same (rows : List (MappingRow LogicalAlias)) (s : State) :
    SameEntries s { s with aliasMapping := rows } := ⟨rfl, rfl, rfl, rfl, rfl⟩

theorem resetContainedIn_same (p : Int) (s : State) (c : Int) : SameEntries s (resetContainedIn p s c) := by
  rcases resetContainedIn_cases (p := p) (c := c) (s := s) with h | h <;> rw [h]
  · exact .refl s
  · exact setContainedIn_same _ _ s

theorem foldl_same {α : Type} {f : State → α → State} (hf : ∀ s a, SameEntries s (f s a)) (as : List α)
    (s : State) : SameEntries s (as.foldl f s) := by
  induction as generalizing s with
  | nil => exact .refl s
  | cons a as ih => exact (hf s a).trans (ih (f s a))

theorem lowerContainedIn_same (p c : Int) (s : State) : SameEntries s (lowerContainedIn p c s) := by
  rcases lowerContainedIn_cases (p := p) (c := c) (s := s) with h | h <;> rw [h]
  · exact .refl s
  · exact setContainedIn_same _ _ s

theorem addPhysicalContainsTableEntry_same {mem : AddMemory} {rc : Int}
    (h : addPhysicalContainsTableEntry p c mem s = some (s', rc)) : SameEntries s s' := by
  rcases addPhysicalContainsTableEntry_cases h with rfl | ⟨-, -, rfl⟩
  · exact .refl _
  · rcases linkChild_cases (p := p) (c := c) (s := s) mem with h | ⟨-, h⟩ | ⟨rows, -, h⟩ <;> rw [h]
    · exact .refl s
    · exact contains_same _ s
    · exact (contains_same rows s).trans (lowerContainedIn_same p c _)

theorem deletePhysicalContainsParentIndex_same (p : Int) (mem : Bool) (s : State) :
    SameEntries s (deletePhysicalContainsParentIndex p mem s).1 := by
  rcases deletePhysicalContainsParentIndex_cases (p := p) (s := s) mem with h | h <;> rw [h]
  · exact .refl s
  · exact (contains_same _ s).trans (foldl_same (resetContainedIn_same p) _ _)

theorem deletePhysicalContainsTableEntry_same (p c : Int) (s : State) :
    SameEntries s (deletePhysicalContainsTableEntry p c s).1 := by
  rcases deletePhysicalContainsTableEntry_cases (p := p) (c := c) (s := s) with h | ⟨r, -, h⟩ <;> rw [h]
  · exact .refl s
  · exact (contains_same _ s).trans (resetContainedIn_same p _ c)

theorem deletePhysicalContainsChildIndex_same (c : Int) (s : State) :
    SameEntries s (deletePhysicalContainsChildIndex c s).1 :=
  deletePhysicalContainsChildIndex_induction
    (fun p t h => h.trans (deletePhysicalContainsTableEntry_same p c t)) (.refl s)

theorem addLPMappingTableEntry_same (l p : Int) (s : State) :
    SameEntries s (addLPMappingTableEntry l p s).1 := by
  rcases addLPMappingTableEntry_cases (l := l) (p := p) (s := s) with
    h | ⟨-, -, ⟨r, vs, -, -, h⟩ | ⟨-, h⟩⟩ <;> rw [h]
  · exact .refl s
  · exact lpMapping_same _ s
  · exact lpMapping_same _ s

theorem deleteLPMappingTableEntry_same (l p : Int) (s : State) :
    SameEntries s (deleteLPMappingTableEntry l p s).1 := by
  rcases deleteLPMappingTableEntry_cases (l := l) (p := p) (s := s) with h | ⟨-, r, -, h⟩ <;> rw [h]
  · exact .refl s
  · exact lpMapping_same _ s

theorem deleteLPMappingPhysicalIndex_same (p : Int) (s : State) :
    SameEntries s (deleteLPMappingPhysicalIndex p s).1 := by
  rcases deleteLPMappingPhysicalIndex_cases (p := p) (s := s) with h | ⟨-, h⟩ <;> rw [h]
  · exact .refl s
  · exact lpMapping_same _ s

theorem deleteLPMappingLogicalIndex_same (l : Int) (s : State) :
    SameEntries s (deleteLPMappingLogicalIndex l s).1 := by
  rcases deleteLPMappingLogicalIndex_cases (l := l) (s := s) with h | h <;> rw [h]
  · exact .refl s
  · exact lpMapping_same _ s

theorem addAliasMappingTableEntry_same (p l : Int) (mapId : Option (List Nat)) (size : Nat) (s : State) :
    SameEntries s (addAliasMappingTableEntry p l mapId size s).1 := by
  rcases addAliasMappingTableEntry_cases p l mapId size s with
    h | ⟨-, -, -, id, ⟨r, -, -, h⟩ | ⟨-, h⟩⟩ <;> rw [h]
  · exact .refl s
  · exact aliasMapping_same _ s
  · exact aliasMapping_same _ s

theorem deleteAliasMappingTableEntry_same (p l : Int) (s : State) :
    SameEntries s (deleteAliasMappingTableEntry p l s).1 := by
  rcases deleteAliasMappingTableEntry_cases (p := p) (l := l) (s := s) with h | ⟨r, -, h⟩ <;> rw [h]
  · exact .refl s
  · exact aliasMapping_same _ s

theorem deleteAliasMappingPhysicalIndex_same (p : Int) (s : State) :
    SameEntries s (deleteAliasMappingPhysicalIndex p s).1 := by
  rcases deleteAliasMappingPhysicalIndex_cases (p := p) (s := s) with h | h <;> rw [h]
  · exact .refl s
  · exact aliasMapping_same _ s

theorem deleteAliasMappingLogicalIndex_same (l : Int) (s : State) :
    SameEntries s (deleteAliasMappingLogicalIndex l s).1 := by
  rcases deleteAliasMappingLogicalIndex_cases (l := l) (s := s) with h | h <;> rw [h]
  · exact .refl s
  · exact aliasMapping_same _ s

theorem purgePhysical_same (x : Int) (mem : Bool) (s : State) : SameEntries s (purgePhysical x mem s) :=
  (((deleteAliasMappingPhysicalIndex_same x s).trans (deleteLPMappingPhysicalIndex_same x _)).trans
    (deletePhysicalContainsParentIndex_same x mem _)).trans (deletePhysicalContainsChildIndex_same x _)

theorem purgeLogical_same (x : Int) (s : State) : SameEntries s (purgeLogical x s) :=
  (deleteAliasMappingLogicalIndex_same x s).trans (deleteLPMappingLogicalIndex_same x _)

end OiUserland.EntityMib.Frames

namespace OiUserland.EntityMib.EntrySteps

open Frames

variable {s s' : State} {o : Op}

def mapping : Op → Bool
  | .allocPhysical .. | .deletePhysical .. | .stalePhysical .. | .livePhysical .. => false
  | .allocLogical .. | .deleteLogical .. | .staleLogical .. | .liveLogical .. => false
  | _ => true

inductive EntryStep (s : State) : Op → State → Prop
  | unchanged {o : Op} : EntryStep s o s
  | same {o : Op} {s' : State} (hm : mapping o = true) (h : SameEntries s s') : EntryStep s o s'
  | allocPhysical {i rc : Int} {new : NewPhysicalEntry} {addr : Nat} {e : PhysicalEntry}
      {t : Table PhysicalEntry} (he : physicalDefaults new = some e)
      (hr : rejectPhysical i e s.physical = none) (hfresh : addr ∉ s.physical.blocks)
      (h : addToTable ⟨addr, i, e⟩ s.physical = some (t, rc)) :
      EntryStep s (.allocPhysical i new (some addr)) { s with physical := t }
  | deletePhysical {x : Int} {mem : Bool} (hx : inRange x) (h : ∃ n, find x s.physical.head = .live n) :
      EntryStep s (.deletePhysical x mem) (unlinkPhysical x (purgePhysical x mem s))
  | stalePhysical {x : Int} {mem : Bool} (hx : inRange x) (h : ∃ n, find x s.physical.head = .live n) :
      EntryStep s (.stalePhysical x mem) (retagPhysical x (-x) (purgePhysical x mem s))
  | livePhysical {x : Int} (hx : inRange x) (h : ∃ n, find x s.physical.head = .stale n) :
      EntryStep s (.livePhysical x) (retagPhysical x x s)
  | allocLogical {i rc : Int} {new : NewLogicalEntry} {addr : Nat} {e : LogicalEntry}
      {t : Table LogicalEntry} (he : logicalDefaults new = some e)
      (hr : rejectLogical i e = none) (hfresh : addr ∉ s.logical.blocks)
      (h : addToTable ⟨addr, i, e⟩ s.logical = some (t, rc)) :
      EntryStep s (.allocLogical i new (some addr)) { s with logical := t }
  | deleteLogical {x : Int} (hx : inRange x) (h : ∃ n, find x s.logical.head = .live n) :
      EntryStep s (.deleteLogical x) (unlinkLogical x (purgeLogical x s))
  | staleLogical {x : Int} (hx : inRange x) (h : ∃ n, find x s.logical.head = .live n) :
      EntryStep s (.staleLogical x) (retagLogical x (-x) (purgeLogical x s))
  | liveLogical {x : Int} (hx : inRange x) (h : ∃ n, find x s.logical.head = .stale n) :
      EntryStep s (.liveLogical x) (retagLogical x x s)

theorem freshBlock_physical {a : Nat} (h : freshBlock (some a) s) : a ∉ s.physical.blocks := by
  simp only [freshBlock, Option.all_some, Bool.not_eq_true', Bool.or_eq_false_iff,
    List.contains_eq_mem, decide_eq_false_iff_not] at h
  exact h.1

theorem freshBlock_logical {a : Nat} (h : freshBlock (some a) s) : a ∉ s.logical.blocks := by
  simp only [freshBlock, Option.all_some, Bool.not_eq_true', Bool.or_eq_false_iff,
    List.contains_eq_mem, decide_eq_false_iff_not] at h
  exact h.2

theorem step_some {r : State × Int} (h : call o s = some r) (hs : step o s = some s') : s' = r.1 := by
  rw [step, h] at hs
  exact (Option.some.inj hs).symm

theorem step_entries (h : step o s = some s') : EntryStep s o s' := by
  cases o with
  | allocPhysical i new mem =>
      obtain ⟨r, hc, rfl⟩ := Option.map_eq_some_iff.mp h
      simp only [call] at hc
      split at hc
      · rename_i hfresh
        rcases allocPhysicalEntry_cases hc with ⟨he, _⟩ | ⟨e, addr, t, he, hr, rfl, ht, hs⟩
        · rw [he]
          exact .unchanged
        · rw [hs]
          exact .allocPhysical he hr (freshBlock_physical hfresh) ht
      · cases hc
  | deletePhysical x mem =>
      obtain rfl := step_some rfl h
      rcases deletePhysicalTableEntry_cases (x := x) (s := s) mem with he | ⟨hx, hl, he⟩ <;> rw [he]
      · exact .unchanged
      · exact .deletePhysical hx hl
  | stalePhysical x mem =>
      obtain rfl := step_some rfl h
      rcases makePhysicalTableEntryStale_cases (x := x) (s := s) mem with he | ⟨hx, hl, he⟩ <;> rw [he]
      · exact .unchanged
      · exact .stalePhysical hx hl
  | livePhysical x =>
      obtain rfl := step_some rfl h
      rcases makePhysicalTableEntryLive_cases (x := x) (s := s) with he | ⟨hx, hl, he⟩ <;> rw [he]
      · exact .unchanged
      · exact .livePhysical hx hl
  | allocLogical i new mem =>
      obtain ⟨r, hc, rfl⟩ := Option.map_eq_some_iff.mp h
      simp only [call] at hc
      split at hc
      · rename_i hfresh
        rcases allocLogicalEntry_cases hc with he | ⟨e, addr, t, he, hr, rfl, ht, hs⟩
        · rw [he]
          exact .unchanged
        · rw [hs]
          exact .allocLogical he hr (freshBlock_logical hfresh) ht
      · cases hc
  | deleteLogical x =>
      obtain rfl := step_some rfl h
      rcases deleteLogicalTableEntry_cases (x := x) (s := s) with he | ⟨hx, hl, he⟩ <;> rw [he]
      · exact .unchanged
      · exact .deleteLogical hx hl
  | staleLogical x =>
      obtain rfl := step_some rfl h
      rcases makeLogicalTableEntryStale_cases (x := x) (s := s) with he | ⟨hx, hl, he⟩ <;> rw [he]
      · exact .unchanged
      · exact .staleLogical hx hl
  | liveLogical x =>
      obtain rfl := step_some rfl h
      rcases makeLogicalTableEntryLive_cases (x := x) (s := s) with he | ⟨hx, hl, he⟩ <;> rw [he]
      · exact .unchanged
      · exact .liveLogical hx hl
  | addContains p c mem =>
      obtain ⟨r, hc, rfl⟩ := Option.map_eq_some_iff.mp h
      exact .same rfl (addPhysicalContainsTableEntry_same hc)
  | deleteContains p c => exact step_some rfl h ▸ .same rfl (deletePhysicalContainsTableEntry_same p c s)
  | deleteContainsParent p mem => exact step_some rfl h ▸ .same rfl (deletePhysicalContainsParentIndex_same p mem s)
  | deleteContainsChild c => exact step_some rfl h ▸ .same rfl (deletePhysicalContainsChildIndex_same c s)
  | addLP l p => exact step_some rfl h ▸ .same rfl (addLPMappingTableEntry_same l p s)
  | deleteLP l p => exact step_some rfl h ▸ .same rfl (deleteLPMappingTableEntry_same l p s)
  | deleteLPLogical l => exact step_some rfl h ▸ .same rfl (deleteLPMappingLogicalIndex_same l s)
  | deleteLPPhysical p => exact step_some rfl h ▸ .same rfl (deleteLPMappingPhysicalIndex_same p s)
  | addAlias p l mapId size => exact step_some rfl h ▸ .same rfl (addAliasMappingTableEntry_same p l mapId size s)
  | deleteAlias p l => exact step_some rfl h ▸ .same rfl (deleteAliasMappingTableEntry_same p l s)
  | deleteAliasLogical l => exact step_some rfl h ▸ .same rfl (deleteAliasMappingLogicalIndex_same l s)
  | deleteAliasPhysical p => exact step_some rfl h ▸ .same rfl (deleteAliasMappingPhysicalIndex_same p s)

theorem live_mem {E : Type} {l : List (Node E)} {x : Int} (h : ∃ n, find x l = .live n) :
    ∃ z ∈ l, z.index = x := by
  obtain ⟨n, hn⟩ := h
  exact ⟨n, find_live hn⟩

end OiUserland.EntityMib.EntrySteps

namespace OiUserland.EntityMib.ListRuns

open Lib.Runs Frames EntrySteps

variable {s s' : State} {o : Op}

/-- A delete that leaves the recorded tail right, an alloc that has an index
left. Calls that are rejected meet this too. -/
def KeepsLinks (o : Op) (s : State) : Prop :=
  match o with
  | .allocPhysical i new mem => ∀ e, physicalDefaults new = some e → rejectPhysical i e s.physical = none →
      mem.isSome → HasRoom i s.physical
  | .allocLogical i new mem => ∀ e, logicalDefaults new = some e → rejectLogical i e = none →
      mem.isSome → HasRoom i s.logical
  | .deletePhysical x _ => ∀ z, s.physical.head.getLast? = some z → 0 < x → z.index = x →
      s.physical.head.length = 1
  | .deleteLogical x => ∀ z, s.logical.head.getLast? = some z → 0 < x → z.index = x →
      s.logical.head.length = 1
  | _ => True

def TablesWellFormed (s : State) : Prop := WellFormed s.physical ∧ WellFormed s.logical

theorem same_wellFormed (h : SameEntries s s') (hw : TablesWellFormed s) : TablesWellFormed s' :=
  ⟨hw.1.congr h.key h.size h.tail, h.logical ▸ hw.2⟩

theorem tailSafe_of_wellFormed {E : Type} {t : Table E} (h : WellFormed t) (i : Int) : TailSafe i t :=
  .inr (.inr h.tail)

theorem step_wellFormed (hw : TablesWellFormed s) (hok : KeepsLinks o s) (h : step o s = some s') :
    TablesWellFormed s' := by
  cases step_entries h with
  | unchanged => exact hw
  | same _ hsame => exact same_wellFormed hsame hw
  | allocPhysical he hr hfresh ht =>
      have hadd := addToTable_added hw.1.toOrdered hw.1.size (rejectPhysical_bound hr)
        (hok _ he hr rfl) (tailSafe_of_wellFormed hw.1 _) ht
      exact ⟨hadd.wellFormed hw.1 hfresh, hw.2⟩
  | deletePhysical hx hl =>
      rename_i x mem
      have hsame := purgePhysical_same x mem s
      have hw' := same_wellFormed hsame hw
      obtain ⟨n, hn, hnx⟩ := live_mem hl
      obtain ⟨m, hm, hmn⟩ := hsame.mem hn
      refine ⟨hw'.1.unlink ⟨m, hm, (outline_index hmn).trans hnx⟩ fun z hz hzx => ?_, hw'.2⟩
      have hlen := congrArg List.length hsame.physical
      have hlast := congrArg List.getLast? hsame.physical
      rw [List.getLast?_map, List.getLast?_map, hz] at hlast
      obtain ⟨y, hy, hyz⟩ := Option.map_eq_some_iff.mp hlast.symm
      rw [List.length_map, List.length_map] at hlen
      rw [hlen]
      exact hok y hy (inRange_pos hx) ((outline_index hyz).trans hzx)
  | stalePhysical hx hl =>
      rename_i x mem
      have hw' := same_wellFormed (purgePhysical_same x mem s) hw
      exact ⟨hw'.1.retag (Int.natAbs_neg _), hw'.2⟩
  | livePhysical hx hl => exact ⟨hw.1.retag rfl, hw.2⟩
  | allocLogical he hr hfresh ht =>
      have hadd := addToTable_added hw.2.toOrdered hw.2.size (rejectLogical_bound hr)
        (hok _ he hr rfl) (tailSafe_of_wellFormed hw.2 _) ht
      exact ⟨hw.1, hadd.wellFormed hw.2 hfresh⟩
  | deleteLogical hx hl =>
      rename_i x
      have hsame := purgeLogical_same x s
      have hw' := same_wellFormed hsame hw
      refine ⟨hw'.1, hw'.2.unlink (hsame.logical ▸ live_mem hl) fun z hz hzx => ?_⟩
      rw [hsame.logical] at hz ⊢
      exact hok z hz (inRange_pos hx) hzx
  | staleLogical hx hl =>
      rename_i x
      have hw' := same_wellFormed (purgeLogical_same x s) hw
      exact ⟨hw'.1, hw'.2.retag (Int.natAbs_neg _)⟩
  | liveLogical hx hl => exact ⟨hw.1, hw.2.retag rfl⟩

theorem empty_wellFormed (h : Empty s) : TablesWellFormed s := by
  cases h
  exact ⟨⟨.nil, rfl, by simp⟩, ⟨.nil, rfl, by simp⟩⟩

/-- Both linked lists keep their representation invariant in every run that
keeps the recorded tails and the indices in range. -/
theorem reachable_wellFormed (h : Reachable step KeepsLinks Empty s) :
    WellFormed s.physical ∧ WellFormed s.logical :=
  h.invariant TablesWellFormed (fun _ => empty_wellFormed) fun _ _ _ hw hok hs => step_wellFormed hw hok hs

/-- Entry 1 is deleted while entry 2 is linked after it. -/
theorem reachable_wellFormed_deleted_first :
    ∃ s : State, s.physical.head.map Node.index = [2] ∧ WellFormed s.physical ∧ WellFormed s.logical := by
  have h1 : Reachable step KeepsLinks Empty _ :=
    .next (.allocPhysical 1 {} (some 1)) (.start rfl) (fun _ _ _ _ => .inr (.inl rfl)) rfl
  have h2 : Reachable step KeepsLinks Empty _ :=
    .next (.allocPhysical 2 {} (some 2)) h1 (fun _ _ _ _ => .inl ⟨by decide, by unfold Unused; decide⟩) rfl
  have h3 : Reachable step KeepsLinks Empty _ := .next (.deletePhysical 1 true) h2 (by unfold KeepsLinks; decide) rfl
  exact ⟨_, rfl, reachable_wellFormed h3⟩

/-- Entry 2 is appended and deleted again: the tail names its freed node while
entry 1 is still linked. -/
theorem deleted_tail_not_wellFormed :
    ∃ s, Reachable step (fun _ _ => True) Empty s ∧ ¬ (WellFormed s.physical ∧ WellFormed s.logical) := by
  have h1 : Reachable step (fun _ _ => True) Empty _ :=
    .next (.allocPhysical 1 {} (some 1)) (.start rfl) trivial rfl
  have h2 : Reachable step (fun _ _ => True) Empty _ := .next (.allocPhysical 2 {} (some 2)) h1 trivial rfl
  have h3 : Reachable step (fun _ _ => True) Empty _ := .next (.deletePhysical 2 true) h2 trivial rfl
  exact ⟨_, h3, fun hw => absurd (hw.1.tail _ rfl) (by decide)⟩

end OiUserland.EntityMib.ListRuns
