import OiUserland.EntityMib.Integrity

open OiUserland.EntityMib
open EntityTable MibState PhysicalContainsTable LPMappingTable PhysicalTable LogicalTable
open ListInvariant MappingRows Frames Integrity

namespace OiUserland.EntityMib.Purge

open AliasMappingTable
variable {s : State} {x p c l : Int}

structure NoPhysical (s : State) (x : Int) : Prop where
  parent : ∀ c, ¬ ContainsPair s x c
  child : ∀ p, ¬ ContainsPair s p x
  lpMapping : ∀ l, ¬ LPPair s l x
  aliasMapping : ∀ l, ¬ AliasPair s x l

structure NoLogical (s : State) (x : Int) : Prop where
  lpMapping : ∀ p, ¬ LPPair s x p
  aliasMapping : ∀ p, ¬ AliasPair s p x

theorem LivePhysical.guards (h : Consistent s) (hx : LivePhysical s x) :
    inRange x ∧ getPhysicalTableStaleEntry x s = none ∧ (getPhysicalTableEntry x s).isSome := by
  obtain ⟨h0, n, hn, rfl⟩ := hx
  refine ⟨h.physical.inRange hn h0, getTableStaleEntry_live h.physical hn, ?_⟩
  rw [getPhysicalTableEntry, getTableEntry_live h.physical hn h0]
  rfl

theorem LiveLogical.guards (h : Consistent s) (hx : LiveLogical s x) :
    inRange x ∧ getLogicalTableStaleEntry x s = none ∧ (getLogicalTableEntry x s).isSome := by
  obtain ⟨h0, n, hn, rfl⟩ := hx
  refine ⟨h.logical.inRange hn h0, getTableStaleEntry_live h.logical hn, ?_⟩
  rw [getLogicalTableEntry, getTableEntry_live h.logical hn h0]
  rfl

theorem deleteAliasPhysical_none (h : Consistent s) (hx : LivePhysical s x) (l : Int) :
    ¬ AliasPair (deleteAliasMappingPhysicalIndex x s).1 x l := by
  obtain ⟨hr, hs, -⟩ := LivePhysical.guards h hx
  rintro ⟨-, -, q, hq, hqx, -⟩
  simp only [deleteAliasMappingPhysicalIndex, hr, hs, Bool.not_true, Bool.false_eq_true, if_false,
    Option.isSome_none] at hq
  split at hq
  · exact h.aliasRows.not_mem_removeRow hq hqx
  · rename_i hf
    exact findRow_none hf q hq hqx

theorem deleteLPPhysical_none (h : Consistent s) (hx : LivePhysical s x) (l : Int) :
    ¬ LPPair (deleteLPMappingPhysicalIndex x s).1 l x := by
  obtain ⟨hr, hs, hg⟩ := LivePhysical.guards h hx
  rw [deleteLPMappingPhysicalIndex_live hr hs hg]
  rintro ⟨-, -, q, hq, -, hm⟩
  obtain ⟨r, hmem, rfl⟩ := List.mem_map.mp hq
  rw [negateInRow, elements_map rfl] at hm
  exact not_mem_negateIndex hx.1 (h.lpValues r hmem) hm

theorem deleteLPLogical_none (h : Consistent s) (hx : LiveLogical s x) (p : Int) :
    ¬ LPPair (deleteLPMappingLogicalIndex x s).1 x p := by
  obtain ⟨hr, hs, hg⟩ := LiveLogical.guards h hx
  have hg' : (getLogicalTableEntry x s).isNone = false := by simpa using hg
  rintro ⟨-, -, q, hq, hqx, -⟩
  simp only [deleteLPMappingLogicalIndex, hr, hs, hg', Bool.not_true, Bool.false_eq_true, if_false,
    Option.isSome_none] at hq
  split at hq
  · exact h.lpRows.not_mem_removeRow hq hqx
  · rename_i hf
    exact findRow_none hf q hq hqx

theorem deleteAliasLogical_none (h : Consistent s) (hx : LiveLogical s x) (p : Int) :
    ¬ AliasPair (deleteAliasMappingLogicalIndex x s).1 p x := by
  obtain ⟨hr, hs, -⟩ := LiveLogical.guards h hx
  have he : (deleteAliasMappingLogicalIndex x s).1 =
      { s with aliasMapping := s.aliasMapping.map (dropInRow x) } := by
    simp [deleteAliasMappingLogicalIndex, hr, hs]
  rw [he, aliasPair_iff]
  rintro ⟨hp, q, hq, rfl, hm⟩
  obtain ⟨r, hmem, rfl⟩ := List.mem_map.mp hq
  rw [dropInRow_index] at hp
  rw [dropInRow_indices, if_pos hp] at hm
  exact (h.aliasValues r hmem).not_mem_erase hm

theorem resetContainedIn_tables (p : Int) (s : State) (c : Int) :
    (resetContainedIn p s c).contains = s.contains ∧ (resetContainedIn p s c).lpMapping = s.lpMapping ∧
      (resetContainedIn p s c).aliasMapping = s.aliasMapping := by
  rcases resetContainedIn_cases (p := p) (c := c) (s := s) with h | h <;> rw [h]
  · exact ⟨rfl, rfl, rfl⟩
  · exact ⟨rfl, rfl, rfl⟩

theorem foldl_reset_tables (p : Int) (cs : List Int) (s : State) :
    (cs.foldl (resetContainedIn p) s).contains = s.contains ∧
      (cs.foldl (resetContainedIn p) s).lpMapping = s.lpMapping ∧
      (cs.foldl (resetContainedIn p) s).aliasMapping = s.aliasMapping := by
  induction cs generalizing s with
  | nil => exact ⟨rfl, rfl, rfl⟩
  | cons c cs ih =>
      obtain ⟨h1, h2, h3⟩ := resetContainedIn_tables p s c
      obtain ⟨g1, g2, g3⟩ := ih (resetContainedIn p s c)
      exact ⟨g1.trans h1, g2.trans h2, g3.trans h3⟩

theorem deleteContainsParent_tables (p : Int) (mem : Bool) (s : State) :
    (deletePhysicalContainsParentIndex p mem s).1.lpMapping = s.lpMapping ∧
      (deletePhysicalContainsParentIndex p mem s).1.aliasMapping = s.aliasMapping := by
  rcases deletePhysicalContainsParentIndex_cases (p := p) (s := s) mem with h | h <;> rw [h]
  · exact ⟨rfl, rfl⟩
  · exact (foldl_reset_tables p _ _).2

theorem deleteContainsParent_none (h : Consistent s) (hx : LivePhysical s x) (mem : Bool) (c : Int) :
    ¬ ContainsPair (deletePhysicalContainsParentIndex x mem s).1 x c := by
  obtain ⟨hr, hs, -⟩ := LivePhysical.guards h hx
  rintro ⟨-, -, q, hq, hqx, -⟩
  simp only [deletePhysicalContainsParentIndex, hr, hs, Bool.not_true, Bool.false_eq_true, if_false,
    Option.isSome_none] at hq
  split at hq
  · rename_i hf
    exact findRow_none hf q hq hqx
  · rw [(foldl_reset_tables x _ _).1] at hq
    exact h.containsRows.not_mem_removeRow hq hqx

theorem deleteContains_tables (p c : Int) (s : State) :
    (deletePhysicalContainsTableEntry p c s).1.lpMapping = s.lpMapping ∧
      (deletePhysicalContainsTableEntry p c s).1.aliasMapping = s.aliasMapping := by
  rcases deletePhysicalContainsTableEntry_cases (p := p) (c := c) (s := s) with h | ⟨r, -, h⟩ <;> rw [h]
  · exact ⟨rfl, rfl⟩
  · exact (resetContainedIn_tables p _ c).2

def At (s : State) (k j : Nat) (c : Int) : Prop :=
  ∃ r, s.contains[k]? = some r ∧ 0 < r.index ∧ (elements r)[j]? = some c

theorem containsPair_iff_at : ContainsPair s p c ↔
    0 < c ∧ ∃ (k j : Nat) (r : MappingRow Int), s.contains[k]? = some r ∧ r.index = p ∧ 0 < p ∧ (elements r)[j]? = some c := by
  constructor
  · rintro ⟨hp, hc, r, hr, he, hm⟩
    obtain ⟨k, hk⟩ := List.mem_iff_getElem?.mp hr
    obtain ⟨j, hj⟩ := List.mem_iff_getElem?.mp hm
    exact ⟨hc, k, j, r, hk, he, hp, hj⟩
  · rintro ⟨hc, k, j, r, hk, he, hp, hj⟩
    exact ⟨hp, hc, r, List.mem_of_getElem? hk, he, List.mem_of_getElem? hj⟩

structure Removable (s : State) (c : Int) : Prop where
  rows : OneRow s.contains
  child : inRange c ∧ getPhysicalTableStaleEntry c s = none
  parents : ∀ p, ContainsPair s p c → inRange p ∧ getPhysicalTableStaleEntry p s = none

theorem LivePhysical.removable (h : Consistent s) (hx : LivePhysical s x) : Removable s x where
  rows := h.containsRows
  child := by
    obtain ⟨hr, hs, -⟩ := LivePhysical.guards h hx
    exact ⟨hr, hs⟩
  parents p hp := by
    obtain ⟨hr, hs, -⟩ := LivePhysical.guards h (h.contains p x hp).1
    exact ⟨hr, hs⟩

theorem deleteContains_pair {r : MappingRow Int} (hp : inRange p ∧ getPhysicalTableStaleEntry p s = none)
    (hc : inRange c ∧ getPhysicalTableStaleEntry c s = none) (hr : findRow p s.contains = some r)
    (hm : c ∈ elements r) : deletePhysicalContainsTableEntry p c s =
      (resetContainedIn p { s with contains := dropChild p c r s.contains } c, 0) := by
  simp [deletePhysicalContainsTableEntry, hp, hc, hr, hm, dropChild]

theorem deleteContains_pairs (p c : Int) (s : State) {a b : Int}
    (h : ContainsPair (deletePhysicalContainsTableEntry p c s).1 a b) : ContainsPair s a b := by
  rcases deletePhysicalContainsTableEntry_cases (p := p) (c := c) (s := s) with he | ⟨r, hr, he⟩ <;> rw [he] at h
  · exact h
  · refine containsPair_dropChild (p := p) (c := c) hr ?_
    simpa only [ContainsPair, (resetContainedIn_tables _ _ c).1] using h

theorem oneRow_deleteContains (h : OneRow s.contains) (p c : Int) :
    OneRow (deletePhysicalContainsTableEntry p c s).1.contains := by
  rcases deletePhysicalContainsTableEntry_cases (p := p) (c := c) (s := s) with he | ⟨r, hr, he⟩ <;> rw [he]
  · exact h
  · rw [(resetContainedIn_tables p _ c).1]
    exact OneRow.setValues h

theorem Removable.delete (h : Removable s c) (p : Int) :
    Removable (deletePhysicalContainsTableEntry p c s).1 c where
  rows := oneRow_deleteContains h.rows p c
  child := ⟨h.child.1, ((deletePhysicalContainsTableEntry_same p c s).stale c).mpr h.child.2⟩
  parents q hq := by
    obtain ⟨hr, hs⟩ := h.parents q (deleteContains_pairs p c s hq)
    exact ⟨hr, ((deletePhysicalContainsTableEntry_same p c s).stale q).mpr hs⟩

theorem at_deleteContains (h : OneRow s.contains) (hc : 0 < c) {k j : Nat}
    (ha : At (deletePhysicalContainsTableEntry p c s).1 k j c) : At s k j c := by
  rcases deletePhysicalContainsTableEntry_cases (p := p) (c := c) (s := s) with he | ⟨r, hr, he⟩
  · rwa [he] at ha
  · obtain ⟨q, hq, hq0, hj⟩ := ha
    rw [he, (resetContainedIn_tables p _ c).1] at hq
    simp only [dropChild, setValues_eq_map h hr, List.getElem?_map] at hq
    obtain ⟨q', hq', rfl⟩ := Option.map_eq_some_iff.mp hq
    split at hj
    · rw [elements_map rfl, List.getElem?_map] at hj
      obtain ⟨z, -, hz⟩ := Option.map_eq_some_iff.mp hj
      split at hz <;> omega
    · rename_i hne
      rw [if_neg hne] at hq0
      exact ⟨q', hq', hq0, hj⟩

theorem not_at_deleteContains (h : Removable s c) {k j : Nat} {r : MappingRow Int}
    (hk : s.contains[k]? = some r) (hj : (elements r)[j]? = some c) (hr : 0 < r.index) :
    ¬ At (deletePhysicalContainsTableEntry r.index c s).1 k j c := by
  have hc : 0 < c := inRange_pos h.child.1
  have hrow : r ∈ s.contains := List.mem_of_getElem? hk
  have hm : c ∈ elements r := List.mem_of_getElem? hj
  have hp := h.parents r.index ⟨hr, hc, r, hrow, rfl, hm⟩
  have hf := findRow_mem h.rows hrow
  rintro ⟨q, hq, -, hqj⟩
  rw [deleteContains_pair hp h.child hf hm, (resetContainedIn_tables _ _ c).1] at hq
  simp only [dropChild, setValues_eq_map h.rows hf, List.getElem?_map, hk, Option.map_some,
    if_true, Option.some.injEq] at hq
  rw [← hq, elements_map rfl, List.getElem?_map] at hqj
  obtain ⟨z, -, hz⟩ := Option.map_eq_some_iff.mp hqj
  split at hz <;> omega

theorem deleteChildAt_cases (c : Int) (acc : State × Int) (pos : Nat × Nat) :
    ((deleteChildAt c acc pos).1 = acc.1 ∧ ¬ ∃ r, acc.1.contains[pos.1]? = some r ∧ (elements r)[pos.2]? = some c) ∨
    ∃ r, acc.1.contains[pos.1]? = some r ∧ (elements r)[pos.2]? = some c ∧
      (deleteChildAt c acc pos).1 = (deletePhysicalContainsTableEntry r.index c acc.1).1 := by
  unfold deleteChildAt
  split
  · rename_i r hr
    split
    · rename_i hj
      exact .inr ⟨r, hr, hj, rfl⟩
    · rename_i hj
      refine .inl ⟨rfl, ?_⟩
      rintro ⟨q, hq, hqj⟩
      obtain rfl := Option.some.inj (hr.symm.trans hq)
      exact hj hqj
  · rename_i hr
    refine .inl ⟨rfl, ?_⟩
    rintro ⟨q, hq, -⟩
    simp [hr] at hq

theorem foldl_deleteChildAt {k j : Nat} (ps : List (Nat × Nat)) (acc : State × Int)
    (h : Removable acc.1 c) (ha : At (ps.foldl (deleteChildAt c) acc).1 k j c) :
    (k, j) ∉ ps ∧ At acc.1 k j c := by
  have hc : 0 < c := inRange_pos h.child.1
  induction ps generalizing acc with
  | nil => exact ⟨by simp, ha⟩
  | cons pos ps ih =>
      have hstep : Removable (deleteChildAt c acc pos).1 c ∧
          (At (deleteChildAt c acc pos).1 k j c → pos ≠ (k, j) ∧ At acc.1 k j c) := by
        rcases deleteChildAt_cases c acc pos with ⟨he, hno⟩ | ⟨r, hr, hj, he⟩ <;> rw [he]
        · refine ⟨h, fun hb => ⟨?_, hb⟩⟩
          rintro rfl
          obtain ⟨r, hr, -, hj⟩ := hb
          exact hno ⟨r, hr, hj⟩
        · refine ⟨h.delete _, fun hb => ⟨?_, at_deleteContains h.rows hc hb⟩⟩
          rintro rfl
          obtain ⟨q, hq, hq0, -⟩ := at_deleteContains h.rows hc hb
          obtain rfl := Option.some.inj (hr.symm.trans hq)
          exact not_at_deleteContains h hr hj hq0 hb
      obtain ⟨hmem, hat⟩ := ih _ hstep.1 ha
      obtain ⟨hne, hat⟩ := hstep.2 hat
      exact ⟨by simpa [hmem] using hne.symm, hat⟩

theorem at_mem_positions {k j : Nat} (h : At s k j c) : (k, j) ∈ positions s.contains := by
  obtain ⟨r, hr, -, hj⟩ := h
  have hk := (List.getElem?_eq_some_iff.mp hr).1
  have hj' := (List.getElem?_eq_some_iff.mp hj).1
  simp only [positions, List.mem_flatMap, List.mem_range, List.mem_map]
  exact ⟨k, hk, j, by simpa [hr] using hj', rfl⟩

theorem deleteContainsChild_removes (h : Removable s c) (p : Int) :
    ¬ ContainsPair (deletePhysicalContainsChildIndex c s).1 p c := by
  intro hp
  obtain ⟨-, k, j, r, hk, rfl, hr0, hj⟩ := containsPair_iff_at.mp hp
  have he : (deletePhysicalContainsChildIndex c s).1 =
      ((positions s.contains).foldl (deleteChildAt c) (s, 0)).1 := by
    simp [deletePhysicalContainsChildIndex, h.child]
  rw [he] at hk
  obtain ⟨hnot, hat⟩ := foldl_deleteChildAt _ (s, 0) h ⟨r, hk, hr0, hj⟩
  exact hnot (at_mem_positions hat)

theorem deleteContainsChild_none (h : Consistent s) (hx : LivePhysical s x) (p : Int) :
    ¬ ContainsPair (deletePhysicalContainsChildIndex x s).1 p x :=
  deleteContainsChild_removes (LivePhysical.removable h hx) p

theorem deleteContainsChild_pairs (x : Int) (s : State) :
    ∀ p c, ContainsPair (deletePhysicalContainsChildIndex x s).1 p c → ContainsPair s p c :=
  deletePhysicalContainsChildIndex_induction (P := fun t => ∀ p c, ContainsPair t p c → ContainsPair s p c)
    (fun q t ht p c hp => ht p c (deleteContains_pairs q x t hp)) fun _ _ hp => hp

theorem deleteContainsChild_tables (x : Int) (s : State) :
    (deletePhysicalContainsChildIndex x s).1.lpMapping = s.lpMapping ∧
      (deletePhysicalContainsChildIndex x s).1.aliasMapping = s.aliasMapping :=
  deletePhysicalContainsChildIndex_induction
    (P := fun t => t.lpMapping = s.lpMapping ∧ t.aliasMapping = s.aliasMapping)
    (fun p t ht => ⟨(deleteContains_tables p x t).1.trans ht.1, (deleteContains_tables p x t).2.trans ht.2⟩)
    ⟨rfl, rfl⟩

theorem purgePhysical_none (h : Consistent s) (hx : LivePhysical s x) (mem : Bool) :
    Consistent (purgePhysical x mem s) ∧ NoPhysical (purgePhysical x mem s) x := by
  have h1 := consistent_deleteAliasPhysical h x
  have n1 := deleteAliasPhysical_none h hx
  have l1 := (deleteAliasMappingPhysicalIndex_same x s).livePhysical hx
  generalize hs1 : (deleteAliasMappingPhysicalIndex x s).1 = s1 at h1 n1 l1
  have h2 := consistent_deleteLPPhysical h1 x
  have n2 := deleteLPPhysical_none h1 l1
  have l2 := (deleteLPMappingPhysicalIndex_same x s1).livePhysical l1
  have a2 : (deleteLPMappingPhysicalIndex x s1).1.aliasMapping = s1.aliasMapping := by
    rcases deleteLPMappingPhysicalIndex_cases (p := x) (s := s1) with he | ⟨-, he⟩ <;> rw [he]
  generalize hs2 : (deleteLPMappingPhysicalIndex x s1).1 = s2 at h2 n2 l2 a2
  have h3 := consistent_deleteContainsParent h2 x mem
  have n3 := deleteContainsParent_none h2 l2 mem
  have l3 := (deletePhysicalContainsParentIndex_same x mem s2).livePhysical l2
  have t3 := deleteContainsParent_tables x mem s2
  generalize hs3 : (deletePhysicalContainsParentIndex x mem s2).1 = s3 at h3 n3 l3 t3
  have t4 := deleteContainsChild_tables x s3
  have he : purgePhysical x mem s = (deletePhysicalContainsChildIndex x s3).1 := by
    simp only [purgePhysical, hs1, hs2, hs3]
  rw [he]
  refine ⟨consistent_deleteContainsChild h3 x, ?_, deleteContainsChild_none h3 l3, ?_, ?_⟩
  · exact fun c hp => n3 c (deleteContainsChild_pairs x s3 x c hp)
  · intro l hp
    exact n2 l (by simpa only [LPPair, t4.1, t3.1] using hp)
  · intro l hp
    exact n1 l (by simpa only [AliasPair, t4.2, t3.2, a2] using hp)

theorem purgeLogical_none (h : Consistent s) (hx : LiveLogical s x) :
    Consistent (purgeLogical x s) ∧ NoLogical (purgeLogical x s) x := by
  have h1 := consistent_deleteAliasLogical h x
  have n1 := deleteAliasLogical_none h hx
  have l1 := (deleteAliasMappingLogicalIndex_same x s).liveLogical hx
  have a2 : (purgeLogical x s).aliasMapping = (deleteAliasMappingLogicalIndex x s).1.aliasMapping := by
    unfold purgeLogical
    rcases deleteLPMappingLogicalIndex_cases (l := x) (s := (deleteAliasMappingLogicalIndex x s).1) with
      he | he <;> rw [he]
  refine ⟨consistent_deleteLPLogical h1 x, deleteLPLogical_none h1 l1, fun p hp => n1 p ?_⟩
  simpa only [AliasPair, a2] using hp

end OiUserland.EntityMib.Purge

namespace OiUserland.EntityMib.IntegrityRuns

open Lib.Runs Module EntrySteps Purge

variable {s s' : State} {o : Op} {x y : Int}

theorem noPhysical_neg (s : State) : NoPhysical s (-1) where
  parent c hp := by simp [ContainsPair] at hp
  child p hp := by simp [ContainsPair] at hp
  lpMapping l hp := by simp [LPPair] at hp
  aliasMapping l hp := by simp [AliasPair] at hp

theorem noLogical_neg (s : State) : NoLogical s (-1) where
  lpMapping p hp := by simp [LPPair] at hp
  aliasMapping p hp := by simp [AliasPair] at hp

theorem consistent_of_entries (h : Consistent s) (hx : NoPhysical s x) (hy : NoLogical s y)
    (hc : s'.contains = s.contains) (hlp : s'.lpMapping = s.lpMapping) (ha : s'.aliasMapping = s.aliasMapping)
    (hp : ∀ n ∈ s.physical.head, 0 < n.index → n.index ≠ x → n ∈ s'.physical.head)
    (hl : ∀ n ∈ s.logical.head, 0 < n.index → n.index ≠ y → n ∈ s'.logical.head)
    (hop : Ordered s'.physical.head) (hol : Ordered s'.logical.head)
    (hsp : s'.physical.size = s'.physical.head.length) (hsl : s'.logical.size = s'.logical.head.length) :
    Consistent s' := by
  have livep (z : Int) (hz : LivePhysical s z) (hne : z ≠ x) : LivePhysical s' z := by
    obtain ⟨h0, n, hn, rfl⟩ := hz
    exact ⟨h0, n, hp n hn h0 hne, rfl⟩
  have livel (z : Int) (hz : LiveLogical s z) (hne : z ≠ y) : LiveLogical s' z := by
    obtain ⟨h0, n, hn, rfl⟩ := hz
    exact ⟨h0, n, hl n hn h0 hne, rfl⟩
  refine ⟨⟨fun p c hpair => ?_, fun l p hpair => ?_, fun p l hpair => ?_⟩, hop, hol, hsp, hsl,
    hc ▸ h.containsRows, hlp ▸ h.lpRows, ha ▸ h.aliasRows, hlp ▸ h.lpValues, ha ▸ h.aliasValues⟩
  · have hpair' : ContainsPair s p c := by simpa only [ContainsPair, hc] using hpair
    obtain ⟨h1, h2⟩ := h.contains p c hpair'
    refine ⟨livep p h1 ?_, livep c h2 ?_⟩
    · rintro rfl
      exact hx.parent c hpair'
    · rintro rfl
      exact hx.child p hpair'
  · have hpair' : LPPair s l p := by simpa only [LPPair, hlp] using hpair
    obtain ⟨h1, h2⟩ := h.lpMapping l p hpair'
    refine ⟨livel l h1 ?_, livep p h2 ?_⟩
    · rintro rfl
      exact hy.lpMapping p hpair'
    · rintro rfl
      exact hx.lpMapping l hpair'
  · have hpair' : AliasPair s p l := by simpa only [AliasPair, ha] using hpair
    obtain ⟨⟨h0, n, hn, rfl, hport⟩, h2⟩ := h.aliasMapping p l hpair'
    have hne : n.index ≠ x := by
      rintro rfl
      exact hx.aliasMapping l hpair'
    refine ⟨⟨h0, n, hp n hn h0 hne, rfl, hport⟩, h2.imp_right fun hz => livel l hz ?_⟩
    rintro rfl
    exact hy.aliasMapping n.index hpair'

theorem Added.mem {E : Type} {new n : Node E} {t t' : Table E} {i : Int} (h : Added new t t' i)
    (hn : n ∈ t.head) : n ∈ t'.head := by
  obtain ⟨last, hin, -⟩ := h.inserted
  exact (hin.mem_iff n).mpr (.inr hn)

theorem Added.length {E : Type} {new : Node E} {t t' : Table E} {i : Int} (h : Added new t t' i)
    (hs : t.size = t.head.length) : t'.size = t'.head.length := by
  obtain ⟨last, hin, -⟩ := h.inserted
  rw [h.size, hs, hin.length]
  rfl

theorem mem_retag_live {E : Type} {l : List (Node E)} (ho : Ordered l) {i : Int} {n : Node E} (hn : n ∈ l)
    (hi : n.index.natAbs = x.natAbs → n.index = i) : n ∈ retag x i l := by
  refine (mem_retag ho n).mpr ?_
  by_cases he : n.index.natAbs = x.natAbs
  · exact .inr ⟨n, hn, he, by rw [← hi he]⟩
  · exact .inl ⟨hn, he⟩

theorem length_retag {E : Type} {l : List (Node E)} {i : Int} (hi : i.natAbs = x.natAbs) :
    (retag x i l).length = l.length := by
  simpa using congrArg List.length (retag_key hi l)

theorem unlink_size {E : Type} {t : Table E} (hs : t.size = t.head.length) (h : ∃ z ∈ t.head, z.index = x) :
    t.size - 1 = (unlink x t.head).length := by
  have := length_unlink h
  omega

theorem mapping_consistent (h : Consistent s) (hm : mapping o = true) (hs : step o s = some s') :
    Consistent s' := by
  cases o with
  | addContains p c mem =>
      obtain ⟨r, hr, rfl⟩ := Option.map_eq_some_iff.mp hs
      exact consistent_addContains h hr
  | deleteContains p c => exact step_some rfl hs ▸ consistent_deleteContains h p c
  | deleteContainsParent p mem => exact step_some rfl hs ▸ consistent_deleteContainsParent h p mem
  | deleteContainsChild c => exact step_some rfl hs ▸ consistent_deleteContainsChild h c
  | addLP l p => exact step_some rfl hs ▸ consistent_addLP h l p
  | deleteLP l p => exact step_some rfl hs ▸ consistent_deleteLP h l p
  | deleteLPLogical l => exact step_some rfl hs ▸ consistent_deleteLPLogical h l
  | deleteLPPhysical p => exact step_some rfl hs ▸ consistent_deleteLPPhysical h p
  | addAlias p l mapId size => exact step_some rfl hs ▸ consistent_addAlias h p l mapId size
  | deleteAlias p l => exact step_some rfl hs ▸ consistent_deleteAlias h p l
  | deleteAliasLogical l => exact step_some rfl hs ▸ consistent_deleteAliasLogical h l
  | deleteAliasPhysical p => exact step_some rfl hs ▸ consistent_deleteAliasPhysical h p
  | _ => cases hm

theorem step_consistent (h : Consistent s) (hok : SafeInsert o s) (hs : step o s = some s') :
    Consistent s' := by
  cases step_entries hs with
  | unchanged => exact h
  | same hm _ => exact mapping_consistent h hm hs
  | allocPhysical he hr hfresh ht =>
      obtain ⟨hroom, hsafe⟩ := hok _ he hr rfl
      have hadd := addToTable_added h.physical h.physicalSize (rejectPhysical_bound hr) hroom hsafe ht
      exact consistent_of_entries h (noPhysical_neg s) (noLogical_neg s) rfl rfl rfl
        (fun n hn _ _ => Added.mem hadd hn) (fun n hn _ _ => hn) (hadd.ordered h.physical hfresh) h.logical
        (Added.length hadd h.physicalSize) h.logicalSize
  | deletePhysical hx hl =>
      rename_i x mem
      have hlive := live_mem hl
      obtain ⟨hc, hno⟩ := purgePhysical_none h ⟨inRange_pos hx, hlive⟩ mem
      obtain ⟨-, hlive'⟩ := (purgePhysical_same x mem s).livePhysical ⟨inRange_pos hx, hlive⟩
      exact consistent_of_entries hc hno (noLogical_neg _) rfl rfl rfl
        (fun n hn _ hne => (mem_unlink hc.physical n).mpr ⟨hn, hne⟩) (fun n hn _ _ => hn)
        (hc.physical.sublist (unlink_sublist x _)) hc.logical (unlink_size hc.physicalSize hlive') hc.logicalSize
  | stalePhysical hx hl =>
      rename_i x mem
      have h0 := inRange_pos hx
      obtain ⟨hc, hno⟩ := purgePhysical_none h ⟨h0, live_mem hl⟩ mem
      have habs : (-x).natAbs = x.natAbs := Int.natAbs_neg x
      exact consistent_of_entries hc hno (noLogical_neg _) rfl rfl rfl
        (fun n hn _ hne => mem_retag_live hc.physical hn (by omega)) (fun n hn _ _ => hn)
        (hc.physical.congr (retag_key habs _)) hc.logical
        (hc.physicalSize.trans (by rw [retagPhysical, length_retag habs])) hc.logicalSize
  | livePhysical hx hl =>
      rename_i x
      have h0 := inRange_pos hx
      exact consistent_of_entries h (noPhysical_neg s) (noLogical_neg s) rfl rfl rfl
        (fun n hn _ _ => mem_retag_live h.physical hn (by omega)) (fun n hn _ _ => hn)
        (h.physical.congr (retag_key rfl _)) h.logical
        (h.physicalSize.trans (by rw [retagPhysical, length_retag rfl])) h.logicalSize
  | allocLogical he hr hfresh ht =>
      obtain ⟨hroom, hsafe⟩ := hok _ he hr rfl
      have hadd := addToTable_added h.logical h.logicalSize (rejectLogical_bound hr) hroom hsafe ht
      exact consistent_of_entries h (noPhysical_neg s) (noLogical_neg s) rfl rfl rfl
        (fun n hn _ _ => hn) (fun n hn _ _ => Added.mem hadd hn) h.physical (hadd.ordered h.logical hfresh)
        h.physicalSize (Added.length hadd h.logicalSize)
  | deleteLogical hx hl =>
      rename_i x
      have hlive := live_mem hl
      obtain ⟨hc, hno⟩ := purgeLogical_none h ⟨inRange_pos hx, hlive⟩
      obtain ⟨-, hlive'⟩ := (purgeLogical_same x s).liveLogical ⟨inRange_pos hx, hlive⟩
      exact consistent_of_entries hc (noPhysical_neg _) hno rfl rfl rfl
        (fun n hn _ _ => hn) (fun n hn _ hne => (mem_unlink hc.logical n).mpr ⟨hn, hne⟩)
        hc.physical (hc.logical.sublist (unlink_sublist x _)) hc.physicalSize (unlink_size hc.logicalSize hlive')
  | staleLogical hx hl =>
      rename_i x
      have h0 := inRange_pos hx
      obtain ⟨hc, hno⟩ := purgeLogical_none h ⟨h0, live_mem hl⟩
      have habs : (-x).natAbs = x.natAbs := Int.natAbs_neg x
      exact consistent_of_entries hc (noPhysical_neg _) hno rfl rfl rfl
        (fun n hn _ _ => hn) (fun n hn _ hne => mem_retag_live hc.logical hn (by omega))
        hc.physical (hc.logical.congr (retag_key habs _)) hc.physicalSize
        (hc.logicalSize.trans (by rw [retagLogical, length_retag habs]))
  | liveLogical hx hl =>
      rename_i x
      have h0 := inRange_pos hx
      exact consistent_of_entries h (noPhysical_neg s) (noLogical_neg s) rfl rfl rfl
        (fun n hn _ _ => hn) (fun n hn _ _ => mem_retag_live h.logical hn (by omega))
        h.physical (h.logical.congr (retag_key rfl _)) h.physicalSize
        (h.logicalSize.trans (by rw [retagLogical, length_retag rfl]))

theorem empty_consistent (h : Empty s) : Consistent s := by
  cases h
  refine ⟨⟨fun p c hp => ?_, fun l p hp => ?_, fun p l hp => ?_⟩, .nil, .nil, rfl, rfl, .nil, .nil, .nil,
    by simp, by simp⟩
  · simp [ContainsPair] at hp
  · simp [LPPair] at hp
  · simp [AliasPair] at hp

/-- Every state of a run whose insertions do not trust a wrong tail pointer is
referentially intact. -/
theorem reachable_intact (h : Reachable step SafeInsert Empty s) : Intact s :=
  (h.invariant Consistent (fun _ => empty_consistent) fun _ _ _ hc hok hs =>
    step_consistent hc hok hs).toIntact

/-- Two entries, one recorded as the parent of the other. -/
theorem reachable_intact_pair : ∃ s : State, ContainsPair s 1 2 ∧ Intact s := by
  have h1 : Reachable step SafeInsert Empty _ :=
    .next (.allocPhysical 1 {} (some 1)) (.start rfl)
      (fun _ _ _ _ => ⟨.inr (.inl rfl), .inr (.inl (by decide))⟩) rfl
  have h2 : Reachable step SafeInsert Empty _ :=
    .next (.allocPhysical 2 {} (some 2)) h1
      (fun _ _ _ _ => ⟨.inl ⟨by decide, by unfold Unused; decide⟩, .inr (.inl (by decide))⟩) rfl
  have h3 : Reachable step SafeInsert Empty _ := .next (.addContains 1 2 {}) h2 trivial rfl
  exact ⟨_, by unfold ContainsPair; decide, reachable_intact h3⟩

def descending : List Op :=
  (List.range 203).map (fun k : Nat => .allocPhysical (405 - 2 * (k : Int)) {} (some (1000 + k)))

def truncating : List Op :=
  descending ++ [.addContains 401 403 {}, .deletePhysical 405 true,
    .allocPhysical 2 {} (some 1000), .allocPhysical 0 {} (some 1)]

set_option maxRecDepth 100000 in
theorem truncated_not_intact :
    ∃ s, Reachable step (fun _ _ => True) Empty s ∧ ¬ Intact s := by
  have hrun : (exec step truncating {}).any (fun s => decide (∀ n ∈ s.physical.head, n.index ≠ 401) &&
      decide (∃ r ∈ s.contains, r.index = 401 ∧ 403 ∈ elements r)) = true := by decide +kernel
  obtain ⟨s, hs, hp⟩ := (Option.any_eq_true _ _).mp hrun
  simp only [Bool.and_eq_true, decide_eq_true_eq] at hp
  refine ⟨s, reachable_of_exec truncating (fun _ _ _ => trivial) (.start rfl) hs, fun h => ?_⟩
  obtain ⟨⟨-, n, hn, hx⟩, -⟩ := h.contains 401 403 ⟨by decide, by decide, hp.2⟩
  exact hp.1 n hn hx

end OiUserland.EntityMib.IntegrityRuns
