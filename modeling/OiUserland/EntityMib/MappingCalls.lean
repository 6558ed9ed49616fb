import OiUserland.EntityMib.Containment
import OiUserland.EntityMib.MappingRuns

namespace OiUserland.EntityMib.MappingCalls

open Lib.Runs Lib.PairSets EntityTable Entities MibState PhysicalContainsTable LPMappingTable AliasMappingTable
open ListInvariant MappingRows Frames Module Purge
open RowSets MappingSets MappingRuns CycleSearch

variable {s t : State} {o : Op} {x p c l rc : Int}

inductive MappingTable
  | contains
  | lpMapping
  | aliasMapping
  deriving DecidableEq

def mappings (s : State) : MappingTable → Set (Int × Int)
  | .contains => {q | ContainsPair s q.1 q.2}
  | .lpMapping => {q | LPPair s q.1 q.2}
  | .aliasMapping => {q | AliasPair s q.1 q.2}

noncomputable def mappingCall : Op → Option (MappingTable × (Set (Int × Int) → Set (Int × Int) × Int))
  | .addContains p c _ => some (.contains, add (p, c))
  | .deleteContains p c => some (.contains, remove (p, c))
  | .deleteContainsParent p _ => some (.contains, removeAll fun q => q.1 = p)
  | .deleteContainsChild c => some (.contains, removeAll fun q => q.2 = c)
  | .addLP l p => some (.lpMapping, add (l, p))
  | .deleteLP l p => some (.lpMapping, remove (l, p))
  | .deleteLPLogical l => some (.lpMapping, removeAll fun q => q.1 = l)
  | .deleteLPPhysical p => some (.lpMapping, removeAll fun q => q.2 = p)
  | .addAlias p l _ _ => some (.aliasMapping, add (p, l))
  | .deleteAlias p l => some (.aliasMapping, remove (p, l))
  | .deleteAliasPhysical p => some (.aliasMapping, removeAll fun q => q.1 = p)
  | .deleteAliasLogical l => some (.aliasMapping, removeAll fun q => q.2 = l)
  | _ => none

structure Simulates (s : State) (o : Op) (r : State × Int) : Prop where
  pairs : ∀ k X, mappingCall o = some (k, X) → (mappings r.1 k, r.2) = X (mappings s k)
  others : ∀ k X, mappingCall o = some (k, X) → ∀ j ≠ k, mappings r.1 j = mappings s j
  unchanged : mappings r.1 = mappings s → r.1 = s

def livePort (s : State) (p : Int) : Prop :=
  ∃ n, getPhysicalTableEntry p s = some n ∧ n.entry.entPhysicalClass = classPort

/-- The calls on the mapping tables with indices of live entries, that close no cycle and
whose allocations succeed. -/
def LiveCall (s : State) : Op → Prop
  | .addContains p c mem => (getPhysicalTableEntry p s).isSome ∧ (getPhysicalTableEntry c s).isSome ∧
      NoCycle s p c ∧ mem.block = true ∧ mem.array = true
  | .deleteContains p c => (getPhysicalTableEntry p s).isSome ∧ (getPhysicalTableEntry c s).isSome
  | .deleteContainsParent p mem => (getPhysicalTableEntry p s).isSome ∧ mem = true
  | .deleteContainsChild c => (getPhysicalTableEntry c s).isSome
  | .addLP l p | .deleteLP l p => (getLogicalTableEntry l s).isSome ∧ (getPhysicalTableEntry p s).isSome
  | .deleteLPLogical l | .deleteAliasLogical l => (getLogicalTableEntry l s).isSome
  | .deleteLPPhysical p => (getPhysicalTableEntry p s).isSome
  | .addAlias p l _ _ | .deleteAlias p l => livePort s p ∧ (l = 0 ∨ (getLogicalTableEntry l s).isSome)
  | .deleteAliasPhysical p => livePort s p
  | _ => False

/-- A node that is to be removed has a pair that is not deleted. A child has no stale parent,
and an alias an identifier. -/
def Counted (s : State) : Op → Prop
  | .deleteContainsParent p _ => (findRow p s.contains).isSome → ∃ c, ContainsPair s p c
  | .deleteContainsChild c => ∀ p, ContainsPair s p c → getPhysicalTableStaleEntry p s = none
  | .deleteLPLogical l => (findRow l s.lpMapping).isSome → ∃ p, LPPair s l p
  | .deleteAliasPhysical p => (findRow p s.aliasMapping).isSome → ∃ l, AliasPair s p l
  | .addAlias _ _ mapId _ => mapId.isSome
  | _ => True

theorem mappings_contains (h : SoundTables s) : mappings s .contains = pairs liveIndex s.contains :=
  Set.ext fun _ => SoundRows.containsPair h.contains.toSoundRows

theorem mappings_lpMapping (h : SoundTables s) : mappings s .lpMapping = pairs liveIndex s.lpMapping :=
  Set.ext fun _ => SoundRows.lpPair h.lpMapping.toSoundRows

theorem mappings_aliasMapping (h : SoundTables s) : mappings s .aliasMapping = pairs liveAlias s.aliasMapping :=
  Set.ext fun _ => SoundRows.aliasPair h.aliasMapping.toSoundRows

section Outcomes

variable {k : MappingTable} {X : Set (Int × Int) → Set (Int × Int) × Int}

theorem simulates_same (ho : mappingCall o = some (k, X)) :
    Simulates s o (s, rc) ↔ (mappings s k, rc) = X (mappings s k) := by
  constructor
  · exact fun h => h.pairs k X ho
  · intro h
    refine ⟨fun j Y hj => ?_, fun _ _ _ _ _ => rfl, fun _ => rfl⟩
    rw [ho] at hj
    cases hj
    exact h

theorem simulates_change (ho : mappingCall o = some (k, X)) (hothers : ∀ j ≠ k, mappings t j = mappings s j)
    (hne : mappings t k ≠ mappings s k) :
    Simulates s o (t, rc) ↔ (mappings t k, rc) = X (mappings s k) := by
  constructor
  · exact fun h => h.pairs k X ho
  · intro h
    refine ⟨fun j Y hj => ?_, fun j Y hj => ?_, fun he => absurd (congrFun he k) hne⟩ <;> rw [ho] at hj <;> cases hj
    · exact h
    · exact hothers

theorem others_contains (hl : t.lpMapping = s.lpMapping) (ha : t.aliasMapping = s.aliasMapping) :
    ∀ j ≠ MappingTable.contains, mappings t j = mappings s j
  | .contains, hj => absurd rfl hj
  | .lpMapping, _ => by simp only [mappings, LPPair, hl]
  | .aliasMapping, _ => by simp only [mappings, AliasPair, ha]

theorem others_lp (rows : List (MappingRow Int)) :
    ∀ j ≠ MappingTable.lpMapping, mappings { s with lpMapping := rows } j = mappings s j
  | .contains, _ => rfl
  | .lpMapping, hj => absurd rfl hj
  | .aliasMapping, _ => rfl

theorem others_alias (rows : List (MappingRow LogicalAlias)) :
    ∀ j ≠ MappingTable.aliasMapping, mappings { s with aliasMapping := rows } j = mappings s j
  | .contains, _ => rfl
  | .lpMapping, _ => rfl
  | .aliasMapping, hj => absurd rfl hj

variable {q : Int × Int}

theorem simulates_present (ho : mappingCall o = some (k, add q)) (hq : q ∈ mappings s k) :
    Simulates s o (s, 1) :=
  (simulates_same ho).mpr (add_of_mem hq).symm

theorem simulates_inserted (ho : mappingCall o = some (k, add q))
    (hothers : ∀ j ≠ k, mappings t j = mappings s j) (hq : q ∉ mappings s k)
    (ht : mappings t k = insert q (mappings s k)) : Simulates s o (t, 0) := by
  have hne : mappings t k ≠ mappings s k := by
    rw [ht]
    exact insert_ne hq
  rw [simulates_change ho hothers hne, ht, add_of_notMem hq]

theorem simulates_absent (ho : mappingCall o = some (k, remove q)) (hq : q ∉ mappings s k) :
    Simulates s o (s, -1) :=
  (simulates_same ho).mpr (remove_of_notMem hq).symm

theorem simulates_removed (ho : mappingCall o = some (k, remove q))
    (hothers : ∀ j ≠ k, mappings t j = mappings s j) (hq : q ∈ mappings s k)
    (ht : mappings t k = mappings s k \ {q}) : Simulates s o (t, 0) := by
  have hne : mappings t k ≠ mappings s k := by
    rw [ht]
    exact sdiff_ne (P := (· = q)) hq rfl
  rw [simulates_change ho hothers hne, ht, remove_of_mem hq]

variable {α : Type} {live : α → Option Int} {rows : List (MappingRow α)} {r : MappingRow α}

theorem simulates_noRow (ho : mappingCall o = some (k, removeAll fun q => q.1 = x))
    (hs : mappings s k = pairs live rows) (hr : findRow x rows = none) : Simulates s o (s, -1) := by
  rw [simulates_same ho, hs, removeAll_noRow hr]

theorem simulates_row (ho : mappingCall o = some (k, removeAll fun q => q.1 = x))
    (hothers : ∀ j ≠ k, mappings t j = mappings s j) (h : SoundRows live rows) (hr : findRow x rows = some r)
    (hs : mappings s k = pairs live rows) (ht : mappings t k = pairs live (removeRow x rows))
    (hrc : rc = (liveValues live r).length) : Simulates s o (t, rc) ↔ ∃ z, (x, z) ∈ mappings s k := by
  have hrow (z : Int) : (x, z) ∈ mappings s k ↔ z ∈ liveValues live r := by
    rw [hs]
    exact mem_pairs_row h.oneRow hr
  constructor
  · intro hsim
    have hspec := hsim.pairs k _ ho
    rw [hs, removeAll_row h hr, Prod.mk.injEq, hrc] at hspec
    by_cases hnil : liveValues live r = []
    · rw [if_pos hnil, hnil] at hspec
      cases hspec.2
    · obtain ⟨z, hz⟩ := List.exists_mem_of_ne_nil _ hnil
      exact ⟨z, (hrow z).mpr hz⟩
  · intro ⟨z, hz⟩
    have hne : mappings t k ≠ mappings s k := by
      rw [ht, pairs_removeRow h.oneRow, ← hs]
      exact sdiff_ne (P := fun q => q.1 = x) hz rfl
    have hnil := List.ne_nil_of_mem ((hrow z).mp hz)
    rw [simulates_change ho hothers hne, hs, removeAll_row h hr, if_neg hnil, ht, hrc]

theorem simulates_values (ho : mappingCall o = some (k, removeAll fun q => q.2 = x))
    (hothers : ∀ j ≠ k, mappings t j = mappings s j) (h : SoundRows live rows)
    (hs : mappings s k = pairs live rows) (ht : mappings t k = pairs live rows \ {q | q.2 = x}) {n : Nat}
    (hn : n = rows.countP fun r => decide (x ∈ liveValues live r)) (hsame : n = 0 → t = s) :
    Simulates s o (t, if n = 0 then -1 else n) := by
  by_cases h0 : n = 0
  · rw [hsame h0, simulates_same ho, hs, removeAll_value h, ← hn, Prod.mk.injEq, if_pos h0]
    refine ⟨?_, rfl⟩
    rw [← ht, hsame h0, hs]
  · have hne : mappings t k ≠ mappings s k := by
      rw [hn] at h0
      obtain ⟨r, hr, hx⟩ := List.countP_pos_iff.mp (Nat.pos_of_ne_zero h0)
      have hmem : (r.index, x) ∈ pairs live rows := ⟨r, hr, rfl, by simpa using hx⟩
      rw [ht, hs]
      exact sdiff_ne (P := fun q => q.2 = x) hmem rfl
    rw [simulates_change ho hothers hne, hs, removeAll_value h, ht, ← hn]

end Outcomes

theorem addLP_simulates (h : SoundTables s) (hl : (getLogicalTableEntry l s).isSome)
    (hp : (getPhysicalTableEntry p s).isSome) : Simulates s (.addLP l p) (addLPMappingTableEntry l p s) := by
  obtain ⟨hlr, hls, hln⟩ := liveLogical_guards hl
  obtain ⟨hpr, hps, hpn⟩ := live_guards hp
  have h0 := inRange_pos hpr
  have hset := mappings_lpMapping h
  have hstored {rows : List (MappingRow Int)} (hrows : SoundLP rows)
      (hnew : (l, p) ∉ pairs liveIndex s.lpMapping)
      (hin : pairs liveIndex rows = insert (l, p) (pairs liveIndex s.lpMapping)) :
      Simulates s (.addLP l p) ({ s with lpMapping := rows }, 0) := by
    refine simulates_inserted rfl (others_lp rows) (by rwa [hset]) ?_
    rw [mappings_lpMapping (SoundTables.withLP h hrows), hset]
    exact hin
  have hpresent {r : MappingRow Int} (hr : findRow l s.lpMapping = some r) (hmem : p ∈ elements r) :
      Simulates s (.addLP l p) (s, 1) := by
    refine simulates_present rfl ?_
    rw [hset]
    exact (mem_pairs_row h.lpMapping.oneRow hr).mpr (mem_liveIndex.mpr ⟨h0, hmem⟩)
  rw [addLPMappingTableEntry, if_neg (by simp [hlr, hpr]), if_neg (by simp [hls, hps]), if_neg (by simp [hln, hpn])]
  split
  · rename_i r hr
    split
    · rename_i hv
      obtain ⟨h1, h2, h3⟩ := storeIndex_rows h.lpMapping hr h0 (show storeIndex p (elements r) = some [p] by simp [elements, hv, storeIndex])
      exact hstored h1 h2 h3
    · rename_i vs hv
      have hel : elements r = vs := by simp [elements, hv]
      split
      · rename_i hnone
        have honce := h.lpMapping.once r (findRow_some hr).1
        rw [← hel] at hnone
        exact hpresent hr ((storeIndex_none honce).mp hnone)
      · rename_i vs' hvs
        obtain ⟨h1, h2, h3⟩ := storeIndex_rows h.lpMapping hr h0 (hel ▸ hvs)
        exact hstored h1 h2 h3
  · rename_i hr
    obtain ⟨h1, h2, h3⟩ := appendLP_rows h.lpMapping hr (inRange_pos hlr) h0
    exact hstored h1 h2 h3

theorem deleteLP_simulates (h : SoundTables s) (hl : (getLogicalTableEntry l s).isSome)
    (hp : (getPhysicalTableEntry p s).isSome) : Simulates s (.deleteLP l p) (deleteLPMappingTableEntry l p s) := by
  obtain ⟨hlr, hls, hln⟩ := liveLogical_guards hl
  obtain ⟨hpr, hps, hpn⟩ := live_guards hp
  have h0 := inRange_pos hpr
  have hset := mappings_lpMapping h
  rw [deleteLPMappingTableEntry, if_neg (by simp [hlr, hpr]), if_neg (by simp [hls]), if_neg (by simp [hps]),
    if_neg (by simp [hln, hpn])]
  split
  · rename_i r hr
    have hrow : (l, p) ∈ mappings s .lpMapping ↔ p ∈ elements r := by
      rw [hset, mem_pairs_row h.lpMapping.oneRow hr, liveValues, mem_liveIndex]
      exact ⟨fun hm => hm.2, fun hm => ⟨h0, hm⟩⟩
    split
    · rename_i hmem
      obtain ⟨hrows, hpairs⟩ := negateIndex_rows h.lpMapping hr h0
      refine simulates_removed rfl (others_lp _) (hrow.mpr hmem) ?_
      rw [mappings_lpMapping (SoundTables.withLP h hrows), hset]
      exact hpairs
    · rename_i hmem
      exact simulates_absent rfl fun hin => hmem (hrow.mp hin)
  · rename_i hr
    refine simulates_absent rfl ?_
    rw [hset]
    exact notMem_pairs hr

theorem deleteLPLogical_simulates (h : SoundTables s) (hl : (getLogicalTableEntry l s).isSome) :
    Simulates s (.deleteLPLogical l) (deleteLPMappingLogicalIndex l s) ↔ Counted s (.deleteLPLogical l) := by
  obtain ⟨hlr, hls, hln⟩ := liveLogical_guards hl
  have hset := mappings_lpMapping h
  rw [deleteLPMappingLogicalIndex, if_neg (by simp [hlr]), if_neg (by simp [hls]), if_neg (by simp [hln])]
  split
  · rename_i r hr
    have hrc : (((elements r).countP fun z => decide (0 < z) : Nat) : Int) = (liveValues liveIndex r).length := by
      rw [countP_liveIndex]
      rfl
    have ht := mappings_lpMapping (SoundTables.withLP h (removeLP_sound (l := l) h.lpMapping))
    rw [simulates_row rfl (others_lp _) h.lpMapping.toSoundRows hr hset ht hrc, Counted, hr]
    exact ⟨fun hex _ => hex, fun hex => hex rfl⟩
  · rename_i hr
    rw [Counted, hr]
    exact ⟨fun _ hsome => absurd hsome (by simp), fun _ => simulates_noRow rfl hset hr⟩

theorem deleteLPPhysical_simulates (h : SoundTables s) (hp : (getPhysicalTableEntry p s).isSome) :
    Simulates s (.deleteLPPhysical p) (deleteLPMappingPhysicalIndex p s) := by
  obtain ⟨hpr, hps, hpn⟩ := live_guards hp
  have h0 := inRange_pos hpr
  have hcount : s.lpMapping.countP (fun r => decide (p ∈ elements r)) =
      s.lpMapping.countP (fun r => decide (p ∈ liveValues liveIndex r)) := by
    apply List.countP_congr
    intro r _
    simp only [decide_eq_true_eq, liveValues, mem_liveIndex, h0, true_and]
  obtain ⟨hrows, hpairs⟩ := negateInRow_rows h.lpMapping h0
  have ht : mappings { s with lpMapping := s.lpMapping.map (negateInRow p) } .lpMapping =
      pairs liveIndex s.lpMapping \ {q | q.2 = p} := by
    rw [mappings_lpMapping (SoundTables.withLP h hrows)]
    exact hpairs
  rw [deleteLPMappingPhysicalIndex, if_neg (by simp [hpr]), if_neg (by simp [hps]), if_neg (by simp [hpn])]
  refine simulates_values rfl (others_lp _) h.lpMapping.toSoundRows (mappings_lpMapping h) ht hcount ?_
  intro hnone
  have hmap : s.lpMapping.map (negateInRow p) = s.lpMapping.map id := by
    apply List.map_congr_left
    intro r hr
    exact negateInRow_of_notMem (by simpa using List.countP_eq_zero.mp hnone r hr)
  rw [hmap, List.map_id]

theorem livePort.guards (h : livePort s p) : inRange p ∧ getPhysicalTableStaleEntry p s = none := by
  obtain ⟨n, hn, _⟩ := h
  obtain ⟨hr, hs, _⟩ := live_guards (Option.isSome_of_eq_some hn)
  exact ⟨hr, hs⟩

theorem logicalOrZero_guards (h : l = 0 ∨ (getLogicalTableEntry l s).isSome) :
    0 ≤ l ∧ l ≤ maxEntityIndex ∧ getLogicalTableStaleEntry l s = none ∧
      ¬ (l ≠ 0 ∧ (getLogicalTableEntry l s).isNone) := by
  rcases h with rfl | h
  · exact ⟨by decide, by decide, rfl, fun hn => hn.1 rfl⟩
  · obtain ⟨hr, hs, hn⟩ := liveLogical_guards h
    have hbounds : 0 < l ∧ l ≤ maxEntityIndex := by simpa [inRange] using hr
    exact ⟨by omega, hbounds.2, hs, fun hnone => by simp [hn] at hnone⟩

theorem addAlias_simulates (h : SoundTables s) (hp : livePort s p)
    (hl : l = 0 ∨ (getLogicalTableEntry l s).isSome) (id : List Nat) (size : Nat) :
    Simulates s (.addAlias p l (some id) size) (addAliasMappingTableEntry p l (some id) size s) := by
  obtain ⟨hpr, hps⟩ := livePort.guards hp
  obtain ⟨h0, hmax, hls, hlog⟩ := logicalOrZero_guards hl
  obtain ⟨n, hn, hport⟩ := hp
  have hset := mappings_aliasMapping h
  have hstored {rows : List (MappingRow LogicalAlias)} (hrows : SoundAliases rows)
      (hnew : (p, l) ∉ pairs liveAlias s.aliasMapping)
      (hin : pairs liveAlias rows = insert (p, l) (pairs liveAlias s.aliasMapping)) :
      Simulates s (.addAlias p l (some id) size) ({ s with aliasMapping := rows }, 0) := by
    refine simulates_inserted rfl (others_alias rows) (by rwa [hset]) ?_
    rw [mappings_aliasMapping (SoundTables.withAliases h hrows), hset]
    exact hin
  have hbounds : ¬ (l < 0) ∧ ¬ (l > maxEntityIndex) := by omega
  unfold addAliasMappingTableEntry
  dsimp only
  rw [if_neg (by simp [hpr, hbounds]), if_neg (by simp [hps]), if_neg (by simp [hls]), hn]
  dsimp only
  rw [if_neg (by simp [hport]), if_neg hlog]
  split
  · rename_i r hr
    split
    · rename_i hv
      have hnil : elements r = [] := by simp [elements, hv]
      obtain ⟨h1, h2, h3⟩ := appendAlias_rows h.aliasMapping hr h0 (by simp [hnil]) id size
      rw [hnil] at h1 h3
      exact hstored h1 h2 h3
    · rename_i as hv
      have hel : elements r = as := by simp [elements, hv]
      split
      · rename_i hmem
        refine simulates_present rfl ?_
        rw [hset, mem_pairs_row h.aliasMapping.oneRow hr, liveValues, hel]
        exact (mem_liveAlias h0).mpr hmem
      · rename_i hmem
        obtain ⟨h1, h2, h3⟩ := appendAlias_rows h.aliasMapping hr h0 (by rwa [hel]) id size
        rw [hel] at h1 h3
        exact hstored h1 h2 h3
  · rename_i hr
    obtain ⟨h1, h2, h3⟩ := newAlias_rows h.aliasMapping hr (inRange_pos hpr) h0 id size
    exact hstored h1 h2 h3

theorem addAlias_null (p l : Int) (size : Nat) (s : State) :
    ¬ Simulates s (.addAlias p l none size) (addAliasMappingTableEntry p l none size s) := by
  intro h
  have hspec := h.pairs .aliasMapping _ rfl
  by_cases hq : (p, l) ∈ mappings s .aliasMapping
  · rw [add_of_mem hq] at hspec
    cases (Prod.mk.inj hspec).2
  · rw [add_of_notMem hq] at hspec
    cases (Prod.mk.inj hspec).2

theorem namesLogical_iff (hl : 0 ≤ l) (r : MappingRow LogicalAlias) :
    namesLogical l r = true ↔ l ∈ liveValues liveAlias r := by
  rw [liveValues, mem_liveAlias hl, List.mem_map]
  simp only [namesLogical, List.any_eq_true, Bool.and_eq_true, decide_eq_true_eq]
  constructor
  · rintro ⟨a, ha, _, he⟩
    exact ⟨a, ha, he⟩
  · rintro ⟨a, ha, rfl⟩
    exact ⟨a, ha, hl, rfl⟩

theorem deleteAlias_simulates (h : SoundTables s) (hp : livePort s p)
    (hl : l = 0 ∨ (getLogicalTableEntry l s).isSome) :
    Simulates s (.deleteAlias p l) (deleteAliasMappingTableEntry p l s) := by
  obtain ⟨hpr, hps⟩ := livePort.guards hp
  obtain ⟨h0, hmax, hls, _⟩ := logicalOrZero_guards hl
  have hset := mappings_aliasMapping h
  have hbounds : ¬ (l < 0) ∧ ¬ (l > maxEntityIndex) := by omega
  rw [deleteAliasMappingTableEntry, if_neg (by simp [hpr, hbounds]), if_neg (by simp [hps]), if_neg (by simp [hls])]
  split
  · rename_i r hr
    have hrow : (p, l) ∈ mappings s .aliasMapping ↔ namesLogical l r = true := by
      rw [hset, mem_pairs_row h.aliasMapping.oneRow hr, namesLogical_iff h0]
    split
    · rename_i hmem
      obtain ⟨hrows, hpairs⟩ := dropAlias_rows (l := l) h.aliasMapping hr
      refine simulates_removed rfl (others_alias _) (hrow.mpr hmem) ?_
      rw [mappings_aliasMapping (SoundTables.withAliases h hrows), hset]
      exact hpairs
    · rename_i hmem
      exact simulates_absent rfl fun hin => hmem (hrow.mp hin)
  · rename_i hr
    refine simulates_absent rfl ?_
    rw [hset]
    exact notMem_pairs hr

theorem countP_mapIds {as : List LogicalAlias}
    (h : ∀ a ∈ as, a.entAliasMapId.isSome ↔ 0 ≤ a.entAliasLogicalIndexorZero) :
    as.countP (fun a => a.entAliasMapId.isSome) = (as.filterMap liveAlias).length := by
  induction as with
  | nil => rfl
  | cons a as ih =>
      have ha := h a List.mem_cons_self
      have htail := ih fun b hb => h b (List.mem_cons_of_mem a hb)
      by_cases h0 : 0 ≤ a.entAliasLogicalIndexorZero
      · simp [liveAlias, h0, ha.mpr h0, htail]
      · have hnone : a.entAliasMapId.isSome = false := by simpa [h0] using ha
        simp [liveAlias, h0, hnone, htail]

theorem deleteAliasPhysical_simulates (h : SoundTables s) (hp : livePort s p) :
    Simulates s (.deleteAliasPhysical p) (deleteAliasMappingPhysicalIndex p s) ↔
      Counted s (.deleteAliasPhysical p) := by
  obtain ⟨hpr, hps⟩ := livePort.guards hp
  have hset := mappings_aliasMapping h
  rw [deleteAliasMappingPhysicalIndex, if_neg (by simp [hpr]), if_neg (by simp [hps])]
  split
  · rename_i r hr
    have hcount := countP_mapIds (h.aliasMapping.mapIds r (findRow_some hr).1)
    have hrc : (((elements r).countP fun a => a.entAliasMapId.isSome : Nat) : Int) =
        (liveValues liveAlias r).length := by
      rw [hcount]
      rfl
    have ht := mappings_aliasMapping (SoundTables.withAliases h (removeAliases_sound (p := p) h.aliasMapping))
    rw [simulates_row rfl (others_alias _) h.aliasMapping.toSoundRows hr hset ht hrc, Counted, hr]
    exact ⟨fun hex _ => hex, fun hex => hex rfl⟩
  · rename_i hr
    rw [Counted, hr]
    exact ⟨fun _ hsome => absurd hsome (by simp), fun _ => simulates_noRow rfl hset hr⟩

theorem dropAlias_of_notMem {as : List LogicalAlias}
    (h : l ∉ as.map LogicalAlias.entAliasLogicalIndexorZero) : dropAlias l as = as := by
  induction as with
  | nil => rfl
  | cons a as ih =>
      rw [List.map_cons, List.mem_cons, not_or] at h
      rw [dropAlias, if_neg fun ha => h.1 ha.2.symm, ih h.2]

theorem dropInRow_of_notMem {r : MappingRow LogicalAlias} (hl : 0 ≤ l) (h : l ∉ liveValues liveAlias r) :
    dropInRow l r = r := by
  obtain ⟨x, v⟩ := r
  rw [liveValues, mem_liveAlias hl] at h
  unfold dropInRow
  split
  · cases v with
    | none => rfl
    | some as => exact congrArg (fun bs => MappingRow.mk x (some bs)) (dropAlias_of_notMem h)
  · rfl

theorem deleteAliasLogical_simulates (h : SoundTables s) (hl : (getLogicalTableEntry l s).isSome) :
    Simulates s (.deleteAliasLogical l) (deleteAliasMappingLogicalIndex l s) := by
  obtain ⟨hlr, hls, _⟩ := liveLogical_guards hl
  have h0 : 0 ≤ l := (inRange_pos hlr).le
  have hcount : s.aliasMapping.countP (fun r => decide (0 < r.index) && namesLogical l r) =
      s.aliasMapping.countP (fun r => decide (l ∈ liveValues liveAlias r)) := by
    apply List.countP_congr
    intro r hr
    rw [Bool.and_eq_true, decide_eq_true_eq, namesLogical_iff h0, decide_eq_true_eq]
    exact ⟨fun hm => hm.2, fun hm => ⟨h.aliasMapping.positive r hr, hm⟩⟩
  obtain ⟨hrows, hpairs⟩ := dropInRow_rows h.aliasMapping l
  have ht : mappings { s with aliasMapping := s.aliasMapping.map (dropInRow l) } .aliasMapping =
      pairs liveAlias s.aliasMapping \ {q | q.2 = l} := by
    rw [mappings_aliasMapping (SoundTables.withAliases h hrows)]
    exact hpairs
  rw [deleteAliasMappingLogicalIndex, if_neg (by simp [hlr]), if_neg (by simp [hls])]
  refine simulates_values rfl (others_alias _) h.aliasMapping.toSoundRows (mappings_aliasMapping h) ht hcount ?_
  intro hnone
  rw [hcount] at hnone
  have hmap : s.aliasMapping.map (dropInRow l) = s.aliasMapping.map id := by
    apply List.map_congr_left
    intro r hr
    exact dropInRow_of_notMem h0 (by simpa using List.countP_eq_zero.mp hnone r hr)
  rw [hmap, List.map_id]

theorem addContains_simulates {mem : AddMemory} (h : SoundTables s) (hp : (getPhysicalTableEntry p s).isSome)
    (hc : (getPhysicalTableEntry c s).isSome) (hcycle : NoCycle s p c) (hblock : mem.block = true)
    (harray : mem.array = true) : ∃ r, addPhysicalContainsTableEntry p c mem s = some r ∧
      Simulates s (.addContains p c mem) r := by
  obtain ⟨hpr, hps, hpn⟩ := live_guards hp
  obtain ⟨hcr, hcs, hcn⟩ := live_guards hc
  have h0 := inRange_pos hcr
  have hne : p ≠ c := by
    rintro rfl
    exact hcycle p .refl (.single (.inr (.inr ⟨rfl, rfl⟩)))
  have hrej : rejectContains p c s = none := by
    rw [rejectContains, if_neg hne, if_neg (by simp [hpr, hcr]), if_neg (by simp [hps]), if_neg (by simp [hcs]),
      if_neg (by simp [hpn, hcn])]
  have hset := mappings_contains h
  refine ⟨linkChild p c mem s, ?_, ?_⟩
  · simp only [addPhysicalContainsTableEntry, hrej, search_noCycle hcycle]
  · rcases linkChild_rows h.contains hpr h0 mem with
      ⟨he, hin⟩ | ⟨_, hno⟩ | ⟨_, hno, _, _⟩ | ⟨rows, hrows, hnew, hin, he⟩
    · rw [he]
      exact simulates_present rfl (by rwa [hset])
    · exact absurd ⟨hblock, harray⟩ hno
    · rw [hblock] at hno
      cases hno
    · obtain ⟨htc, htl, hta⟩ := lowerContainedIn_tables p c { s with contains := rows }
      have hsound := sound_lower (SoundTables.withContains h hrows) p c
      rw [he]
      refine simulates_inserted rfl (others_contains htl hta) (by rwa [hset]) ?_
      rw [mappings_contains hsound, htc, hset]
      exact hin

theorem deleteContains_simulates (h : SoundTables s) (hp : (getPhysicalTableEntry p s).isSome)
    (hc : (getPhysicalTableEntry c s).isSome) :
    Simulates s (.deleteContains p c) (deletePhysicalContainsTableEntry p c s) := by
  obtain ⟨hpr, hps, _⟩ := live_guards hp
  obtain ⟨hcr, hcs, _⟩ := live_guards hc
  have h0 := inRange_pos hcr
  have hset := mappings_contains h
  rw [deletePhysicalContainsTableEntry, if_neg (by simp [hpr, hcr]), if_neg (by simp [hps]), if_neg (by simp [hcs])]
  split
  · rename_i hr
    refine simulates_absent rfl ?_
    rw [hset]
    exact notMem_pairs hr
  · rename_i r hr
    have hrow : (p, c) ∈ mappings s .contains ↔ c ∈ elements r := by
      rw [hset, mem_pairs_row h.contains.oneRow hr, liveValues, mem_liveIndex]
      exact ⟨fun hm => hm.2, fun hm => ⟨h0, hm⟩⟩
    split
    · rename_i hmem
      obtain ⟨hrows, hpairs⟩ := dropChild_rows h.contains hr c
      obtain ⟨htc, htl, hta⟩ := resetContainedIn_tables p { s with contains := dropChild p c r s.contains } c
      have hsound := sound_reset (SoundTables.withContains h hrows) p c
      refine simulates_removed rfl (others_contains (s := s) htl hta) (hrow.mpr hmem) ?_
      refine (mappings_contains hsound).trans ?_
      rw [htc, hset]
      exact hpairs
    · rename_i hmem
      exact simulates_absent rfl fun hin => hmem (hrow.mp hin)

theorem deleteContainsParent_simulates (h : SoundTables s) (hp : (getPhysicalTableEntry p s).isSome) :
    Simulates s (.deleteContainsParent p true) (deletePhysicalContainsParentIndex p true s) ↔
      Counted s (.deleteContainsParent p true) := by
  obtain ⟨hpr, hps, hpn⟩ := live_guards hp
  have hset := mappings_contains h
  rw [deletePhysicalContainsParentIndex, if_neg (by simp [hpr]), if_neg (by simp [hps])]
  split
  · rename_i hr
    rw [Counted, hr]
    exact ⟨fun _ hsome => absurd hsome (by simp), fun _ => simulates_noRow rfl hset hr⟩
  · rename_i r hr
    have hchildren : getPhysicalContainsChildren p true s = (elements r).filter fun z => decide (0 < z) := by
      simp [getPhysicalContainsChildren, hpn, hr]
    have hrc : (((getPhysicalContainsChildren p true s).countP fun z => decide (0 < z) : Nat) : Int) =
        (liveValues liveIndex r).length := by
      rw [hchildren, List.countP_filter, liveValues, ← countP_liveIndex]
      simp only [Bool.and_self]
    obtain ⟨htc, htl, hta⟩ := foldl_reset_tables p (getPhysicalContainsChildren p true s)
      { s with contains := removeRow p s.contains }
    have hsound := SoundTables.congr (SoundTables.withContains h (removeRow_sound (p := p) h.contains)) htc htl hta
    have ht := (mappings_contains hsound).trans (congrArg (pairs liveIndex) htc)
    dsimp only
    rw [simulates_row rfl (others_contains (s := s) htl hta) h.contains.toSoundRows hr hset ht hrc, Counted, hr]
    exact ⟨fun hex _ => hex, fun hex => hex rfl⟩

/-- What the double loop in deletePhysicalContainsChildIndex has taken out: `l` are the parents. -/
structure Taken (s : State) (c : Int) (acc : State × Int) (l : List Int) : Prop where
  sound : SoundTables acc.1
  removable : Removable acc.1 c
  lpMapping : acc.1.lpMapping = s.lpMapping
  aliasMapping : acc.1.aliasMapping = s.aliasMapping
  nodup : l.Nodup
  count : acc.2 = l.length
  parents : ∀ p ∈ l, (p, c) ∈ pairs liveIndex s.contains
  contains : pairs liveIndex acc.1.contains = pairs liveIndex s.contains \ {q | q.1 ∈ l ∧ q.2 = c}
  unchanged : l = [] → acc.1 = s

theorem taken_step {acc : State × Int} {l : List Int} (h : Taken s c acc l) (pos : Nat × Nat) :
    ∃ l, Taken s c (deleteChildAt c acc pos) l := by
  unfold deleteChildAt
  split
  · rename_i r hr
    split
    · rename_i hj
      have hmem : r ∈ acc.1.contains := List.mem_of_getElem? hr
      have hel : c ∈ elements r := List.mem_of_getElem? hj
      have hrow := findRow_mem h.removable.rows hmem
      have hc := inRange_pos h.removable.child.1
      have hpair : (r.index, c) ∈ pairs liveIndex acc.1.contains :=
        ⟨r, hmem, rfl, mem_liveIndex.mpr ⟨hc, hel⟩⟩
      have hguards := h.removable.parents r.index
        ((SoundRows.containsPair h.sound.contains.toSoundRows).mpr hpair)
      have hremovable := h.removable.delete r.index
      obtain ⟨hrows, hpairs⟩ := dropChild_rows h.sound.contains hrow c
      obtain ⟨htc, htl, hta⟩ :=
        resetContainedIn_tables r.index { acc.1 with contains := dropChild r.index c r acc.1.contains } c
      rw [h.contains] at hpair
      have hnew : r.index ∉ l := fun hin => hpair.2 ⟨hin, rfl⟩
      rw [deleteContains_pair hguards h.removable.child hrow hel] at hremovable ⊢
      exact ⟨r.index :: l, {
        sound := sound_reset (SoundTables.withContains h.sound hrows) _ c
        removable := hremovable
        lpMapping := htl.trans h.lpMapping
        aliasMapping := hta.trans h.aliasMapping
        nodup := List.nodup_cons.mpr ⟨hnew, h.nodup⟩
        count := by
          rw [h.count, List.length_cons]
          rfl
        parents := fun p hp => by
          rcases List.mem_cons.mp hp with rfl | hp
          · exact hpair.1
          · exact h.parents p hp
        contains := by
          refine (congrArg (pairs liveIndex) htc).trans (hpairs.trans ?_)
          rw [h.contains, Set.sdiff_sdiff]
          congr 1
          ext ⟨a, b⟩
          simp only [Set.mem_union, Set.mem_ofPred_eq, Set.mem_singleton_iff, Prod.mk.injEq, List.mem_cons]
          tauto
        unchanged := by simp }⟩
    · exact ⟨l, h⟩
  · exact ⟨l, h⟩

theorem taken_foldl (ps : List (Nat × Nat)) {acc : State × Int} {l : List Int} (h : Taken s c acc l) :
    ∃ l, Taken s c (ps.foldl (deleteChildAt c) acc) l := by
  induction ps generalizing acc l with
  | nil => exact ⟨l, h⟩
  | cons pos ps ih =>
      obtain ⟨l', h'⟩ := taken_step h pos
      exact ih h'

theorem stale_parent_stays (h : SoundTables s) (hpair : ContainsPair s p c)
    (hstale : getPhysicalTableStaleEntry p s ≠ none) :
    ContainsPair (deletePhysicalContainsChildIndex c s).1 p c := by
  have hind := deletePhysicalContainsChildIndex_induction (c := c)
    (P := fun t => SoundTables t ∧ ContainsPair t p c ∧ getPhysicalTableStaleEntry p t ≠ none)
    (fun q t ⟨ht, htp, hts⟩ => ?_) ⟨h, hpair, hstale⟩
  · exact hind.2.1
  · refine ⟨sound_deleteContains ht q c, ?_, ?_⟩
    · rcases deletePhysicalContainsTableEntry_cases (p := q) (c := c) (s := t) with he | ⟨r, hr, he⟩
      · rwa [he]
      · have hsound := sound_deleteContains ht q c
        by_cases hq : q = p
        · subst hq
          have hrefused : (deletePhysicalContainsTableEntry q c t).1 = t := by
            unfold deletePhysicalContainsTableEntry
            split
            · rfl
            · rw [if_pos (Option.isSome_iff_ne_none.mpr hts)]
          rwa [hrefused]
        · rw [he] at hsound ⊢
          rw [SoundRows.containsPair hsound.contains.toSoundRows, (resetContainedIn_tables q _ c).1,
            (dropChild_rows ht.contains hr c).2]
          exact ⟨(SoundRows.containsPair ht.contains.toSoundRows).mp htp, fun hqp => hq (Prod.mk.inj hqp).1.symm⟩
    · intro hnone
      exact hts (((deletePhysicalContainsTableEntry_same q c t).stale p).mp hnone)

theorem deleteContainsChild_simulates (h : SoundTables s) (hc : (getPhysicalTableEntry c s).isSome) :
    Simulates s (.deleteContainsChild c) (deletePhysicalContainsChildIndex c s) ↔
      Counted s (.deleteContainsChild c) := by
  obtain ⟨hcr, hcs, _⟩ := live_guards hc
  have hset := mappings_contains h
  constructor
  · intro hsim p hp
    by_contra hstale
    have hstays := stale_parent_stays h hp hstale
    have hspec := congrArg Prod.fst (hsim.pairs .contains _ rfl)
    have hex : ∃ q ∈ mappings s .contains, q.2 = c := ⟨(p, c), hp, rfl⟩
    rw [removeAll, if_pos hex] at hspec
    have hin : (p, c) ∈ mappings (deletePhysicalContainsChildIndex c s).1 .contains := hstays
    dsimp only at hspec
    rw [hspec] at hin
    exact hin.2 rfl
  · intro hcounted
    have hremovable : Removable s c := {
      rows := h.contains.oneRow
      child := ⟨hcr, hcs⟩
      parents := fun p hp => by
        refine ⟨?_, hcounted p hp⟩
        obtain ⟨_, _, r, hr, rfl, _⟩ := hp
        exact h.contains.ranges r hr }
    have hstart : Taken s c (s, 0) [] := {
      sound := h
      removable := hremovable
      lpMapping := rfl
      aliasMapping := rfl
      nodup := .nil
      count := rfl
      parents := by simp
      contains := by simp
      unchanged := fun _ => rfl }
    obtain ⟨l, htaken⟩ := taken_foldl (positions s.contains) hstart
    have hcalled : deletePhysicalContainsChildIndex c s =
        (((positions s.contains).foldl (deleteChildAt c) (s, 0)).1, if l = [] then -1 else (l.length : Int)) := by
      have hcount := htaken.count
      simp only [deletePhysicalContainsChildIndex, hcr, hcs, Bool.not_true, Bool.false_eq_true, if_false,
        Option.isSome_none, hcount]
      simp
    have hall (q : Int) (hq : (q, c) ∈ pairs liveIndex s.contains) : q ∈ l := by
      by_contra hnot
      refine deleteContainsChild_removes hremovable q ?_
      rw [hcalled, SoundRows.containsPair htaken.sound.contains.toSoundRows, htaken.contains]
      exact ⟨hq, fun hin => hnot hin.1⟩
    have hmem (q : Int × Int) : q ∈ l.map (fun a => (a, c)) ↔ q ∈ pairs liveIndex s.contains ∧ q.2 = c := by
      rw [List.mem_map]
      constructor
      · rintro ⟨a, ha, rfl⟩
        exact ⟨htaken.parents a ha, rfl⟩
      · obtain ⟨a, b⟩ := q
        rintro ⟨hq, rfl⟩
        exact ⟨a, hall a hq, rfl⟩
    have hspec := removeAll_list (htaken.nodup.map (Prod.mk_left_injective c)) hmem
    have ht : mappings ((positions s.contains).foldl (deleteChildAt c) (s, 0)).1 .contains =
        mappings s .contains \ {q | q.2 = c} := by
      rw [mappings_contains htaken.sound, htaken.contains, hset]
      ext ⟨a, b⟩
      constructor
      · exact fun hq => ⟨hq.1, fun hb => hq.2 ⟨hall a (by rw [← show b = c from hb]; exact hq.1), hb⟩⟩
      · exact fun hq => ⟨hq.1, fun hb => hq.2 hb.2⟩
    rw [hcalled]
    by_cases hnil : l = []
    · rw [htaken.unchanged hnil, if_pos hnil, simulates_same rfl, hset, hspec, hnil]
      rw [htaken.unchanged hnil, hset] at ht
      rw [← ht]
      rfl
    · obtain ⟨a, ha⟩ := List.exists_mem_of_ne_nil l hnil
      have hne : mappings ((positions s.contains).foldl (deleteChildAt c) (s, 0)).1 .contains ≠
          mappings s .contains := by
        rw [ht, hset]
        exact sdiff_ne (P := fun q => q.2 = c) (htaken.parents a ha) rfl
      rw [simulates_change rfl (others_contains htaken.lpMapping htaken.aliasMapping) hne, ht, hset, hspec,
        if_neg hnil, if_neg (by simpa using hnil), List.length_map]

/-- In every state of every run, a call with live indices does to the sets of pairs what it is
for, exactly when what it counts is there. -/
theorem call_simulates (h : Reachable step (fun _ _ => True) Empty s) (hlive : LiveCall s o) :
    ∃ r, call o s = some r ∧ (Simulates s o r ↔ Counted s o) := by
  have hs := reachable_sound h
  cases o with
  | addContains p c mem =>
      obtain ⟨hp, hc, hcycle, hblock, harray⟩ := hlive
      obtain ⟨r, hr, hsim⟩ := addContains_simulates hs hp hc hcycle hblock harray
      exact ⟨r, hr, fun _ => trivial, fun _ => hsim⟩
  | deleteContains p c => exact ⟨_, rfl, fun _ => trivial, fun _ => deleteContains_simulates hs hlive.1 hlive.2⟩
  | deleteContainsParent p mem =>
      obtain ⟨hp, rfl⟩ := hlive
      exact ⟨_, rfl, deleteContainsParent_simulates hs hp⟩
  | deleteContainsChild c => exact ⟨_, rfl, deleteContainsChild_simulates hs hlive⟩
  | addLP l p => exact ⟨_, rfl, fun _ => trivial, fun _ => addLP_simulates hs hlive.1 hlive.2⟩
  | deleteLP l p => exact ⟨_, rfl, fun _ => trivial, fun _ => deleteLP_simulates hs hlive.1 hlive.2⟩
  | deleteLPLogical l => exact ⟨_, rfl, deleteLPLogical_simulates hs hlive⟩
  | deleteLPPhysical p => exact ⟨_, rfl, fun _ => trivial, fun _ => deleteLPPhysical_simulates hs hlive⟩
  | addAlias p l mapId size =>
      refine ⟨_, rfl, ?_⟩
      cases mapId with
      | none => exact ⟨fun hsim => absurd hsim (addAlias_null p l size s), fun hno => absurd hno (by simp [Counted])⟩
      | some id => exact ⟨fun _ => rfl, fun _ => addAlias_simulates hs hlive.1 hlive.2 id size⟩
  | deleteAlias p l => exact ⟨_, rfl, fun _ => trivial, fun _ => deleteAlias_simulates hs hlive.1 hlive.2⟩
  | deleteAliasLogical l => exact ⟨_, rfl, fun _ => trivial, fun _ => deleteAliasLogical_simulates hs hlive⟩
  | deleteAliasPhysical p => exact ⟨_, rfl, deleteAliasPhysical_simulates hs hlive⟩
  | _ => cases hlive

/-- The removal of entry 1 as a parent, with entry 2 as its one child. -/
theorem call_simulates_pair : ∃ s r, ContainsPair s 1 2 ∧
    call (.deleteContainsParent 1 true) s = some r ∧ Simulates s (.deleteContainsParent 1 true) r := by
  have h1 : Reachable step (fun _ _ => True) Empty _ := .next (.allocPhysical 1 {} (some 1)) (.start rfl) trivial rfl
  have h2 : Reachable step (fun _ _ => True) Empty _ := .next (.allocPhysical 2 {} (some 2)) h1 trivial rfl
  have h3 : Reachable step (fun _ _ => True) Empty _ := .next (.addContains 1 2 {}) h2 trivial rfl
  obtain ⟨r, hr, hiff⟩ := call_simulates (o := .deleteContainsParent 1 true) h3 ⟨by decide, rfl⟩
  refine ⟨_, r, ?_, hr, hiff.mpr fun _ => ⟨2, ?_⟩⟩ <;> unfold ContainsPair <;> decide

/-- The pair of entries 1 and 2 is added and deleted: the node stays, and the removal of entry
1 as a parent returns zero, not -1. -/
theorem emptied_node_counted : ∃ s r, Reachable step (fun _ _ => True) Empty s ∧
    LiveCall s (.deleteContainsParent 1 true) ∧ call (.deleteContainsParent 1 true) s = some r ∧
    r.2 = 0 ∧ ¬ Simulates s (.deleteContainsParent 1 true) r := by
  have h1 : Reachable step (fun _ _ => True) Empty _ := .next (.allocPhysical 1 {} (some 1)) (.start rfl) trivial rfl
  have h2 : Reachable step (fun _ _ => True) Empty _ := .next (.allocPhysical 2 {} (some 2)) h1 trivial rfl
  have h3 : Reachable step (fun _ _ => True) Empty _ := .next (.addContains 1 2 {}) h2 trivial rfl
  have h4 : Reachable step (fun _ _ => True) Empty _ := .next (.deleteContains 1 2) h3 trivial rfl
  refine ⟨_, _, h4, ⟨by decide, rfl⟩, rfl, by decide, ?_⟩
  intro hsim
  obtain ⟨c, _, hc, r, hr, hrc, hm⟩ :=
    (deleteContainsParent_simulates (reachable_sound h4) (by decide)).mp hsim (by decide)
  obtain rfl := List.mem_singleton.mp hr
  have hdeleted : c = -1 := by simpa [elements] using hm
  omega

end OiUserland.EntityMib.MappingCalls
