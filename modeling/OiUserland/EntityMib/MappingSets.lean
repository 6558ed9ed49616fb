import OiUserland.EntityMib.RowSets
import OiUserland.EntityMib.IntegrityRuns

namespace OiUserland.EntityMib.MappingSets

open EntityTable MibState PhysicalContainsTable LPMappingTable AliasMappingTable
open ListInvariant MappingRows Integrity RowSets

variable {rows : List (MappingRow Int)} {r : MappingRow Int}
  {s : State} {x p c l z : Int} {vs vs' : List Int}

def liveIndex (z : Int) : Option Int := if 0 < z then some z else none

def liveAlias (a : LogicalAlias) : Option Int :=
  if 0 ≤ a.entAliasLogicalIndexorZero then some a.entAliasLogicalIndexorZero else none

theorem mem_liveIndex : z ∈ vs.filterMap liveIndex ↔ 0 < z ∧ z ∈ vs := by
  rw [List.mem_filterMap]
  constructor
  · intro ⟨y, hy, he⟩
    by_cases h0 : 0 < y
    · rw [liveIndex, if_pos h0] at he
      cases he
      exact ⟨h0, hy⟩
    · rw [liveIndex, if_neg h0] at he
      cases he
  · exact fun h => ⟨z, h.2, if_pos h.1⟩

theorem countP_liveIndex (vs : List Int) :
    vs.countP (fun z => decide (0 < z)) = (vs.filterMap liveIndex).length := by
  induction vs with
  | nil => rfl
  | cons y ys ih =>
      by_cases h0 : 0 < y
      · simp [liveIndex, h0, ih]
      · simp [liveIndex, h0, ih]

theorem reuseSlot_live (hc : 0 < c) (h : reuseSlot c vs = some vs') :
    (vs'.filterMap liveIndex).Perm (c :: vs.filterMap liveIndex) := by
  induction vs generalizing vs' with
  | nil => cases h
  | cons y ys ih =>
      unfold reuseSlot at h
      split at h
      · rename_i zs hzs
        cases h
        by_cases h0 : 0 < y
        · simp only [List.filterMap_cons, liveIndex, if_pos h0]
          exact ((ih hzs).cons y).trans (.swap c y _)
        · simp only [List.filterMap_cons, liveIndex, if_neg h0]
          exact ih hzs
      · split at h
        · rename_i hy
          cases h
          subst hy
          simp [liveIndex, hc]
        · cases h

theorem reuseSlot_none (h : reuseSlot c vs = none) : -1 ∉ vs := by
  induction vs with
  | nil => simp
  | cons y ys ih =>
      unfold reuseSlot at h
      split at h
      · cases h
      · rename_i hys
        split at h
        · cases h
        · rename_i hy
          rw [List.mem_cons, not_or]
          exact ⟨Ne.symm hy, ih hys⟩

theorem append_live (hc : 0 < c) (vs : List Int) :
    ((vs ++ [c]).filterMap liveIndex).Perm (c :: vs.filterMap liveIndex) := by
  rw [List.filterMap_append, show [c].filterMap liveIndex = [c] by simp [liveIndex, hc]]
  exact List.perm_append_comm

theorem overwrite_live (h : (vs.filterMap liveIndex).Nodup) :
    (vs.map fun z => if z = c then -1 else z).filterMap liveIndex = (vs.filterMap liveIndex).erase c := by
  rw [h.erase_eq_filter]
  clear h
  induction vs with
  | nil => rfl
  | cons y ys ih =>
      by_cases hy : y = c
      · subst hy
        by_cases h0 : 0 < y
        · simp [liveIndex, h0, ih]
        · simp [liveIndex, h0, ih]
      · by_cases h0 : 0 < y
        · simp [liveIndex, h0, hy, ih]
        · simp [liveIndex, h0, hy, ih]

theorem storeIndex_live (hp : 0 < p) (h : storeIndex p vs = some vs') :
    (vs'.filterMap liveIndex).Perm (p :: vs.filterMap liveIndex) := by
  induction vs generalizing vs' with
  | nil =>
      cases h
      simp [liveIndex, hp]
  | cons y ys ih =>
      unfold storeIndex at h
      split at h
      · cases h
      · split at h
        · rename_i hy
          cases h
          have h0 : ¬ 0 < y := by omega
          simp [liveIndex, hp, h0]
        · obtain ⟨zs, hzs, rfl⟩ := Option.map_eq_some_iff.mp h
          by_cases h0 : 0 < y
          · simp only [List.filterMap_cons, liveIndex, if_pos h0]
            exact ((ih hzs).cons y).trans (.swap p y _)
          · simp only [List.filterMap_cons, liveIndex, if_neg h0]
            exact ih hzs

theorem storeIndex_none (h : OnceSigned vs) : storeIndex p vs = none ↔ p ∈ vs := by
  induction vs with
  | nil => simp [storeIndex]
  | cons y ys ih =>
      obtain ⟨hy, hys⟩ := List.nodup_cons.mp h
      by_cases hp : y = p
      · simp [storeIndex, hp]
      · by_cases hneg : y = -p
        · have hnot : p ∉ ys := by
            intro hmem
            exact hy (List.mem_map.mpr ⟨p, hmem, by rw [hneg, Int.natAbs_neg]⟩)
          simp only [storeIndex, if_neg hp, if_pos hneg, List.mem_cons, hnot, or_false, reduceCtorEq, false_iff]
          exact fun he => hp he.symm
        · rw [storeIndex, if_neg hp, if_neg hneg, Option.map_eq_none_iff, ih hys, List.mem_cons]
          exact ⟨.inr, fun hm => hm.resolve_left (Ne.symm hp)⟩

theorem negateIndex_live (hp : 0 < p) (vs : List Int) :
    (negateIndex p vs).filterMap liveIndex = (vs.filterMap liveIndex).erase p := by
  induction vs with
  | nil => rfl
  | cons y ys ih =>
      by_cases hy : y = p
      · subst hy
        have hneg : ¬ 0 < -y := by omega
        simp only [negateIndex, if_true, List.filterMap_cons, liveIndex, if_pos hp, if_neg hneg,
          List.erase_cons_head]
      · by_cases h0 : 0 < y
        · simp [negateIndex, liveIndex, h0, hy, ih]
        · simp [negateIndex, liveIndex, h0, hy, ih]

theorem negateIndex_of_notMem (h : p ∉ vs) : negateIndex p vs = vs := by
  induction vs with
  | nil => rfl
  | cons y ys ih =>
      rw [List.mem_cons, not_or] at h
      rw [negateIndex, if_neg (Ne.symm h.1), ih h.2]

theorem negateInRow_of_notMem (h : p ∉ elements r) : negateInRow p r = r := by
  obtain ⟨x, v⟩ := r
  cases v with
  | none => rfl
  | some vs => exact congrArg (fun ws => MappingRow.mk x (some ws)) (negateIndex_of_notMem h)

theorem filterMap_liveAlias (as : List LogicalAlias) : as.filterMap liveAlias = aliasIndices as := by
  induction as with
  | nil => rfl
  | cons a as ih =>
      by_cases h0 : 0 ≤ a.entAliasLogicalIndexorZero
      · simp [liveAlias, aliasIndices, h0, ih]
      · simp [liveAlias, aliasIndices, h0, ih]

theorem mem_liveAlias {as : List LogicalAlias} (hl : 0 ≤ l) :
    l ∈ as.filterMap liveAlias ↔ l ∈ as.map LogicalAlias.entAliasLogicalIndexorZero := by
  rw [filterMap_liveAlias, mem_aliasIndices]
  exact ⟨fun h => h.2, fun h => ⟨hl, h⟩⟩

theorem dropAlias_live (l : Int) (as : List LogicalAlias) :
    (dropAlias l as).filterMap liveAlias = (as.filterMap liveAlias).erase l := by
  rw [filterMap_liveAlias, filterMap_liveAlias, dropAlias_indices]

structure SoundContains (rows : List (MappingRow Int)) : Prop extends SoundRows liveIndex rows where
  ranges : ∀ r ∈ rows, inRange r.index

structure SoundLP (rows : List (MappingRow Int)) : Prop extends SoundRows liveIndex rows where
  once : ∀ r ∈ rows, OnceSigned (elements r)

structure SoundAliases (rows : List (MappingRow LogicalAlias)) : Prop extends SoundRows liveAlias rows where
  mapIds : ∀ r ∈ rows, ∀ a ∈ elements r, a.entAliasMapId.isSome ↔ 0 ≤ a.entAliasLogicalIndexorZero

structure SoundTables (s : State) : Prop where
  contains : SoundContains s.contains
  lpMapping : SoundLP s.lpMapping
  aliasMapping : SoundAliases s.aliasMapping

theorem SoundRows.containsPair (h : SoundRows liveIndex s.contains) :
    ContainsPair s p c ↔ (p, c) ∈ pairs liveIndex s.contains := by
  constructor
  · intro ⟨_, hc, r, hr, hrp, hm⟩
    exact ⟨r, hr, hrp, mem_liveIndex.mpr ⟨hc, hm⟩⟩
  · rintro ⟨r, hr, rfl, hm⟩
    obtain ⟨hc, hm⟩ := mem_liveIndex.mp hm
    exact ⟨h.positive r hr, hc, r, hr, rfl, hm⟩

theorem SoundRows.lpPair (h : SoundRows liveIndex s.lpMapping) :
    LPPair s l p ↔ (l, p) ∈ pairs liveIndex s.lpMapping := by
  constructor
  · intro ⟨_, hp, r, hr, hrl, hm⟩
    exact ⟨r, hr, hrl, mem_liveIndex.mpr ⟨hp, hm⟩⟩
  · rintro ⟨r, hr, rfl, hm⟩
    obtain ⟨hp, hm⟩ := mem_liveIndex.mp hm
    exact ⟨h.positive r hr, hp, r, hr, rfl, hm⟩

theorem SoundRows.aliasPair (h : SoundRows liveAlias s.aliasMapping) :
    AliasPair s p l ↔ (p, l) ∈ pairs liveAlias s.aliasMapping := by
  rw [aliasPair_iff]
  constructor
  · intro ⟨_, r, hr, hrp, hm⟩
    exact ⟨r, hr, hrp, by rwa [liveValues, filterMap_liveAlias]⟩
  · rintro ⟨r, hr, rfl, hm⟩
    rw [liveValues, filterMap_liveAlias] at hm
    exact ⟨h.positive r hr, r, hr, rfl, hm⟩

theorem SoundContains.set {v : Option (List Int)} (h : SoundContains rows) (hs : SoundRows liveIndex (setValues x v rows))
    (hr : findRow x rows = some r) : SoundContains (setValues x v rows) where
  toSoundRows := hs
  ranges q hq := by
    rcases mem_setValues hq with hq | ⟨hqx, _⟩
    · exact h.ranges q hq
    · obtain ⟨hmem, hrx⟩ := findRow_some hr
      rw [hqx, ← hrx]
      exact h.ranges r hmem

theorem linkChild_rows (h : SoundContains s.contains) (hp : inRange p) (hc : 0 < c) (mem : AddMemory) :
    (linkChild p c mem s = (s, 1) ∧ (p, c) ∈ pairs liveIndex s.contains) ∨
    (linkChild p c mem s = (s, -1) ∧ ¬ (mem.block = true ∧ mem.array = true)) ∨
    ((∃ r vs, findRow p s.contains = some r ∧ r.values = some vs ∧ c ∉ vs ∧ -1 ∉ vs) ∧ mem.block = false ∧
      SoundContains (setValues p none s.contains) ∧
      linkChild p c mem s = ({ s with contains := setValues p none s.contains }, -1)) ∨
    ∃ rows, SoundContains rows ∧ (p, c) ∉ pairs liveIndex s.contains ∧
      pairs liveIndex rows = insert (p, c) (pairs liveIndex s.contains) ∧
      linkChild p c mem s = (lowerContainedIn p c { s with contains := rows }, 0) := by
  have hone : [c].filterMap liveIndex = [c] := by simp [liveIndex, hc]
  unfold linkChild
  split
  · rename_i r hr
    have hrow : (p, c) ∈ pairs liveIndex s.contains ↔ c ∈ liveValues liveIndex r := mem_pairs_row h.oneRow hr
    have hstored {v : List Int} (hz : c ∉ liveValues liveIndex r)
        (hv : (v.filterMap liveIndex).Perm (c :: liveValues liveIndex r)) :
        SoundContains (setValues p (some v) s.contains) ∧ (p, c) ∉ pairs liveIndex s.contains ∧
          pairs liveIndex (setValues p (some v) s.contains) = insert (p, c) (pairs liveIndex s.contains) := by
      obtain ⟨hs, hins⟩ := SoundRows.stored (v := some v) h.toSoundRows hr hz hv
      exact ⟨h.set hs hr, fun hin => hz (hrow.mp hin), hins⟩
    split
    · rename_i hv
      have hnil : liveValues liveIndex r = [] := by simp [liveValues, elements, hv]
      split
      · obtain ⟨h1, h2, h3⟩ := hstored (v := [c]) (by simp [hnil]) (by rw [hnil, hone])
        exact .inr (.inr (.inr ⟨_, h1, h2, h3, rfl⟩))
      · rename_i hm
        exact .inr (.inl ⟨rfl, fun hb => hm hb.1⟩)
    · rename_i vs hv
      have hvals : liveValues liveIndex r = vs.filterMap liveIndex := by simp [liveValues, elements, hv]
      split
      · rename_i hmem
        exact .inl ⟨rfl, hrow.mpr (by rw [hvals]; exact mem_liveIndex.mpr ⟨hc, hmem⟩)⟩
      · rename_i hmem
        have hz : c ∉ liveValues liveIndex r := by
          rw [hvals]
          exact fun hin => hmem (mem_liveIndex.mp hin).2
        split
        · rename_i vs' hvs
          obtain ⟨h1, h2, h3⟩ := hstored (v := vs') hz (by rw [hvals]; exact reuseSlot_live hc hvs)
          exact .inr (.inr (.inr ⟨_, h1, h2, h3, rfl⟩))
        · rename_i hfull
          split
          · obtain ⟨h1, h2, h3⟩ := hstored (v := vs ++ [c]) hz (by rw [hvals]; exact append_live hc vs)
            exact .inr (.inr (.inr ⟨_, h1, h2, h3, rfl⟩))
          · rename_i hm
            have hsound := h.toSoundRows.set (x := p) (v := none) (inRange_pos hp) .nil
            exact .inr (.inr (.inl ⟨⟨r, vs, hr, hv, hmem, reuseSlot_none hfull⟩, by simpa using hm,
              h.set hsound hr, rfl⟩))
  · rename_i hr
    split
    · refine .inr (.inr (.inr ⟨_, ?_, notMem_pairs hr, pairs_append (v := some [c]) hone, rfl⟩))
      refine ⟨h.toSoundRows.append hr (inRange_pos hp) ?_, fun q hq => ?_⟩
      · rw [Option.getD_some, hone]
        exact List.nodup_singleton c
      · rcases List.mem_append.mp hq with hq | hq
        · exact h.ranges q hq
        · rw [List.mem_singleton.mp hq]
          exact hp
    · rename_i hm
      exact .inr (.inl ⟨rfl, fun hb => hm (by simp [hb])⟩)

theorem dropChild_rows (h : SoundContains rows) (hr : findRow p rows = some r) (c : Int) :
    SoundContains (dropChild p c r rows) ∧
      pairs liveIndex (dropChild p c r rows) = pairs liveIndex rows \ {(p, c)} := by
  have hnodup := h.nodup r (findRow_some hr).1
  have hvals : ((r.values.map fun vs => vs.map fun z => if z = c then -1 else z).getD []).filterMap liveIndex =
      (liveValues liveIndex r).erase c := by
    cases hv : r.values with
    | none => simp [liveValues, elements, hv]
    | some vs =>
        rw [liveValues, elements, hv, Option.getD_some] at hnodup
        simp only [liveValues, elements, hv, Option.map_some, Option.getD_some]
        exact overwrite_live hnodup
  obtain ⟨hs, hpairs⟩ := h.toSoundRows.erased hr hvals
  exact ⟨h.set hs hr, hpairs⟩

theorem removeRow_sound (h : SoundContains rows) : SoundContains (removeRow p rows) :=
  ⟨h.toSoundRows.remove, fun q hq => h.ranges q ((removeRow_sublist p rows).subset hq)⟩

theorem lowerContainedIn_tables (p c : Int) (s : State) :
    (lowerContainedIn p c s).contains = s.contains ∧ (lowerContainedIn p c s).lpMapping = s.lpMapping ∧
      (lowerContainedIn p c s).aliasMapping = s.aliasMapping := by
  rcases lowerContainedIn_cases (p := p) (c := c) (s := s) with h | h <;> rw [h]
  · exact ⟨rfl, rfl, rfl⟩
  · exact ⟨rfl, rfl, rfl⟩

theorem SoundLP.set {v : Option (List Int)} (h : SoundLP rows) (hs : SoundRows liveIndex (setValues x v rows))
    (hv : OnceSigned (v.getD [])) : SoundLP (setValues x v rows) where
  toSoundRows := hs
  once q hq := by
    rcases mem_setValues hq with hq | ⟨_, hqv⟩
    · exact h.once q hq
    · rw [elements, hqv]
      exact hv

theorem storeIndex_rows (h : SoundLP rows) (hr : findRow l rows = some r) (hp : 0 < p)
    (hs : storeIndex p (elements r) = some vs) :
    SoundLP (setValues l (some vs) rows) ∧ (l, p) ∉ pairs liveIndex rows ∧
      pairs liveIndex (setValues l (some vs) rows) = insert (l, p) (pairs liveIndex rows) := by
  have hmem := (findRow_some hr).1
  have hz : p ∉ liveValues liveIndex r := by
    intro hin
    rw [(storeIndex_none (h.once r hmem)).mpr (mem_liveIndex.mp hin).2] at hs
    cases hs
  obtain ⟨hsound, hpairs⟩ := SoundRows.stored (v := some vs) h.toSoundRows hr hz (storeIndex_live hp hs)
  exact ⟨h.set hsound ((h.once r hmem).storeIndex hs), fun hin => hz ((mem_pairs_row h.oneRow hr).mp hin), hpairs⟩

theorem appendLP_rows (h : SoundLP rows) (hr : findRow l rows = none) (hl : 0 < l) (hp : 0 < p) :
    SoundLP (rows ++ [⟨l, some [p]⟩]) ∧ (l, p) ∉ pairs liveIndex rows ∧
      pairs liveIndex (rows ++ [⟨l, some [p]⟩]) = insert (l, p) (pairs liveIndex rows) := by
  have hone : ((some [p]).getD []).filterMap liveIndex = [p] := by simp [liveIndex, hp]
  refine ⟨⟨h.toSoundRows.append hr hl ?_, fun q hq => ?_⟩, notMem_pairs hr, pairs_append hone⟩
  · rw [hone]
    exact List.nodup_singleton p
  · rcases List.mem_append.mp hq with hq | hq
    · exact h.once q hq
    · rw [List.mem_singleton.mp hq]
      exact List.nodup_singleton p.natAbs

theorem negate_live (hp : 0 < p) (r : MappingRow Int) :
    ((r.values.map (negateIndex p)).getD []).filterMap liveIndex = (liveValues liveIndex r).erase p := by
  cases hv : r.values with
  | none => simp [liveValues, elements, hv]
  | some vs =>
      simp only [liveValues, elements, hv, Option.map_some, Option.getD_some]
      exact negateIndex_live hp vs

theorem negateIndex_rows (h : SoundLP rows) (hr : findRow l rows = some r) (hp : 0 < p) :
    SoundLP (setValues l (r.values.map (negateIndex p)) rows) ∧
      pairs liveIndex (setValues l (r.values.map (negateIndex p)) rows) = pairs liveIndex rows \ {(l, p)} := by
  obtain ⟨hs, hpairs⟩ := h.toSoundRows.erased hr (negate_live hp r)
  refine ⟨h.set hs ?_, hpairs⟩
  have honce := (h.once r (findRow_some hr).1).negateIndex (p := p)
  cases hv : r.values with
  | none => exact .nil
  | some vs =>
      rw [elements, hv] at honce
      exact honce

theorem negateInRow_rows (h : SoundLP rows) (hp : 0 < p) :
    SoundLP (rows.map (negateInRow p)) ∧
      pairs liveIndex (rows.map (negateInRow p)) = pairs liveIndex rows \ {q | q.2 = p} := by
  refine ⟨⟨h.toSoundRows.map (fun _ => rfl) fun r _ => negate_live hp r, fun q hq => ?_⟩,
    pairs_map h.toSoundRows (fun _ => rfl) fun r _ => negate_live hp r⟩
  obtain ⟨r, hr, rfl⟩ := List.mem_map.mp hq
  rw [negateInRow, elements_map rfl]
  exact (h.once r hr).negateIndex

theorem removeLP_sound (h : SoundLP rows) : SoundLP (removeRow l rows) :=
  ⟨h.toSoundRows.remove, fun q hq => h.once q ((removeRow_sublist l rows).subset hq)⟩

section Aliases

variable {rows : List (MappingRow LogicalAlias)} {r : MappingRow LogicalAlias}

theorem one_alias (hl : 0 ≤ l) (id : List Nat) (size : Nat) : [(⟨l, some id, size⟩ : LogicalAlias)].filterMap liveAlias = [l] := by
  simp [liveAlias, hl]

theorem appendAlias_rows (h : SoundAliases rows) (hr : findRow p rows = some r) (hl : 0 ≤ l)
    (hnew : l ∉ (elements r).map LogicalAlias.entAliasLogicalIndexorZero) (id : List Nat) (size : Nat) :
    SoundAliases (setValues p (some (elements r ++ [⟨l, some id, size⟩])) rows) ∧
      (p, l) ∉ pairs liveAlias rows ∧
      pairs liveAlias (setValues p (some (elements r ++ [⟨l, some id, size⟩])) rows) =
        insert (p, l) (pairs liveAlias rows) := by
  have hmem := (findRow_some hr).1
  have hz : l ∉ liveValues liveAlias r := fun hin => hnew ((mem_liveAlias hl).mp hin)
  have hv : ((some (elements r ++ [(⟨l, some id, size⟩ : LogicalAlias)])).getD []).filterMap liveAlias =
      liveValues liveAlias r ++ [l] := by
    rw [Option.getD_some, List.filterMap_append, one_alias hl id size]
    rfl
  obtain ⟨hs, hpairs⟩ := h.toSoundRows.stored hr hz (by rw [hv]; exact List.perm_append_comm)
  refine ⟨⟨hs, fun q hq a ha => ?_⟩, fun hin => hz ((mem_pairs_row h.oneRow hr).mp hin), hpairs⟩
  rcases mem_setValues hq with hq | ⟨_, hqv⟩
  · exact h.mapIds q hq a ha
  · rw [elements, hqv, Option.getD_some] at ha
    rcases List.mem_append.mp ha with ha | ha
    · exact h.mapIds r hmem a ha
    · rw [List.mem_singleton.mp ha]
      exact ⟨fun _ => hl, fun _ => rfl⟩

theorem newAlias_rows (h : SoundAliases rows) (hr : findRow p rows = none) (hp : 0 < p) (hl : 0 ≤ l)
    (id : List Nat) (size : Nat) :
    SoundAliases (rows ++ [⟨p, some [⟨l, some id, size⟩]⟩]) ∧ (p, l) ∉ pairs liveAlias rows ∧
      pairs liveAlias (rows ++ [⟨p, some [⟨l, some id, size⟩]⟩]) = insert (p, l) (pairs liveAlias rows) := by
  have hone : ((some [(⟨l, some id, size⟩ : LogicalAlias)]).getD []).filterMap liveAlias = [l] :=
    one_alias hl id size
  refine ⟨⟨h.toSoundRows.append hr hp ?_, fun q hq a ha => ?_⟩, notMem_pairs hr, pairs_append hone⟩
  · rw [hone]
    exact List.nodup_singleton l
  · rcases List.mem_append.mp hq with hq | hq
    · exact h.mapIds q hq a ha
    · rw [List.mem_singleton.mp hq, elements, Option.getD_some] at ha
      rw [List.mem_singleton.mp ha]
      exact ⟨fun _ => hl, fun _ => rfl⟩

theorem drop_live (l : Int) (r : MappingRow LogicalAlias) :
    ((r.values.map (dropAlias l)).getD []).filterMap liveAlias = (liveValues liveAlias r).erase l := by
  cases hv : r.values with
  | none => simp [liveValues, elements, hv]
  | some as =>
      simp only [liveValues, elements, hv, Option.map_some, Option.getD_some]
      exact dropAlias_live l as

theorem mem_dropAlias {a : LogicalAlias} {as : List LogicalAlias} (h : a ∈ dropAlias l as) :
    a = deletedAlias ∨ a ∈ as := by
  induction as with
  | nil => cases h
  | cons b bs ih =>
      unfold dropAlias at h
      split at h
      · exact (List.mem_cons.mp h).imp_right (List.mem_cons_of_mem b)
      · rcases List.mem_cons.mp h with rfl | h
        · exact .inr List.mem_cons_self
        · exact (ih h).imp_right (List.mem_cons_of_mem b)

theorem dropped_mapIds (h : SoundAliases rows) (hr : r ∈ rows) {a : LogicalAlias}
    (ha : a ∈ elements { r with values := r.values.map (dropAlias l) }) :
    a.entAliasMapId.isSome ↔ 0 ≤ a.entAliasLogicalIndexorZero := by
  rw [elements_map rfl] at ha
  rcases mem_dropAlias ha with rfl | ha
  · decide
  · exact h.mapIds r hr a ha

theorem dropAlias_rows (h : SoundAliases rows) (hr : findRow p rows = some r) :
    SoundAliases (setValues p (r.values.map (dropAlias l)) rows) ∧
      pairs liveAlias (setValues p (r.values.map (dropAlias l)) rows) = pairs liveAlias rows \ {(p, l)} := by
  obtain ⟨hs, hpairs⟩ := h.toSoundRows.erased hr (drop_live l r)
  refine ⟨⟨hs, fun q hq a ha => ?_⟩, hpairs⟩
  rcases mem_setValues hq with hq | ⟨_, hqv⟩
  · exact h.mapIds q hq a ha
  · rw [elements, hqv] at ha
    exact dropped_mapIds h (findRow_some hr).1 ha

theorem dropInRow_rows (h : SoundAliases rows) (l : Int) :
    SoundAliases (rows.map (dropInRow l)) ∧
      pairs liveAlias (rows.map (dropInRow l)) = pairs liveAlias rows \ {q | q.2 = l} := by
  have hvals (r) (hr : r ∈ rows) : liveValues liveAlias (dropInRow l r) = (liveValues liveAlias r).erase l := by
    rw [dropInRow, if_pos (h.positive r hr)]
    exact drop_live l r
  refine ⟨⟨h.toSoundRows.map (dropInRow_index l) hvals, fun q hq a ha => ?_⟩,
    pairs_map h.toSoundRows (dropInRow_index l) hvals⟩
  obtain ⟨r, hr, rfl⟩ := List.mem_map.mp hq
  rw [dropInRow, if_pos (h.positive r hr)] at ha
  exact dropped_mapIds h hr ha

theorem removeAliases_sound (h : SoundAliases rows) : SoundAliases (removeRow p rows) :=
  ⟨h.toSoundRows.remove, fun q hq => h.mapIds q ((removeRow_sublist p rows).subset hq)⟩

end Aliases

end OiUserland.EntityMib.MappingSets
