import OiUserland.EntityMib.MappingRows
import OiUserland.EntityMib.EntrySteps

namespace OiUserland.EntityMib.Integrity

open Entities MibState PhysicalContainsTable LPMappingTable AliasMappingTable
open ListInvariant MappingRows Frames Module

variable {s s' : State} {o : Op} {x p c l : Int}

def LivePort (s : State) (x : Int) : Prop :=
  0 < x ∧ ∃ n ∈ s.physical.head, n.index = x ∧ n.entry.entPhysicalClass = classPort

/-- Every live pair of a mapping table names live entries. -/
structure Intact (s : State) : Prop where
  contains : ∀ p c, ContainsPair s p c → LivePhysical s p ∧ LivePhysical s c
  lpMapping : ∀ l p, LPPair s l p → LiveLogical s l ∧ LivePhysical s p
  aliasMapping : ∀ p l, AliasPair s p l → LivePort s p ∧ (l = 0 ∨ LiveLogical s l)

/-- Intact references with what keeps them: unique indices of entries, one row for each
index of a mapping table, and no element twice in a row. -/
structure Consistent (s : State) : Prop extends Intact s where
  physical : Ordered s.physical.head
  logical : Ordered s.logical.head
  physicalSize : s.physical.size = s.physical.head.length
  logicalSize : s.logical.size = s.logical.head.length
  containsRows : OneRow s.contains
  lpRows : OneRow s.lpMapping
  aliasRows : OneRow s.aliasMapping
  lpValues : ∀ r ∈ s.lpMapping, OnceSigned (elements r)
  aliasValues : ∀ r ∈ s.aliasMapping, (aliasIndices (elements r)).Nodup

/-- The insertion does not store through a tail pointer other than that of the
last node, and has an index left. Calls that are rejected meet this too. -/
def SafeInsert (o : Op) (s : State) : Prop :=
  match o with
  | .allocPhysical i new mem => ∀ e, physicalDefaults new = some e → rejectPhysical i e s.physical = none →
      mem.isSome → HasRoom i s.physical ∧ TailSafe i s.physical
  | .allocLogical i new mem => ∀ e, logicalDefaults new = some e → rejectLogical i e = none →
      mem.isSome → HasRoom i s.logical ∧ TailSafe i s.logical
  | _ => True

theorem aliasPair_iff : AliasPair s p l ↔
    0 < p ∧ ∃ r ∈ s.aliasMapping, r.index = p ∧ l ∈ aliasIndices (elements r) := by
  simp only [AliasPair, mem_aliasIndices]
  constructor
  · rintro ⟨hp, hl, r, hr, he, hm⟩
    exact ⟨hp, r, hr, he, hl, hm⟩
  · rintro ⟨hp, r, hr, he, hl, hm⟩
    exact ⟨hp, hl, r, hr, he, hm⟩

theorem SameEntries.livePort (h : SameEntries s s') (hx : LivePort s x) : LivePort s' x := by
  obtain ⟨h0, n, hn, hnx, hc⟩ := hx
  obtain ⟨m, hm, hmn⟩ := h.mem hn
  exact ⟨h0, m, hm, (outline_index hmn).trans hnx, (outline_class hmn).trans hc⟩

theorem livePhysical_of_get (h : (getPhysicalTableEntry x s).isSome) : LivePhysical s x := by
  obtain ⟨n, hn⟩ := Option.isSome_iff_exists.mp h
  obtain ⟨h0, hmem, hnx⟩ := getTableEntry_some hn
  exact ⟨h0, n, hmem, hnx⟩

theorem liveLogical_of_get (h : (getLogicalTableEntry x s).isSome) : LiveLogical s x := by
  obtain ⟨n, hn⟩ := Option.isSome_iff_exists.mp h
  obtain ⟨h0, hmem, hnx⟩ := getTableEntry_some hn
  exact ⟨h0, n, hmem, hnx⟩

theorem Consistent.same (h : Consistent s) (hs : SameEntries s s') (hc : s'.contains = s.contains)
    (hl : s'.lpMapping = s.lpMapping) (ha : s'.aliasMapping = s.aliasMapping) : Consistent s' where
  contains p c hp := by
    have hp' : ContainsPair s p c := by simpa [ContainsPair, hc] using hp
    exact (h.contains p c hp').imp hs.livePhysical hs.livePhysical
  lpMapping l p hp := by
    have hp' : LPPair s l p := by simpa [LPPair, hl] using hp
    exact (h.lpMapping l p hp').imp hs.liveLogical hs.livePhysical
  aliasMapping p l hp := by
    have hp' : AliasPair s p l := by simpa [AliasPair, ha] using hp
    exact (h.aliasMapping p l hp').imp (SameEntries.livePort hs) (Or.imp_right hs.liveLogical)
  physical := h.physical.congr hs.key
  logical := hs.logical ▸ h.logical
  physicalSize := by
    have hlen := congrArg List.length hs.physical
    rw [List.length_map, List.length_map] at hlen
    rw [hs.size, hlen, h.physicalSize]
  logicalSize := hs.logical ▸ h.logicalSize
  containsRows := hc ▸ h.containsRows
  lpRows := hl ▸ h.lpRows
  aliasRows := ha ▸ h.aliasRows
  lpValues := hl ▸ h.lpValues
  aliasValues := ha ▸ h.aliasValues

theorem Consistent.withContains (h : Consistent s) {rows : List (MappingRow Int)} (hrows : OneRow rows)
    (hpair : ∀ p c, ContainsPair { s with contains := rows } p c →
      ContainsPair s p c ∨ (LivePhysical s p ∧ LivePhysical s c)) :
    Consistent { s with contains := rows } :=
  { h with
    contains := fun p c hp => (hpair p c hp).elim (h.contains p c) id
    containsRows := hrows }

theorem Consistent.withLP (h : Consistent s) {rows : List (MappingRow Int)} (hrows : OneRow rows)
    (hvals : ∀ r ∈ rows, OnceSigned (elements r))
    (hpair : ∀ l p, LPPair { s with lpMapping := rows } l p →
      LPPair s l p ∨ (LiveLogical s l ∧ LivePhysical s p)) :
    Consistent { s with lpMapping := rows } :=
  { h with
    lpMapping := fun l p hp => (hpair l p hp).elim (h.lpMapping l p) id
    lpRows := hrows
    lpValues := hvals }

theorem Consistent.withAlias (h : Consistent s) {rows : List (MappingRow LogicalAlias)} (hrows : OneRow rows)
    (hvals : ∀ r ∈ rows, (aliasIndices (elements r)).Nodup)
    (hpair : ∀ p l, AliasPair { s with aliasMapping := rows } p l →
      AliasPair s p l ∨ (LivePort s p ∧ (l = 0 ∨ LiveLogical s l))) :
    Consistent { s with aliasMapping := rows } :=
  { h with
    aliasMapping := fun p l hp => (hpair p l hp).elim (h.aliasMapping p l) id
    aliasRows := hrows
    aliasValues := hvals }

theorem consistent_addLP (h : Consistent s) (l p : Int) : Consistent (addLPMappingTableEntry l p s).1 := by
  rcases addLPMappingTableEntry_cases (l := l) (p := p) (s := s) with
    he | ⟨hl, hp, ⟨r, vs, hr, hvs, he⟩ | ⟨hr, he⟩⟩ <;> rw [he]
  · exact h
  · obtain ⟨hmem, rfl⟩ := findRow_some hr
    have hlive : LiveLogical s r.index ∧ LivePhysical s p := ⟨liveLogical_of_get hl, livePhysical_of_get hp⟩
    refine h.withLP h.lpRows.setValues (fun q hq => ?_) (fun l' p' hpair => ?_)
    · rcases mem_setValues hq with hq | ⟨-, hv⟩
      · exact h.lpValues q hq
      · simpa [elements, hv] using (h.lpValues r hmem).storeIndex hvs
    · obtain ⟨hl0, hp0, q, hq, rfl, hm⟩ := hpair
      rcases mem_setValues hq with hq | ⟨hqx, hv⟩
      · exact .inl ⟨hl0, hp0, q, hq, rfl, hm⟩
      · rw [elements, hv] at hm
        rcases (storeIndex_some hvs).2 p' hm with hm | rfl
        · exact .inl ⟨hl0, hp0, r, hmem, hqx.symm, hm⟩
        · exact .inr (hqx ▸ hlive)
  · have hlive : LiveLogical s l ∧ LivePhysical s p := ⟨liveLogical_of_get hl, livePhysical_of_get hp⟩
    refine h.withLP (h.lpRows.append hr) (fun q hq => ?_) (fun l' p' hpair => ?_)
    · rcases List.mem_append.mp hq with hq | hq
      · exact h.lpValues q hq
      · obtain rfl := List.mem_singleton.mp hq
        simp [elements, OnceSigned]
    · obtain ⟨hl0, hp0, q, hq, rfl, hm⟩ := hpair
      rcases List.mem_append.mp hq with hq | hq
      · exact .inl ⟨hl0, hp0, q, hq, rfl, hm⟩
      · obtain rfl := List.mem_singleton.mp hq
        obtain rfl : p' = p := by simpa [elements] using hm
        exact .inr hlive

theorem consistent_deleteLP (h : Consistent s) (l p : Int) :
    Consistent (deleteLPMappingTableEntry l p s).1 := by
  rcases deleteLPMappingTableEntry_cases (l := l) (p := p) (s := s) with he | ⟨hp, r, hr, he⟩ <;> rw [he]
  · exact h
  · obtain ⟨hmem, rfl⟩ := findRow_some hr
    have hel : ∀ q ∈ setValues r.index (r.values.map (negateIndex p)) s.lpMapping,
        q ∈ s.lpMapping ∨ (q.index = r.index ∧ elements q = negateIndex p (elements r)) := fun q hq =>
      (mem_setValues hq).imp_right fun hq => ⟨hq.1, by
        rw [elements, hq.2]
        exact elements_map rfl⟩
    refine h.withLP h.lpRows.setValues (fun q hq => ?_) (fun l' p' hpair => .inl ?_)
    · rcases hel q hq with hq | ⟨-, hv⟩
      · exact h.lpValues q hq
      · exact hv ▸ (h.lpValues r hmem).negateIndex
    · obtain ⟨hl0, hp0, q, hq, rfl, hm⟩ := hpair
      rcases hel q hq with hq | ⟨hqx, hv⟩
      · exact ⟨hl0, hp0, q, hq, rfl, hm⟩
      · exact ⟨hl0, hp0, r, hmem, hqx.symm, mem_negateIndex (inRange_pos hp) hp0 (hv ▸ hm)⟩

theorem negated_lpPair (hp : 0 < p) {l p' : Int}
    (h : LPPair { s with lpMapping := s.lpMapping.map (negateInRow p) } l p') : LPPair s l p' := by
  obtain ⟨hl0, hp0, q, hq, rfl, hm⟩ := h
  obtain ⟨r, hr, rfl⟩ := List.mem_map.mp hq
  rw [negateInRow, elements_map rfl] at hm
  exact ⟨hl0, hp0, r, hr, rfl, mem_negateIndex hp hp0 hm⟩

theorem consistent_deleteLPPhysical (h : Consistent s) (p : Int) :
    Consistent (deleteLPMappingPhysicalIndex p s).1 := by
  rcases deleteLPMappingPhysicalIndex_cases (p := p) (s := s) with he | ⟨hp, he⟩ <;> rw [he]
  · exact h
  · refine h.withLP (h.lpRows.map fun _ => rfl) (fun q hq => ?_) fun l p' hpair =>
      .inl (negated_lpPair (inRange_pos hp) hpair)
    obtain ⟨r, hr, rfl⟩ := List.mem_map.mp hq
    rw [negateInRow, elements_map rfl]
    exact (h.lpValues r hr).negateIndex

theorem consistent_deleteLPLogical (h : Consistent s) (l : Int) :
    Consistent (deleteLPMappingLogicalIndex l s).1 := by
  rcases deleteLPMappingLogicalIndex_cases (l := l) (s := s) with he | he <;> rw [he]
  · exact h
  · have hsub (q) (hq : q ∈ removeRow l s.lpMapping) : q ∈ s.lpMapping := (removeRow_sublist l _).subset hq
    refine h.withLP h.lpRows.removeRow (fun q hq => h.lpValues q (hsub q hq)) fun l' p hpair => .inl ?_
    obtain ⟨hl0, hp0, q, hq, hpair⟩ := hpair
    exact ⟨hl0, hp0, q, hsub q hq, hpair⟩

theorem aliasIndices_new (as : List LogicalAlias) (new : LogicalAlias) (h : (aliasIndices as).Nodup)
    (hnew : new.entAliasLogicalIndexorZero ∉ as.map LogicalAlias.entAliasLogicalIndexorZero) :
    (aliasIndices (as ++ [new])).Nodup ∧
      ∀ l ∈ aliasIndices (as ++ [new]), l ∈ aliasIndices as ∨ l = new.entAliasLogicalIndexorZero := by
  have hn : new.entAliasLogicalIndexorZero ∉ aliasIndices as := fun hm => hnew (mem_aliasIndices.mp hm).2
  by_cases h0 : 0 ≤ new.entAliasLogicalIndexorZero
  · have he : aliasIndices (as ++ [new]) = aliasIndices as ++ [new.entAliasLogicalIndexorZero] := by
      simp [aliasIndices, h0]
    rw [he]
    exact ⟨List.Nodup.append h (by simp) (by simpa using hn), by simp⟩
  · have he : aliasIndices (as ++ [new]) = aliasIndices as := by simp [aliasIndices, h0]
    rw [he]
    exact ⟨h, fun l hl => .inl hl⟩

theorem consistent_addAlias (h : Consistent s) (p l : Int) (mapId : Option (List Nat)) (size : Nat) :
    Consistent (addAliasMappingTableEntry p l mapId size s).1 := by
  rcases addAliasMappingTableEntry_cases p l mapId size s with
    he | ⟨h0, hl, ⟨n, hn, hport⟩, id, hrow⟩
  · rwa [he]
  · obtain ⟨hp, hmem, hnp⟩ := getTableEntry_some hn
    have hlive : LivePort s p ∧ (l = 0 ∨ LiveLogical s l) :=
      ⟨⟨hp, n, hmem, hnp, hport⟩, hl.imp_right liveLogical_of_get⟩
    rcases hrow with ⟨r, hr, hnew, he⟩ | ⟨hr, he⟩ <;> rw [he]
    · obtain ⟨hmem, rfl⟩ := findRow_some hr
      have hvals := aliasIndices_new _ ⟨l, some id, size⟩ (h.aliasValues r hmem) hnew
      refine h.withAlias h.aliasRows.setValues (fun q hq => ?_) (fun p' l' hpair => ?_)
      · rcases mem_setValues hq with hq | ⟨-, hv⟩
        · exact h.aliasValues q hq
        · simpa [elements, hv] using hvals.1
      · obtain ⟨hp0, q, hq, rfl, hm⟩ := aliasPair_iff.mp hpair
        rcases mem_setValues hq with hq | ⟨hqx, hv⟩
        · exact .inl (aliasPair_iff.mpr ⟨hp0, q, hq, rfl, hm⟩)
        · rw [elements, hv] at hm
          rcases hvals.2 l' hm with hm | rfl
          · exact .inl (aliasPair_iff.mpr ⟨hp0, r, hmem, hqx.symm, hm⟩)
          · exact .inr (hqx ▸ hlive)
    · have hvals := aliasIndices_new [] ⟨l, some id, size⟩ .nil (by simp)
      refine h.withAlias (h.aliasRows.append hr) (fun q hq => ?_) (fun p' l' hpair => ?_)
      · rcases List.mem_append.mp hq with hq | hq
        · exact h.aliasValues q hq
        · obtain rfl := List.mem_singleton.mp hq
          exact hvals.1
      · obtain ⟨hp0, q, hq, rfl, hm⟩ := aliasPair_iff.mp hpair
        rcases List.mem_append.mp hq with hq | hq
        · exact .inl (aliasPair_iff.mpr ⟨hp0, q, hq, rfl, hm⟩)
        · obtain rfl := List.mem_singleton.mp hq
          obtain rfl : l' = l := (hvals.2 l' hm).resolve_left (by simp [aliasIndices])
          exact .inr hlive

theorem consistent_deleteAlias (h : Consistent s) (p l : Int) :
    Consistent (deleteAliasMappingTableEntry p l s).1 := by
  rcases deleteAliasMappingTableEntry_cases (p := p) (l := l) (s := s) with he | ⟨r, hr, he⟩ <;> rw [he]
  · exact h
  · obtain ⟨hmem, rfl⟩ := findRow_some hr
    have hel : ∀ q ∈ setValues r.index (r.values.map (dropAlias l)) s.aliasMapping,
        q ∈ s.aliasMapping ∨ (q.index = r.index ∧ elements q = dropAlias l (elements r)) := fun q hq =>
      (mem_setValues hq).imp_right fun hq => ⟨hq.1, by
        rw [elements, hq.2]
        exact elements_map rfl⟩
    refine h.withAlias h.aliasRows.setValues (fun q hq => ?_) (fun p' l' hpair => .inl ?_)
    · rcases hel q hq with hq | ⟨-, hv⟩
      · exact h.aliasValues q hq
      · rw [hv, dropAlias_indices]
        exact (h.aliasValues r hmem).erase l
    · obtain ⟨hp0, q, hq, rfl, hm⟩ := aliasPair_iff.mp hpair
      rcases hel q hq with hq | ⟨hqx, hv⟩
      · exact aliasPair_iff.mpr ⟨hp0, q, hq, rfl, hm⟩
      · rw [hv, dropAlias_indices] at hm
        exact aliasPair_iff.mpr ⟨hp0, r, hmem, hqx.symm, List.mem_of_mem_erase hm⟩

theorem consistent_deleteAliasPhysical (h : Consistent s) (p : Int) :
    Consistent (deleteAliasMappingPhysicalIndex p s).1 := by
  rcases deleteAliasMappingPhysicalIndex_cases (p := p) (s := s) with he | he <;> rw [he]
  · exact h
  · have hsub (q) (hq : q ∈ removeRow p s.aliasMapping) : q ∈ s.aliasMapping :=
      (removeRow_sublist p _).subset hq
    refine h.withAlias h.aliasRows.removeRow (fun q hq => h.aliasValues q (hsub q hq))
      fun p' l hpair => .inl ?_
    obtain ⟨hp0, hl0, q, hq, hpair⟩ := hpair
    exact ⟨hp0, hl0, q, hsub q hq, hpair⟩

theorem dropInRow_indices (l : Int) (r : MappingRow LogicalAlias) :
    aliasIndices (elements (dropInRow l r)) =
      if 0 < r.index then (aliasIndices (elements r)).erase l else aliasIndices (elements r) := by
  unfold dropInRow
  split
  · rw [elements_map rfl, dropAlias_indices]
  · rfl

theorem dropInRow_index (l : Int) (r : MappingRow LogicalAlias) : (dropInRow l r).index = r.index := by
  unfold dropInRow
  split <;> rfl

theorem dropped_aliasPair {p' l' : Int}
    (h : AliasPair { s with aliasMapping := s.aliasMapping.map (dropInRow l) } p' l') : AliasPair s p' l' := by
  obtain ⟨hp0, q, hq, rfl, hm⟩ := aliasPair_iff.mp h
  obtain ⟨r, hr, rfl⟩ := List.mem_map.mp hq
  rw [dropInRow_index] at hp0 ⊢
  rw [dropInRow_indices, if_pos hp0] at hm
  exact aliasPair_iff.mpr ⟨hp0, r, hr, rfl, List.mem_of_mem_erase hm⟩

theorem consistent_deleteAliasLogical (h : Consistent s) (l : Int) :
    Consistent (deleteAliasMappingLogicalIndex l s).1 := by
  rcases deleteAliasMappingLogicalIndex_cases (l := l) (s := s) with he | he <;> rw [he]
  · exact h
  · refine h.withAlias (h.aliasRows.map (dropInRow_index l)) (fun q hq => ?_) fun p' l' hpair =>
      .inl (dropped_aliasPair hpair)
    obtain ⟨r, hr, rfl⟩ := List.mem_map.mp hq
    rw [dropInRow_indices]
    split
    · exact (h.aliasValues r hr).erase l
    · exact h.aliasValues r hr

theorem consistent_addContains {mem : AddMemory} {rc : Int} (h : Consistent s)
    (hadd : addPhysicalContainsTableEntry p c mem s = some (s', rc)) : Consistent s' := by
  rcases addPhysicalContainsTableEntry_cases hadd with rfl | ⟨hr, -, rfl⟩
  · exact h
  · obtain ⟨-, hp, hc⟩ := rejectContains_none hr
    have hlive : LivePhysical s p ∧ LivePhysical s c := ⟨livePhysical_of_get hp, livePhysical_of_get hc⟩
    rcases linkChild_cases (p := p) (c := c) (s := s) mem with he | ⟨-, he⟩ | ⟨rows, hrows, he⟩ <;> rw [he]
    · exact h
    · refine h.withContains h.containsRows.setValues fun p' c' hpair => .inl ?_
      obtain ⟨hp0, hc0, q, hq, rfl, hm⟩ := hpair
      rcases mem_setValues hq with hq | ⟨-, hv⟩
      · exact ⟨hp0, hc0, q, hq, rfl, hm⟩
      · simp [elements, hv] at hm
    · have hcons : Consistent { s with contains := rows } := by
        rcases hrows with ⟨r, vs, hr, hvs, rfl⟩ | ⟨hr, rfl⟩
        · obtain ⟨hmem, rfl⟩ := findRow_some hr
          refine h.withContains h.containsRows.setValues fun p' c' hpair => ?_
          obtain ⟨hp0, hc0, q, hq, rfl, hm⟩ := hpair
          rcases mem_setValues hq with hq | ⟨hqx, hv⟩
          · exact .inl ⟨hp0, hc0, q, hq, rfl, hm⟩
          · rw [elements, hv] at hm
            rcases hvs c' hm with hm | rfl
            · exact .inl ⟨hp0, hc0, r, hmem, hqx.symm, hm⟩
            · exact .inr (hqx ▸ hlive)
        · refine h.withContains (h.containsRows.append hr) fun p' c' hpair => ?_
          obtain ⟨hp0, hc0, q, hq, rfl, hm⟩ := hpair
          rcases List.mem_append.mp hq with hq | hq
          · exact .inl ⟨hp0, hc0, q, hq, rfl, hm⟩
          · obtain rfl := List.mem_singleton.mp hq
            obtain rfl : c' = c := by simpa [elements] using hm
            exact .inr hlive
      rcases lowerContainedIn_cases (p := p) (c := c) (s := { s with contains := rows }) with hl | hl <;> rw [hl]
      · exact hcons
      · exact hcons.same (setContainedIn_same _ _ _) rfl rfl rfl

theorem consistent_resetContainedIn (h : Consistent s) (p c : Int) : Consistent (resetContainedIn p s c) := by
  rcases resetContainedIn_cases (p := p) (c := c) (s := s) with hr | hr <;> rw [hr]
  · exact h
  · exact h.same (setContainedIn_same _ _ _) rfl rfl rfl

theorem consistent_deleteContainsParent (h : Consistent s) (p : Int) (mem : Bool) :
    Consistent (deletePhysicalContainsParentIndex p mem s).1 := by
  rcases deletePhysicalContainsParentIndex_cases (p := p) (s := s) mem with he | he <;> rw [he]
  · exact h
  · have hcons : Consistent { s with contains := removeRow p s.contains } := by
      refine h.withContains h.containsRows.removeRow fun p' c hpair => .inl ?_
      obtain ⟨hp0, hc0, q, hq, hpair⟩ := hpair
      exact ⟨hp0, hc0, q, (removeRow_sublist p _).subset hq, hpair⟩
    generalize getPhysicalContainsChildren p mem s = cs
    generalize ({ s with contains := removeRow p s.contains } : State) = u at hcons
    induction cs generalizing u with
    | nil => exact hcons
    | cons c cs ih => exact ih _ (consistent_resetContainedIn hcons p c)

theorem consistent_deleteContains (h : Consistent s) (p c : Int) :
    Consistent (deletePhysicalContainsTableEntry p c s).1 := by
  rcases deletePhysicalContainsTableEntry_cases (p := p) (c := c) (s := s) with he | ⟨r, hr, he⟩ <;> rw [he]
  · exact h
  · exact consistent_resetContainedIn (h.withContains (OneRow.setValues h.containsRows) fun p' c' hpair =>
      .inl (containsPair_dropChild hr hpair)) _ _

theorem consistent_deleteContainsChild (h : Consistent s) (c : Int) :
    Consistent (deletePhysicalContainsChildIndex c s).1 :=
  deletePhysicalContainsChildIndex_induction (fun p _ ht => consistent_deleteContains ht p c) h

end OiUserland.EntityMib.Integrity
