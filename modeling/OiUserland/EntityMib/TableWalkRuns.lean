import OiUserland.EntityMib.TableWalks

namespace OiUserland.EntityMib.TableWalkRuns

open Lib.Runs Lib.Cursor MibState PhysicalContainsTable LPMappingTable AliasMappingTable
open PhysicalTable LogicalTable ListInvariant MappingRows Module EntrySteps Purge RowSets MappingSets MappingRuns
open TableWalks

variable {s s' : State} {o : Op} {rows : List (MappingRow Int)} {v : Option (List Int)} {x p c l : Int}

def Nonzero (rows : List (MappingRow Int)) : Prop := ∀ r ∈ rows, 0 ∉ elements r

theorem Nonzero.ended (h : Nonzero rows) : Ended indexCells rows := by
  intro r hr z hz
  have hne : z ≠ 0 := fun he => h r hr (he ▸ hz)
  exact decide_eq_false hne

theorem ended_aliases (rows : List (MappingRow LogicalAlias)) : Ended aliasCells rows := by
  intro r _ a _
  have hsize : ¬ (a.entAliasMapIdSize : Int) < 0 := by omega
  exact decide_eq_false hsize

structure NonzeroTables (s : State) : Prop where
  contains : Nonzero s.contains
  lpMapping : Nonzero s.lpMapping

theorem NonzeroTables.congr (h : NonzeroTables s) (hc : s'.contains = s.contains)
    (hl : s'.lpMapping = s.lpMapping) : NonzeroTables s' :=
  ⟨hc ▸ h.contains, hl ▸ h.lpMapping⟩

theorem Nonzero.set (h : Nonzero rows) (hv : 0 ∉ v.getD []) : Nonzero (setValues x v rows) := by
  intro q hq
  rcases mem_setValues hq with hq | ⟨_, hqv⟩
  · exact h q hq
  · rw [elements, hqv]
    exact hv

theorem Nonzero.append (h : Nonzero rows) (hc : c ≠ 0) : Nonzero (rows ++ [⟨x, some [c]⟩]) := by
  intro q hq
  rcases List.mem_append.mp hq with hq | hq
  · exact h q hq
  · rw [List.mem_singleton.mp hq]
    exact fun hm => hc (List.mem_singleton.mp hm).symm

theorem Nonzero.remove (h : Nonzero rows) : Nonzero (removeRow x rows) :=
  fun q hq => h q ((removeRow_sublist x rows).subset hq)

theorem zero_negateIndex {vs : List Int} (p : Int) (h : 0 ∉ vs) : 0 ∉ negateIndex p vs := by
  intro hm
  have habs : (0 : Int).natAbs ∈ (negateIndex p vs).map Int.natAbs := List.mem_map_of_mem hm
  rw [negateIndex_abs] at habs
  obtain ⟨z, hz, hz0⟩ := List.mem_map.mp habs
  exact h (Int.natAbs_eq_zero.mp hz0 ▸ hz)

theorem zero_negated {r : MappingRow Int} (p : Int) (h : 0 ∉ elements r) :
    0 ∉ (r.values.map (negateIndex p)).getD [] := by
  rw [show (r.values.map (negateIndex p)).getD [] = negateIndex p (elements r) from
    elements_map (r := r) rfl]
  exact zero_negateIndex p h

theorem nonzero_addContains {mem : AddMemory} {rc : Int} (h : NonzeroTables s)
    (hadd : addPhysicalContainsTableEntry p c mem s = some (s', rc)) : NonzeroTables s' := by
  rcases addPhysicalContainsTableEntry_cases hadd with rfl | ⟨hr, _, rfl⟩
  · exact h
  · have hc := inRange_pos (live_guards (rejectContains_none hr).2.2).1
    rcases linkChild_cases (p := p) (c := c) (s := s) mem with he | ⟨_, he⟩ | ⟨rows, hrows, he⟩ <;> rw [he]
    · exact h
    · exact ⟨h.contains.set (by simp), h.lpMapping⟩
    · obtain ⟨hcontains, hlp, _⟩ := lowerContainedIn_tables p c { s with contains := rows }
      have hnz : Nonzero rows := by
        rcases hrows with ⟨r, vs, hr, hvs, rfl⟩ | ⟨_, rfl⟩
        · apply h.contains.set
          intro hm
          rcases hvs 0 hm with hm | hm
          · exact h.contains r (findRow_some hr).1 hm
          · omega
        · exact h.contains.append (by omega)
      exact NonzeroTables.congr (s := { s with contains := rows }) ⟨hnz, h.lpMapping⟩ hcontains hlp

theorem nonzero_deleteContains (h : NonzeroTables s) (p c : Int) :
    NonzeroTables (deletePhysicalContainsTableEntry p c s).1 := by
  rcases deletePhysicalContainsTableEntry_cases (p := p) (c := c) (s := s) with he | ⟨r, hr, he⟩ <;> rw [he]
  · exact h
  · obtain ⟨hcontains, hlp, _⟩ := resetContainedIn_tables p { s with contains := dropChild p c r s.contains } c
    have hnz : Nonzero (dropChild p c r s.contains) := by
      intro q hq
      rcases dropChild_elements hq with hq | ⟨_, hv⟩
      · exact h.contains q hq
      · rw [hv]
        intro hm
        obtain ⟨z, hz, hz0⟩ := List.mem_map.mp hm
        split at hz0
        · omega
        · exact h.contains r (findRow_some hr).1 (hz0 ▸ hz)
    exact NonzeroTables.congr (s := { s with contains := dropChild p c r s.contains }) ⟨hnz, h.lpMapping⟩
      hcontains hlp

theorem nonzero_deleteContainsParent (h : NonzeroTables s) (p : Int) (mem : Bool) :
    NonzeroTables (deletePhysicalContainsParentIndex p mem s).1 := by
  rcases deletePhysicalContainsParentIndex_cases (p := p) (s := s) mem with he | he <;> rw [he]
  · exact h
  · obtain ⟨hc, hl, _⟩ := foldl_reset_tables p (getPhysicalContainsChildren p mem s)
      { s with contains := removeRow p s.contains }
    exact NonzeroTables.congr (s := { s with contains := removeRow p s.contains })
      ⟨h.contains.remove, h.lpMapping⟩ hc hl

theorem nonzero_deleteContainsChild (h : NonzeroTables s) (c : Int) :
    NonzeroTables (deletePhysicalContainsChildIndex c s).1 :=
  deletePhysicalContainsChildIndex_induction (fun p _ ht => nonzero_deleteContains ht p c) h

theorem nonzero_addLP (h : NonzeroTables s) (l p : Int) : NonzeroTables (addLPMappingTableEntry l p s).1 := by
  rcases addLPMappingTableEntry_cases (l := l) (p := p) (s := s) with
    he | ⟨_, hp, ⟨r, vs, hr, hvs, he⟩ | ⟨_, he⟩⟩ <;> rw [he]
  · exact h
  · have h0 := inRange_pos (live_guards hp).1
    refine ⟨h.contains, h.lpMapping.set fun hm => ?_⟩
    rcases (storeIndex_some hvs).2 0 hm with hm | hm
    · exact h.lpMapping r (findRow_some hr).1 hm
    · omega
  · have h0 := inRange_pos (live_guards hp).1
    exact ⟨h.contains, h.lpMapping.append (by omega)⟩

theorem nonzero_deleteLP (h : NonzeroTables s) (l p : Int) : NonzeroTables (deleteLPMappingTableEntry l p s).1 := by
  rcases deleteLPMappingTableEntry_cases (l := l) (p := p) (s := s) with he | ⟨_, r, hr, he⟩ <;> rw [he]
  · exact h
  · exact ⟨h.contains, h.lpMapping.set (zero_negated p (h.lpMapping r (findRow_some hr).1))⟩

theorem nonzero_deleteLPPhysical (h : NonzeroTables s) (p : Int) :
    NonzeroTables (deleteLPMappingPhysicalIndex p s).1 := by
  rcases deleteLPMappingPhysicalIndex_cases (p := p) (s := s) with he | ⟨_, he⟩ <;> rw [he]
  · exact h
  · refine ⟨h.contains, fun q hq => ?_⟩
    obtain ⟨r, hr, rfl⟩ := List.mem_map.mp hq
    exact zero_negated p (h.lpMapping r hr)

theorem nonzero_deleteLPLogical (h : NonzeroTables s) (l : Int) :
    NonzeroTables (deleteLPMappingLogicalIndex l s).1 := by
  rcases deleteLPMappingLogicalIndex_cases (l := l) (s := s) with he | he <;> rw [he]
  · exact h
  · exact ⟨h.contains, h.lpMapping.remove⟩

theorem nonzero_addAlias (h : NonzeroTables s) (p l : Int) (mapId : Option (List Nat)) (size : Nat) :
    NonzeroTables (addAliasMappingTableEntry p l mapId size s).1 := by
  rcases addAliasMappingTableEntry_cases p l mapId size s with he | ⟨_, _, _, _, ⟨_, _, _, he⟩ | ⟨_, he⟩⟩ <;> rw [he]
  · exact h
  · exact h.congr rfl rfl
  · exact h.congr rfl rfl

theorem nonzero_deleteAlias (h : NonzeroTables s) (p l : Int) :
    NonzeroTables (deleteAliasMappingTableEntry p l s).1 := by
  rcases deleteAliasMappingTableEntry_cases (p := p) (l := l) (s := s) with he | ⟨_, _, he⟩ <;> rw [he]
  · exact h
  · exact h.congr rfl rfl

theorem nonzero_deleteAliasPhysical (h : NonzeroTables s) (p : Int) :
    NonzeroTables (deleteAliasMappingPhysicalIndex p s).1 := by
  rcases deleteAliasMappingPhysicalIndex_cases (p := p) (s := s) with he | he <;> rw [he]
  · exact h
  · exact h.congr rfl rfl

theorem nonzero_deleteAliasLogical (h : NonzeroTables s) (l : Int) :
    NonzeroTables (deleteAliasMappingLogicalIndex l s).1 := by
  rcases deleteAliasMappingLogicalIndex_cases (l := l) (s := s) with he | he <;> rw [he]
  · exact h
  · exact h.congr rfl rfl

theorem nonzero_purgePhysical (h : NonzeroTables s) (x : Int) (mem : Bool) : NonzeroTables (purgePhysical x mem s) :=
  nonzero_deleteContainsChild (nonzero_deleteContainsParent
    (nonzero_deleteLPPhysical (nonzero_deleteAliasPhysical h x) x) x mem) x

theorem nonzero_purgeLogical (h : NonzeroTables s) (x : Int) : NonzeroTables (purgeLogical x s) :=
  nonzero_deleteLPLogical (nonzero_deleteAliasLogical h x) x

theorem mapping_nonzero (h : NonzeroTables s) (hm : mapping o = true) (hs : step o s = some s') :
    NonzeroTables s' := by
  cases o with
  | addContains p c mem =>
      obtain ⟨r, hr, rfl⟩ := Option.map_eq_some_iff.mp hs
      exact nonzero_addContains h hr
  | deleteContains p c => exact step_some rfl hs ▸ nonzero_deleteContains h p c
  | deleteContainsParent p mem => exact step_some rfl hs ▸ nonzero_deleteContainsParent h p mem
  | deleteContainsChild c => exact step_some rfl hs ▸ nonzero_deleteContainsChild h c
  | addLP l p => exact step_some rfl hs ▸ nonzero_addLP h l p
  | deleteLP l p => exact step_some rfl hs ▸ nonzero_deleteLP h l p
  | deleteLPLogical l => exact step_some rfl hs ▸ nonzero_deleteLPLogical h l
  | deleteLPPhysical p => exact step_some rfl hs ▸ nonzero_deleteLPPhysical h p
  | addAlias p l mapId size => exact step_some rfl hs ▸ nonzero_addAlias h p l mapId size
  | deleteAlias p l => exact step_some rfl hs ▸ nonzero_deleteAlias h p l
  | deleteAliasLogical l => exact step_some rfl hs ▸ nonzero_deleteAliasLogical h l
  | deleteAliasPhysical p => exact step_some rfl hs ▸ nonzero_deleteAliasPhysical h p
  | _ => cases hm

theorem step_nonzero (h : NonzeroTables s) (hs : step o s = some s') : NonzeroTables s' := by
  cases step_entries hs with
  | unchanged => exact h
  | same hm _ => exact mapping_nonzero h hm hs
  | allocPhysical he hr hfresh ht => exact h.congr rfl rfl
  | deletePhysical hx hl => exact (nonzero_purgePhysical h _ _).congr rfl rfl
  | stalePhysical hx hl => exact (nonzero_purgePhysical h _ _).congr rfl rfl
  | livePhysical hx hl => exact h.congr rfl rfl
  | allocLogical he hr hfresh ht => exact h.congr rfl rfl
  | deleteLogical hx hl => exact (nonzero_purgeLogical h _).congr rfl rfl
  | staleLogical hx hl => exact (nonzero_purgeLogical h _).congr rfl rfl
  | liveLogical hx hl => exact h.congr rfl rfl

theorem empty_nonzero (h : Empty s) : NonzeroTables s := by
  cases h
  exact ⟨by simp [Nonzero], by simp [Nonzero]⟩

theorem reachable_nonzero {ok : Op → State → Prop} (h : Reachable step ok Empty s) : NonzeroTables s :=
  h.invariant NonzeroTables (fun _ => empty_nonzero) fun _ _ _ hs _ hstep => step_nonzero hs hstep

/-- In a state that any calls lead to, a walk of each mapping table ends after showing every
live pair once, with the contexts at the pair that is shown. -/
theorem reachable_walks {x y : Contexts Int} {z : Contexts LogicalAlias}
    (h : Reachable step (fun _ _ => True) Empty s) :
    (Enumerates (walk (entPhysicalContainsTableGetFirstDataPoint s x) entPhysicalContainsTableGetNextDataPoint)
        Prod.snd {q | ContainsPair s q.1 q.2} ∧
      ∀ k w, walk (entPhysicalContainsTableGetFirstDataPoint s x) entPhysicalContainsTableGetNextDataPoint k = some w →
        Matches indexCells s.contains w) ∧
    (Enumerates (walk (entLPMappingTableGetFirstDataPoint s y) entLPMappingTableGetNextDataPoint)
        Prod.snd {q | LPPair s q.1 q.2} ∧
      ∀ k w, walk (entLPMappingTableGetFirstDataPoint s y) entLPMappingTableGetNextDataPoint k = some w →
        Matches indexCells s.lpMapping w) ∧
    (Enumerates (walk (entAliasMappingTableGetFirstDataPoint s z) entAliasMappingTableGetNextDataPoint)
        Prod.snd {q | AliasPair s q.1 q.2} ∧
      ∀ k w, walk (entAliasMappingTableGetFirstDataPoint s z) entAliasMappingTableGetNextDataPoint k = some w →
        Matches aliasCells s.aliasMapping w) := by
  have hsound := reachable_sound h
  have hnonzero := reachable_nonzero h
  have hcontains : SoundRows (value indexCells) s.contains := value_index ▸ hsound.contains.toSoundRows
  have hlp : SoundRows (value indexCells) s.lpMapping := value_index ▸ hsound.lpMapping.toSoundRows
  have halias : SoundRows (value aliasCells) s.aliasMapping := value_alias ▸ hsound.aliasMapping.toSoundRows
  refine ⟨?_, ?_, ?_⟩
  · have hset : {q : Int × Int | ContainsPair s q.1 q.2} = pairs (value indexCells) s.contains := by
      ext ⟨a, b⟩
      rw [value_index]
      exact SoundRows.containsPair hsound.contains.toSoundRows
    rw [hset]
    exact walk_enumerates hcontains hnonzero.contains.ended x
  · have hset : {q : Int × Int | LPPair s q.1 q.2} = pairs (value indexCells) s.lpMapping := by
      ext ⟨a, b⟩
      rw [value_index]
      exact SoundRows.lpPair hsound.lpMapping.toSoundRows
    rw [hset]
    exact walk_enumerates hlp hnonzero.lpMapping.ended y
  · have hset : {q : Int × Int | AliasPair s q.1 q.2} = pairs (value aliasCells) s.aliasMapping := by
      ext ⟨a, b⟩
      rw [value_alias]
      exact SoundRows.aliasPair hsound.aliasMapping.toSoundRows
    rw [hset]
    exact walk_enumerates halias (ended_aliases s.aliasMapping) { z with tracker := none }

def deleting : List Op :=
  [.allocPhysical 1 {} (some 1), .allocPhysical 2 {} (some 2),
    .allocPhysical 3 { entPhysicalClass := 10 } (some 3), .allocLogical 1 {} (some 4),
    .addContains 1 2 {}, .addContains 1 3 {}, .deleteContains 1 2, .addLP 1 2, .addAlias 3 0 (some []) 0]

theorem reachable_walks_deleted : ∃ s, ¬ ContainsPair s 1 2 ∧ ContainsPair s 1 3 ∧ LPPair s 1 2 ∧ AliasPair s 3 0 ∧
    Enumerates (walk (entPhysicalContainsTableGetFirstDataPoint s {}) entPhysicalContainsTableGetNextDataPoint)
      Prod.snd {q | ContainsPair s q.1 q.2} := by
  have hrun : (exec step deleting {}).any (fun s =>
      decide (∀ r ∈ s.contains, 2 ∉ elements r) && decide (∃ r ∈ s.contains, r.index = 1 ∧ 3 ∈ elements r) &&
      decide (∃ r ∈ s.lpMapping, r.index = 1 ∧ 2 ∈ elements r) &&
      decide (∃ r ∈ s.aliasMapping, r.index = 3 ∧
        0 ∈ (elements r).map LogicalAlias.entAliasLogicalIndexorZero)) = true := by decide +kernel
  obtain ⟨s, hs, hp⟩ := (Option.any_eq_true _ _).mp hrun
  simp only [Bool.and_eq_true, decide_eq_true_eq] at hp
  obtain ⟨⟨⟨hgone, hcontains⟩, hlp⟩, halias⟩ := hp
  refine ⟨s, ?_, ⟨by decide, by decide, hcontains⟩, ⟨by decide, by decide, hlp⟩, ⟨by decide, by decide, halias⟩, ?_⟩
  · rintro ⟨_, _, r, hr, _, hm⟩
    exact hgone r hr hm
  · have hreach : Reachable step (fun _ _ => True) Empty s :=
      reachable_of_exec deleting (fun _ _ _ => trivial) (.start rfl) hs
    exact (reachable_walks (y := {}) (z := {}) hreach).1.1

end OiUserland.EntityMib.TableWalkRuns
