import OiUserland.EntityMib.MappingSets

namespace OiUserland.EntityMib.MappingRuns

open Lib.Runs EntityTable MibState PhysicalContainsTable LPMappingTable AliasMappingTable
open PhysicalTable LogicalTable ListInvariant Module EntrySteps Purge MappingSets

variable {s s' : State} {o : Op} {x p c l : Int}

theorem found_guards {E : Type} {t : Table E} (h : (getTableEntry x t).isSome) :
    inRange x ∧ getTableStaleEntry x t = none ∧ (getTableEntry x t).isNone = false := by
  obtain ⟨n, hn⟩ := Option.isSome_iff_exists.mp h
  have hnone : (getTableEntry x t).isNone = false := by rw [hn]; rfl
  unfold getTableEntry at hn
  split at hn
  · rename_i hx
    refine ⟨hx, ?_, hnone⟩
    rw [getTableStaleEntry, if_pos hx]
    split at hn
    · rename_i m hm
      rw [hm]
    · cases hn
  · cases hn

theorem live_guards (h : (getPhysicalTableEntry x s).isSome) :
    inRange x ∧ getPhysicalTableStaleEntry x s = none ∧ (getPhysicalTableEntry x s).isNone = false :=
  found_guards h

theorem liveLogical_guards (h : (getLogicalTableEntry x s).isSome) :
    inRange x ∧ getLogicalTableStaleEntry x s = none ∧ (getLogicalTableEntry x s).isNone = false :=
  found_guards h

theorem SoundTables.congr (h : SoundTables s) (hc : s'.contains = s.contains) (hl : s'.lpMapping = s.lpMapping)
    (ha : s'.aliasMapping = s.aliasMapping) : SoundTables s' :=
  ⟨hc ▸ h.contains, hl ▸ h.lpMapping, ha ▸ h.aliasMapping⟩

theorem SoundTables.withContains {rows : List (MappingRow Int)} (h : SoundTables s) (hrows : SoundContains rows) :
    SoundTables { s with contains := rows } := ⟨hrows, h.lpMapping, h.aliasMapping⟩

theorem SoundTables.withLP {rows : List (MappingRow Int)} (h : SoundTables s) (hrows : SoundLP rows) :
    SoundTables { s with lpMapping := rows } := ⟨h.contains, hrows, h.aliasMapping⟩

theorem SoundTables.withAliases {rows : List (MappingRow LogicalAlias)} (h : SoundTables s)
    (hrows : SoundAliases rows) : SoundTables { s with aliasMapping := rows } := ⟨h.contains, h.lpMapping, hrows⟩

theorem sound_lower (h : SoundTables s) (p c : Int) : SoundTables (lowerContainedIn p c s) := by
  obtain ⟨hc, hl, ha⟩ := lowerContainedIn_tables p c s
  exact SoundTables.congr h hc hl ha

theorem sound_reset (h : SoundTables s) (p c : Int) : SoundTables (resetContainedIn p s c) := by
  obtain ⟨hc, hl, ha⟩ := resetContainedIn_tables p s c
  exact SoundTables.congr h hc hl ha

theorem sound_linkChild (h : SoundTables s) (hp : inRange p) (hc : 0 < c) (mem : AddMemory) :
    SoundTables (linkChild p c mem s).1 := by
  rcases linkChild_rows h.contains hp hc mem with ⟨he, _⟩ | ⟨he, _⟩ | ⟨_, _, hrows, he⟩ | ⟨rows, hrows, _, _, he⟩ <;>
    rw [he]
  · exact h
  · exact h
  · exact SoundTables.withContains h hrows
  · exact sound_lower (SoundTables.withContains h hrows) p c

theorem sound_addContains {mem : AddMemory} {rc : Int} (h : SoundTables s)
    (hadd : addPhysicalContainsTableEntry p c mem s = some (s', rc)) : SoundTables s' := by
  rcases addPhysicalContainsTableEntry_cases hadd with rfl | ⟨hr, _, rfl⟩
  · exact h
  · obtain ⟨_, hp, hc⟩ := rejectContains_none hr
    exact sound_linkChild h (live_guards hp).1 (inRange_pos (live_guards hc).1) mem

theorem sound_deleteContains (h : SoundTables s) (p c : Int) :
    SoundTables (deletePhysicalContainsTableEntry p c s).1 := by
  rcases deletePhysicalContainsTableEntry_cases (p := p) (c := c) (s := s) with he | ⟨r, hr, he⟩ <;> rw [he]
  · exact h
  · exact sound_reset (SoundTables.withContains h (dropChild_rows h.contains hr c).1) p c

theorem sound_deleteContainsParent (h : SoundTables s) (p : Int) (mem : Bool) :
    SoundTables (deletePhysicalContainsParentIndex p mem s).1 := by
  rcases deletePhysicalContainsParentIndex_cases (p := p) (s := s) mem with he | he <;> rw [he]
  · exact h
  · obtain ⟨hc, hl, ha⟩ := foldl_reset_tables p (getPhysicalContainsChildren p mem s)
      { s with contains := removeRow p s.contains }
    exact SoundTables.congr (SoundTables.withContains h (removeRow_sound h.contains)) hc hl ha

theorem sound_deleteContainsChild (h : SoundTables s) (c : Int) :
    SoundTables (deletePhysicalContainsChildIndex c s).1 :=
  deletePhysicalContainsChildIndex_induction (fun p _ ht => sound_deleteContains ht p c) h

theorem sound_addLP (h : SoundTables s) (l p : Int) : SoundTables (addLPMappingTableEntry l p s).1 := by
  rcases addLPMappingTableEntry_cases (l := l) (p := p) (s := s) with
    he | ⟨hl, hp, ⟨r, vs, hr, hvs, he⟩ | ⟨hr, he⟩⟩ <;> rw [he]
  · exact h
  · have h0 := inRange_pos (live_guards hp).1
    exact SoundTables.withLP h (storeIndex_rows h.lpMapping hr h0 hvs).1
  · have h0 := inRange_pos (live_guards hp).1
    exact SoundTables.withLP h (appendLP_rows h.lpMapping hr (inRange_pos (liveLogical_guards hl).1) h0).1

theorem sound_deleteLP (h : SoundTables s) (l p : Int) : SoundTables (deleteLPMappingTableEntry l p s).1 := by
  rcases deleteLPMappingTableEntry_cases (l := l) (p := p) (s := s) with he | ⟨hp, r, hr, he⟩ <;> rw [he]
  · exact h
  · exact SoundTables.withLP h (negateIndex_rows h.lpMapping hr (inRange_pos hp)).1

theorem sound_deleteLPPhysical (h : SoundTables s) (p : Int) :
    SoundTables (deleteLPMappingPhysicalIndex p s).1 := by
  rcases deleteLPMappingPhysicalIndex_cases (p := p) (s := s) with he | ⟨hp, he⟩ <;> rw [he]
  · exact h
  · exact SoundTables.withLP h (negateInRow_rows h.lpMapping (inRange_pos hp)).1

theorem sound_deleteLPLogical (h : SoundTables s) (l : Int) : SoundTables (deleteLPMappingLogicalIndex l s).1 := by
  rcases deleteLPMappingLogicalIndex_cases (l := l) (s := s) with he | he <;> rw [he]
  · exact h
  · exact SoundTables.withLP h (removeLP_sound h.lpMapping)

theorem sound_addAlias (h : SoundTables s) (p l : Int) (mapId : Option (List Nat)) (size : Nat) :
    SoundTables (addAliasMappingTableEntry p l mapId size s).1 := by
  rcases addAliasMappingTableEntry_cases p l mapId size s with
    he | ⟨h0, _, ⟨n, hn, _⟩, id, ⟨r, hr, hnew, he⟩ | ⟨hr, he⟩⟩ <;> rw [he]
  · exact h
  · exact SoundTables.withAliases h (appendAlias_rows h.aliasMapping hr h0 hnew id size).1
  · have hp := inRange_pos (live_guards (Option.isSome_of_eq_some hn)).1
    exact SoundTables.withAliases h (newAlias_rows h.aliasMapping hr hp h0 id size).1

theorem sound_deleteAlias (h : SoundTables s) (p l : Int) :
    SoundTables (deleteAliasMappingTableEntry p l s).1 := by
  rcases deleteAliasMappingTableEntry_cases (p := p) (l := l) (s := s) with he | ⟨r, hr, he⟩ <;> rw [he]
  · exact h
  · exact SoundTables.withAliases h (dropAlias_rows h.aliasMapping hr).1

theorem sound_deleteAliasPhysical (h : SoundTables s) (p : Int) :
    SoundTables (deleteAliasMappingPhysicalIndex p s).1 := by
  rcases deleteAliasMappingPhysicalIndex_cases (p := p) (s := s) with he | he <;> rw [he]
  · exact h
  · exact SoundTables.withAliases h (removeAliases_sound h.aliasMapping)

theorem sound_deleteAliasLogical (h : SoundTables s) (l : Int) :
    SoundTables (deleteAliasMappingLogicalIndex l s).1 := by
  rcases deleteAliasMappingLogicalIndex_cases (l := l) (s := s) with he | he <;> rw [he]
  · exact h
  · exact SoundTables.withAliases h (dropInRow_rows h.aliasMapping l).1

theorem sound_purgePhysical (h : SoundTables s) (x : Int) (mem : Bool) : SoundTables (purgePhysical x mem s) :=
  sound_deleteContainsChild (sound_deleteContainsParent
    (sound_deleteLPPhysical (sound_deleteAliasPhysical h x) x) x mem) x

theorem sound_purgeLogical (h : SoundTables s) (x : Int) : SoundTables (purgeLogical x s) :=
  sound_deleteLPLogical (sound_deleteAliasLogical h x) x

theorem mapping_sound (h : SoundTables s) (hm : mapping o = true) (hs : step o s = some s') : SoundTables s' := by
  cases o with
  | addContains p c mem =>
      obtain ⟨r, hr, rfl⟩ := Option.map_eq_some_iff.mp hs
      exact sound_addContains h hr
  | deleteContains p c => exact step_some rfl hs ▸ sound_deleteContains h p c
  | deleteContainsParent p mem => exact step_some rfl hs ▸ sound_deleteContainsParent h p mem
  | deleteContainsChild c => exact step_some rfl hs ▸ sound_deleteContainsChild h c
  | addLP l p => exact step_some rfl hs ▸ sound_addLP h l p
  | deleteLP l p => exact step_some rfl hs ▸ sound_deleteLP h l p
  | deleteLPLogical l => exact step_some rfl hs ▸ sound_deleteLPLogical h l
  | deleteLPPhysical p => exact step_some rfl hs ▸ sound_deleteLPPhysical h p
  | addAlias p l mapId size => exact step_some rfl hs ▸ sound_addAlias h p l mapId size
  | deleteAlias p l => exact step_some rfl hs ▸ sound_deleteAlias h p l
  | deleteAliasLogical l => exact step_some rfl hs ▸ sound_deleteAliasLogical h l
  | deleteAliasPhysical p => exact step_some rfl hs ▸ sound_deleteAliasPhysical h p
  | _ => cases hm

theorem step_sound (h : SoundTables s) (hs : step o s = some s') : SoundTables s' := by
  cases step_entries hs with
  | unchanged => exact h
  | same hm _ => exact mapping_sound h hm hs
  | allocPhysical he hr hfresh ht => exact SoundTables.congr h rfl rfl rfl
  | deletePhysical hx hl =>
      rename_i x mem
      exact SoundTables.congr (sound_purgePhysical h x mem) rfl rfl rfl
  | stalePhysical hx hl =>
      rename_i x mem
      exact SoundTables.congr (sound_purgePhysical h x mem) rfl rfl rfl
  | livePhysical hx hl => exact SoundTables.congr h rfl rfl rfl
  | allocLogical he hr hfresh ht => exact SoundTables.congr h rfl rfl rfl
  | deleteLogical hx hl =>
      rename_i x
      exact SoundTables.congr (sound_purgeLogical h x) rfl rfl rfl
  | staleLogical hx hl =>
      rename_i x
      exact SoundTables.congr (sound_purgeLogical h x) rfl rfl rfl
  | liveLogical hx hl => exact SoundTables.congr h rfl rfl rfl

theorem empty_sound (h : Empty s) : SoundTables s := by
  cases h
  exact ⟨⟨⟨.nil, by simp, by simp⟩, by simp⟩, ⟨⟨.nil, by simp, by simp⟩, by simp⟩,
    ⟨⟨.nil, by simp, by simp⟩, by simp⟩⟩

theorem reachable_sound {ok : Op → State → Prop} (h : Reachable step ok Empty s) : SoundTables s :=
  h.invariant SoundTables (fun _ => empty_sound) fun _ _ _ hs _ hstep => step_sound hs hstep

end OiUserland.EntityMib.MappingRuns
