import OiUserland.EntityMib.MappingRuns

namespace OiUserland.EntityMib.ContainedIn

open EntityTable Entities MibState PhysicalContainsTable LPMappingTable AliasMappingTable
open LogicalTable ListInvariant MappingRows Frames Module EntrySteps Integrity Purge
open RowSets MappingSets MappingRuns

variable {s s' : State} {n : Node PhysicalEntry} {p c x q v : Int}

def LeastParent (s : State) (c v : Int) : Prop :=
  IsLeast {p | ContainsPair s p c} v ∨ ({p | ContainsPair s p c} = ∅ ∧ v = 0)

section Lowest

variable {rows : List (MappingRow Int)}

def LowestIn (c : Int) (rows : List (MappingRow Int)) (v : Int) : Prop :=
  IsLeast {p | ∃ r ∈ rows, r.index = p ∧ c ∈ elements r} v ∨ ((∀ r ∈ rows, c ∉ elements r) ∧ v = 0)

theorem lowestIn_step {r : MappingRow Int} (hpos : ∀ q ∈ rows, 0 < q.index) (h : LowestIn c rows v) :
    LowestIn c (rows ++ [r])
      (if c ∈ elements r then (if v = 0 then r.index else if v > r.index then r.index else v) else v) := by
  have hmem (p : Int) : (∃ q ∈ rows ++ [r], q.index = p ∧ c ∈ elements q) ↔
      (∃ q ∈ rows, q.index = p ∧ c ∈ elements q) ∨ (r.index = p ∧ c ∈ elements r) := by
    simp only [List.mem_append, List.mem_singleton, or_and_right, exists_or, exists_eq_left]
  by_cases hc : c ∈ elements r
  · rw [if_pos hc]
    refine .inl ?_
    rcases h with ⟨⟨q, hq, hqv, hqc⟩, hlow⟩ | ⟨hnone, rfl⟩
    · have hv : v ≠ 0 := by
        have := hpos q hq
        omega
      rw [if_neg hv]
      by_cases hlt : v > r.index
      · rw [if_pos hlt]
        refine ⟨(hmem _).mpr (.inr ⟨rfl, hc⟩), fun a ha => ?_⟩
        rcases (hmem a).mp ha with ha | ⟨rfl, _⟩
        · exact le_trans hlt.le (hlow ha)
        · exact le_refl _
      · rw [if_neg hlt]
        refine ⟨(hmem _).mpr (.inl ⟨q, hq, hqv, hqc⟩), fun a ha => ?_⟩
        rcases (hmem a).mp ha with ha | ⟨rfl, _⟩
        · exact hlow ha
        · omega
    · rw [if_pos rfl]
      refine ⟨(hmem _).mpr (.inr ⟨rfl, hc⟩), fun a ha => ?_⟩
      rcases (hmem a).mp ha with ⟨q, hq, _, hqc⟩ | ⟨rfl, _⟩
      · exact absurd hqc (hnone q hq)
      · exact le_refl _
  · rw [if_neg hc]
    rcases h with ⟨hin, hlow⟩ | ⟨hnone, rfl⟩
    · refine .inl ⟨(hmem v).mpr (.inl hin), fun a ha => ?_⟩
      rcases (hmem a).mp ha with ha | ⟨_, hac⟩
      · exact hlow ha
      · exact absurd hac hc
    · refine .inr ⟨fun q hq => ?_, rfl⟩
      rcases List.mem_append.mp hq with hq | hq
      · exact hnone q hq
      · rw [List.mem_singleton.mp hq]
        exact hc

theorem lowestParent_lowestIn (c : Int) (hpos : ∀ r ∈ rows, 0 < r.index) :
    LowestIn c rows (lowestParent c rows) := by
  induction rows using List.reverseRecOn with
  | nil => exact .inr ⟨by simp, rfl⟩
  | append_singleton rows r ih =>
      have hbefore : ∀ q ∈ rows, 0 < q.index := fun q hq => hpos q (List.mem_append_left _ hq)
      have hstep := lowestIn_step (r := r) hbefore (ih hbefore)
      rw [lowestParent, List.foldl_append]
      exact hstep

theorem lowestParent_least (h : SoundContains s.contains) (hc : 0 < c) :
    LeastParent s c (lowestParent c s.contains) := by
  have hset : {p | ∃ r ∈ s.contains, r.index = p ∧ c ∈ elements r} = {p | ContainsPair s p c} := by
    ext p
    constructor
    · rintro ⟨r, hr, rfl, hm⟩
      exact ⟨h.positive r hr, hc, r, hr, rfl, hm⟩
    · rintro ⟨_, _, hex⟩
      exact hex
  rcases lowestParent_lowestIn c h.positive with hleast | ⟨hnone, h0⟩
  · rw [hset] at hleast
    exact .inl hleast
  · refine .inr ⟨?_, h0⟩
    rw [← hset, Set.eq_empty_iff_forall_notMem]
    rintro p ⟨r, hr, _, hm⟩
    exact hnone r hr hm

end Lowest

def elsewhere : Op → Bool
  | .addLP .. | .deleteLP .. | .deleteLPLogical .. | .deleteLPPhysical .. => true
  | .addAlias .. | .deleteAlias .. | .deleteAliasLogical .. | .deleteAliasPhysical .. => true
  | _ => false

def Elsewhere (s t : State) : Prop := t.physical = s.physical ∧ t.contains = s.contains

theorem deleteLPPhysical_elsewhere (p : Int) (s : State) : Elsewhere s (deleteLPMappingPhysicalIndex p s).1 := by
  rcases deleteLPMappingPhysicalIndex_cases (p := p) (s := s) with he | ⟨_, he⟩ <;> rw [he] <;> exact ⟨rfl, rfl⟩

theorem deleteLPLogical_elsewhere (l : Int) (s : State) : Elsewhere s (deleteLPMappingLogicalIndex l s).1 := by
  rcases deleteLPMappingLogicalIndex_cases (l := l) (s := s) with he | he <;> rw [he] <;> exact ⟨rfl, rfl⟩

theorem deleteAliasPhysical_elsewhere (p : Int) (s : State) :
    Elsewhere s (deleteAliasMappingPhysicalIndex p s).1 := by
  rcases deleteAliasMappingPhysicalIndex_cases (p := p) (s := s) with he | he <;> rw [he] <;> exact ⟨rfl, rfl⟩

theorem deleteAliasLogical_elsewhere (l : Int) (s : State) : Elsewhere s (deleteAliasMappingLogicalIndex l s).1 := by
  rcases deleteAliasMappingLogicalIndex_cases (l := l) (s := s) with he | he <;> rw [he] <;> exact ⟨rfl, rfl⟩

theorem purgeLogical_elsewhere (x : Int) (s : State) : Elsewhere s (purgeLogical x s) := by
  obtain ⟨h1, h2⟩ := deleteAliasLogical_elsewhere x s
  obtain ⟨h3, h4⟩ := deleteLPLogical_elsewhere x (deleteAliasMappingLogicalIndex x s).1
  exact ⟨h3.trans h1, h4.trans h2⟩

theorem step_elsewhere {o : Op} (ho : elsewhere o = true) (hs : step o s = some s') : Elsewhere s s' := by
  cases o with
  | addLP l p =>
      obtain rfl := step_some rfl hs
      rcases addLPMappingTableEntry_cases (l := l) (p := p) (s := s) with
        he | ⟨_, _, ⟨r, vs, _, _, he⟩ | ⟨_, he⟩⟩ <;> rw [he] <;> exact ⟨rfl, rfl⟩
  | deleteLP l p =>
      obtain rfl := step_some rfl hs
      rcases deleteLPMappingTableEntry_cases (l := l) (p := p) (s := s) with he | ⟨_, r, _, he⟩ <;> rw [he] <;>
        exact ⟨rfl, rfl⟩
  | deleteLPLogical l => exact step_some rfl hs ▸ deleteLPLogical_elsewhere l s
  | deleteLPPhysical p => exact step_some rfl hs ▸ deleteLPPhysical_elsewhere p s
  | addAlias p l mapId size =>
      obtain rfl := step_some rfl hs
      rcases addAliasMappingTableEntry_cases p l mapId size s with
        he | ⟨_, _, _, id, ⟨r, _, _, he⟩ | ⟨_, he⟩⟩ <;> rw [he] <;> exact ⟨rfl, rfl⟩
  | deleteAlias p l =>
      obtain rfl := step_some rfl hs
      rcases deleteAliasMappingTableEntry_cases (p := p) (l := l) (s := s) with he | ⟨r, _, he⟩ <;> rw [he] <;>
        exact ⟨rfl, rfl⟩
  | deleteAliasLogical l => exact step_some rfl hs ▸ deleteAliasLogical_elsewhere l s
  | deleteAliasPhysical p => exact step_some rfl hs ▸ deleteAliasPhysical_elsewhere p s
  | _ => cases ho

/-- The nodes after a store into the entry `x`. -/
theorem mem_setContainedIn (ho : Ordered s.physical.head) (hn : n ∈ (setContainedIn x q s).physical.head) :
    (n ∈ s.physical.head ∧ n.index ≠ x) ∨
      (n.index = x ∧ n.entry.entPhysicalContainedIn = q ∧ ∃ m ∈ s.physical.head, m.index = x) := by
  have hassign (l : List (Node PhysicalEntry)) (ho : Ordered l)
      (hn : n ∈ assign x (fun e => { e with entPhysicalContainedIn := q }) l) :
      (n ∈ l ∧ n.index ≠ x) ∨
        (n.index = x ∧ n.entry.entPhysicalContainedIn = q ∧ ∃ m ∈ l, m.index = x) := by
    induction l with
    | nil => cases hn
    | cons z zs ih =>
        unfold assign at hn
        split at hn
        · rename_i hz
          rcases List.mem_cons.mp hn with rfl | hn
          · exact .inr ⟨hz, rfl, z, List.mem_cons_self, hz⟩
          · refine .inl ⟨List.mem_cons_of_mem z hn, fun hnx => ?_⟩
            have hlt := ho.head_lt hn
            rw [hz, hnx] at hlt
            exact Nat.lt_irrefl _ hlt
        · rename_i hz
          rcases List.mem_cons.mp hn with rfl | hn
          · exact .inl ⟨List.mem_cons_self, hz⟩
          · rcases ih ho.tail hn with ⟨hn, hnx⟩ | ⟨hnx, hnq, m, hm, hmx⟩
            · exact .inl ⟨List.mem_cons_of_mem z hn, hnx⟩
            · exact .inr ⟨hnx, hnq, m, List.mem_cons_of_mem z hm, hmx⟩
  exact hassign _ ho hn

/-- The nodes after a child has lost its parent `p`: those recorded in `p` have been given
the lowest parent left. -/
theorem mem_resetContainedIn (ho : Ordered s.physical.head) (hc : 0 < c)
    (hn : n ∈ (resetContainedIn p s c).physical.head) :
    (n ∈ s.physical.head ∧ (n.index = c → n.entry.entPhysicalContainedIn ≠ p)) ∨
      (n.index = c ∧ n.entry.entPhysicalContainedIn = lowestParent c s.contains ∧
        ∃ m ∈ s.physical.head, m.index = c ∧ m.entry.entPhysicalContainedIn = p) := by
  unfold resetContainedIn at hn
  split at hn
  · rename_i m hm
    obtain ⟨_, hmem, hmc⟩ := getTableEntry_some hm
    split at hn
    · rename_i hmp
      rcases mem_setContainedIn ho hn with ⟨hn, hnc⟩ | ⟨hnc, hnv, _⟩
      · exact .inl ⟨hn, fun he => absurd he hnc⟩
      · exact .inr ⟨hnc, hnv, m, hmem, hmc, hmp⟩
    · rename_i hmp
      refine .inl ⟨hn, fun hnc => ?_⟩
      rw [ho.unique hn hmem (by rw [hnc, hmc])]
      exact hmp
  · rename_i hnone
    refine .inl ⟨hn, fun hnc => ?_⟩
    subst hnc
    rw [getPhysicalTableEntry, getTableEntry_live ho hn hc] at hnone
    cases hnone

theorem mem_foldl_reset (cs : List Int) (ho : Ordered s.physical.head) (hcs : ∀ c ∈ cs, 0 < c)
    (hn : n ∈ (cs.foldl (resetContainedIn p) s).physical.head) :
    (n ∈ s.physical.head ∧ (n.index ∈ cs → n.entry.entPhysicalContainedIn ≠ p)) ∨
      (n.index ∈ cs ∧ n.entry.entPhysicalContainedIn = lowestParent n.index s.contains ∧
        ∃ m ∈ s.physical.head, m.index = n.index ∧ m.entry.entPhysicalContainedIn = p) := by
  induction cs generalizing s with
  | nil => exact .inl ⟨hn, by simp⟩
  | cons c cs ih =>
      have ho' : Ordered (resetContainedIn p s c).physical.head := ho.congr (resetContainedIn_same p s c).key
      have hrows := (resetContainedIn_tables p s c).1
      have hc := hcs c List.mem_cons_self
      rcases ih ho' (fun z hz => hcs z (List.mem_cons_of_mem c hz)) hn with ⟨hn, hne⟩ | ⟨hin, hv, m, hm, hmn, hmp⟩
      · rcases mem_resetContainedIn ho hc hn with ⟨hn, hnc⟩ | ⟨rfl, hv, hex⟩
        · refine .inl ⟨hn, fun hin => ?_⟩
          rcases List.mem_cons.mp hin with hin | hin
          · exact hnc hin
          · exact hne hin
        · exact .inr ⟨List.mem_cons_self, hv, hex⟩
      · rw [hrows] at hv
        refine .inr ⟨List.mem_cons_of_mem c hin, hv, ?_⟩
        rcases mem_resetContainedIn ho hc hm with ⟨hm, _⟩ | ⟨hmc, _, hex⟩
        · exact ⟨m, hm, hmn, hmp⟩
        · rw [← hmn, hmc]
          exact hex

theorem mem_children (h : Consistent s) (mem : Bool) :
    c ∈ getPhysicalContainsChildren p mem s ↔ mem = true ∧ ContainsPair s p c := by
  constructor
  · intro hc
    unfold getPhysicalContainsChildren at hc
    split at hc
    · cases hc
    · rename_i hlive
      split at hc
      · rename_i r hr
        split at hc
        · rename_i hm
          obtain ⟨hmem, hrp⟩ := findRow_some hr
          obtain ⟨hc, h0⟩ := List.mem_filter.mp hc
          have hp := livePhysical_of_get (Option.isSome_iff_ne_none.mpr (by simpa using hlive))
          exact ⟨hm, hp.1, by simpa using h0, r, hmem, hrp, hc⟩
        · cases hc
      · cases hc
  · rintro ⟨rfl, hpair⟩
    obtain ⟨_, _, hlive⟩ := LivePhysical.guards h (h.contains p c hpair).1
    obtain ⟨_, h0, r, hr, rfl, hc⟩ := hpair
    have hf := findRow_mem h.containsRows hr
    have hn : (getPhysicalTableEntry r.index s).isNone = false := (live_guards hlive).2.2
    simp [getPhysicalContainsChildren, hn, hf, hc, h0]

/-- Some children of `p` have lost it. If their list could be allocated, those that were
recorded in `p` have been given the lowest parent left. -/
structure LosesParent (s t : State) (p : Int) (lost : Int → Prop) (mem : Bool) : Prop where
  pairs : ∀ a b, ContainsPair t a b ↔ ContainsPair s a b ∧ ¬ (a = p ∧ lost b)
  nodes : ∀ n ∈ t.physical.head,
    (n ∈ s.physical.head ∧
      (mem = true → ContainsPair s p n.index → lost n.index → n.entry.entPhysicalContainedIn ≠ p)) ∨
    (ContainsPair s p n.index ∧ lost n.index ∧ LeastParent t n.index n.entry.entPhysicalContainedIn ∧
      ∃ m ∈ s.physical.head, m.index = n.index ∧ m.entry.entPhysicalContainedIn = p)

theorem LosesParent.refused {lost : Int → Prop} {mem : Bool} (h : ∀ c, lost c → ¬ ContainsPair s p c) :
    LosesParent s s p lost mem where
  pairs a b := by
    constructor
    · intro hab
      refine ⟨hab, ?_⟩
      rintro ⟨rfl, hb⟩
      exact h b hb hab
    · exact fun hab => hab.1
  nodes n hn := .inl ⟨hn, fun _ hp hl => absurd hp (h n.index hl)⟩

theorem LeastParent.congr {t : State} (h : LeastParent s c v) (hc : t.contains = s.contains) :
    LeastParent t c v := by
  have hpair (a : Int) : ContainsPair t a c ↔ ContainsPair s a c := by simp only [ContainsPair, hc]
  simpa only [LeastParent, hpair] using h

theorem deleteContainsParent_loses (h : Consistent s) (hs : SoundTables s) (p : Int) (mem : Bool) :
    LosesParent s (deletePhysicalContainsParentIndex p mem s).1 p (fun _ => True) mem := by
  by_cases hpair : ∃ c, ContainsPair s p c
  · obtain ⟨c, hpc⟩ := hpair
    obtain ⟨hr, hst, _⟩ := LivePhysical.guards h (h.contains p c hpc).1
    obtain ⟨r, hrow⟩ : ∃ r, findRow p s.contains = some r := by
      obtain ⟨_, _, r, hmem, rfl, _⟩ := hpc
      exact ⟨r, findRow_mem h.containsRows hmem⟩
    have he : (deletePhysicalContainsParentIndex p mem s).1 = (getPhysicalContainsChildren p mem s).foldl
        (resetContainedIn p) { s with contains := removeRow p s.contains } := by
      simp [deletePhysicalContainsParentIndex, hr, hst, hrow]
    rw [he]
    have hrows := (foldl_reset_tables p (getPhysicalContainsChildren p mem s)
      { s with contains := removeRow p s.contains }).1
    have hsound := removeRow_sound (p := p) hs.contains
    constructor
    · intro a b
      have hleft : ContainsPair ((getPhysicalContainsChildren p mem s).foldl (resetContainedIn p)
          { s with contains := removeRow p s.contains }) a b ↔
          ContainsPair { s with contains := removeRow p s.contains } a b := by
        simp only [ContainsPair, hrows]
      rw [hleft, SoundRows.containsPair hsound.toSoundRows, SoundRows.containsPair hs.contains.toSoundRows,
        pairs_removeRow hs.contains.oneRow]
      simp
    · intro n hn
      have hpos : ∀ c ∈ getPhysicalContainsChildren p mem s, 0 < c := fun c hc =>
        ((mem_children h mem).mp hc).2.2.1
      rcases mem_foldl_reset (s := { s with contains := removeRow p s.contains }) _ h.physical hpos hn with ⟨hn, hne⟩ | ⟨hin, hv, hex⟩
      · exact .inl ⟨hn, fun hm hp _ => hne ((mem_children h mem).mpr ⟨hm, hp⟩)⟩
      · refine .inr ⟨((mem_children h mem).mp hin).2, trivial, ?_, hex⟩
        rw [hv]
        exact (lowestParent_least (s := { s with contains := removeRow p s.contains }) hsound
          (hpos _ hin)).congr hrows
  · have hnone : ∀ c, ¬ ContainsPair s p c := fun c hc => hpair ⟨c, hc⟩
    rcases deletePhysicalContainsParentIndex_cases (p := p) (s := s) mem with he | he
    · rw [he]
      exact .refused fun c _ => hnone c
    · -- only a node without live pairs has gone, so that no child was met
      have hnil : getPhysicalContainsChildren p mem s = [] :=
        List.eq_nil_iff_forall_not_mem.mpr fun c hc => hnone c ((mem_children h mem).mp hc).2
      rw [he, hnil, List.foldl_nil]
      constructor
      · intro a b
        rw [SoundRows.containsPair (s := { s with contains := removeRow p s.contains })
          (removeRow_sound (p := p) hs.contains).toSoundRows, SoundRows.containsPair hs.contains.toSoundRows,
          pairs_removeRow hs.contains.oneRow]
        simp
      · exact fun n hn => .inl ⟨hn, fun _ hp _ => absurd hp (hnone _)⟩

theorem deleteContains_loses (h : Consistent s) (hs : SoundTables s) (p c : Int) :
    LosesParent s (deletePhysicalContainsTableEntry p c s).1 p (· = c) true := by
  by_cases hpair : ContainsPair s p c
  · obtain ⟨hlp, hlc⟩ := h.contains p c hpair
    obtain ⟨hpr, hps, _⟩ := LivePhysical.guards h hlp
    obtain ⟨hcr, hcs, _⟩ := LivePhysical.guards h hlc
    obtain ⟨r, hrow, hm⟩ : ∃ r, findRow p s.contains = some r ∧ c ∈ elements r := by
      obtain ⟨_, _, r, hmem, rfl, hm⟩ := hpair
      exact ⟨r, findRow_mem h.containsRows hmem, hm⟩
    rw [deleteContains_pair ⟨hpr, hps⟩ ⟨hcr, hcs⟩ hrow hm]
    obtain ⟨hsound, hpairs⟩ := dropChild_rows hs.contains hrow c
    have hrows := (resetContainedIn_tables p { s with contains := dropChild p c r s.contains } c).1
    constructor
    · intro a b
      have hleft : ContainsPair (resetContainedIn p { s with contains := dropChild p c r s.contains } c) a b ↔
          ContainsPair { s with contains := dropChild p c r s.contains } a b := by
        simp only [ContainsPair, hrows]
      rw [hleft, SoundRows.containsPair hsound.toSoundRows, SoundRows.containsPair hs.contains.toSoundRows, hpairs]
      simp
    · intro n hn
      rcases mem_resetContainedIn (s := { s with contains := dropChild p c r s.contains }) h.physical hlc.1 hn with
        ⟨hn, hne⟩ | ⟨rfl, hv, hex⟩
      · exact .inl ⟨hn, fun _ _ hl => hne hl⟩
      · refine .inr ⟨hpair, rfl, ?_, hex⟩
        rw [hv]
        exact (lowestParent_least (s := { s with contains := dropChild p n.index r s.contains }) hsound
          hlc.1).congr hrows
  · have hnone : ∀ b, b = c → ¬ ContainsPair s p b := by
      rintro b rfl
      exact hpair
    have hsame : (deletePhysicalContainsTableEntry p c s).1 = s := by
      unfold deletePhysicalContainsTableEntry
      split
      · rfl
      · rename_i hrange
        simp only [Bool.or_eq_true, Bool.not_eq_true', not_or, Bool.not_eq_false] at hrange
        split
        · rfl
        · split
          · rfl
          · split
            · rfl
            · rename_i r hr
              split
              · rename_i hm
                obtain ⟨hmem, hrp⟩ := findRow_some hr
                exact absurd ⟨inRange_pos hrange.1, inRange_pos hrange.2, r, hmem, hrp, hm⟩ hpair
              · rfl
    rw [hsame]
    exact .refused hnone

theorem mem_lowerContainedIn (ho : Ordered s.physical.head) (hc : 0 < c)
    (hn : n ∈ (lowerContainedIn p c s).physical.head) :
    (n ∈ s.physical.head ∧ (n.index = c → n.entry.entPhysicalContainedIn ≠ 0 ∧ n.entry.entPhysicalContainedIn ≤ p)) ∨
      (n.index = c ∧ n.entry.entPhysicalContainedIn = p ∧ ∃ m ∈ s.physical.head, m.index = c ∧
        (m.entry.entPhysicalContainedIn = 0 ∨ m.entry.entPhysicalContainedIn > p)) := by
  unfold lowerContainedIn at hn
  split at hn
  · rename_i m hm
    obtain ⟨_, hmem, hmc⟩ := getTableEntry_some hm
    split at hn
    · rename_i hmp
      rcases mem_setContainedIn ho hn with ⟨hn, hnc⟩ | ⟨hnc, hnv, _⟩
      · exact .inl ⟨hn, fun he => absurd he hnc⟩
      · exact .inr ⟨hnc, hnv, m, hmem, hmc, hmp⟩
    · rename_i hmp
      refine .inl ⟨hn, fun hnc => ?_⟩
      rw [ho.unique hn hmem (by rw [hnc, hmc])]
      rw [not_or] at hmp
      exact ⟨hmp.1, by omega⟩
  · rename_i hnone
    refine .inl ⟨hn, fun hnc => ?_⟩
    subst hnc
    rw [getPhysicalTableEntry, getTableEntry_live ho hn hc] at hnone
    cases hnone

end OiUserland.EntityMib.ContainedIn
