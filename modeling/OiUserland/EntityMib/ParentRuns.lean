import OiUserland.EntityMib.ContainedIn
import OiUserland.EntityMib.ContainmentRuns

namespace OiUserland.EntityMib.ParentRuns

open Lib.Runs EntityTable Entities MibState PhysicalContainsTable LPMappingTable AliasMappingTable
open PhysicalTable ListInvariant Frames Module EntrySteps Integrity
open ContainmentRuns IntegrityRuns MappingSets MappingRuns ContainedIn

variable {s t : State} {o : Op} {p c x v : Int} {mem : Bool} {n : Node PhysicalEntry}

/-- Every live entry is contained in none or in a live entry. -/
def ParentsLive (s : State) : Prop :=
  ∀ n ∈ s.physical.head, 0 < n.index →
    n.entry.entPhysicalContainedIn = 0 ∨ LivePhysical s n.entry.entPhysicalContainedIn

/-- What must hold before a call: when an entry is deleted or made stale, the live entries
that record it as their parent are its children in entPhysicalContainsTable, whose list can
be allocated; and an entry that is made live again still has its parent. -/
def KeepsParents (o : Op) (s : State) : Prop :=
  SafeInsert o s ∧ match o with
  | .deletePhysical x mem | .stalePhysical x mem => LivePhysical s x → ∀ n ∈ s.physical.head,
      0 < n.index → n.index ≠ x → n.entry.entPhysicalContainedIn = x → ContainsPair s x n.index ∧ mem = true
  | .livePhysical x => inRange x → ∀ n, find x s.physical.head = .stale n →
      n.entry.entPhysicalContainedIn = 0 ∨ LivePhysical s n.entry.entPhysicalContainedIn
  | _ => True

theorem ParentsLive.congr (h : ParentsLive s) (hp : t.physical = s.physical) : ParentsLive t := by
  intro n hn h0
  rw [hp] at hn
  exact (h n hn h0).imp_right fun hl => by simpa only [LivePhysical, hp] using hl

theorem LeastParent.live (h : LeastParent s c v) (hs : Intact s) : v = 0 ∨ LivePhysical s v := by
  rcases h with ⟨hpair, _⟩ | ⟨_, h0⟩
  · exact .inr (hs.contains v c hpair).1
  · exact .inl h0

theorem ParentsLive.loses {lost : Int → Prop} (h : ParentsLive s) (hl : LosesParent s t p lost mem)
    (hsame : SameEntries s t) (ht : Intact t) : ParentsLive t := by
  intro n hn h0
  rcases hl.nodes n hn with ⟨hn, _⟩ | ⟨_, _, hleast, _⟩
  · exact (h n hn h0).imp_right hsame.livePhysical
  · exact LeastParent.live hleast ht

/-- What the induction over a run carries. -/
structure Kept (s : State) : Prop where
  consistent : Consistent s
  sound : SoundTables s
  parents : ParentsLive s

theorem Kept.congr (h : Kept s) (hp : t.physical = s.physical) (hc : Consistent t) (hs : SoundTables t) : Kept t :=
  ⟨hc, hs, h.parents.congr hp⟩

theorem kept_deleteContains (h : Kept s) (p c : Int) : Kept (deletePhysicalContainsTableEntry p c s).1 := by
  have hcons := consistent_deleteContains h.consistent p c
  refine ⟨hcons, sound_deleteContains h.sound p c, ?_⟩
  exact h.parents.loses (deleteContains_loses h.consistent h.sound p c)
    (deletePhysicalContainsTableEntry_same p c s) hcons.toIntact

theorem kept_deleteContainsParent (h : Kept s) (p : Int) (mem : Bool) :
    Kept (deletePhysicalContainsParentIndex p mem s).1 := by
  have hcons := consistent_deleteContainsParent h.consistent p mem
  refine ⟨hcons, sound_deleteContainsParent h.sound p mem, ?_⟩
  exact h.parents.loses (deleteContainsParent_loses h.consistent h.sound p mem)
    (deletePhysicalContainsParentIndex_same p mem s) hcons.toIntact

theorem kept_deleteContainsChild (h : Kept s) (c : Int) : Kept (deletePhysicalContainsChildIndex c s).1 :=
  deletePhysicalContainsChildIndex_induction (fun p _ ht => kept_deleteContains ht p c) h

theorem kept_addContains {mem : AddMemory} {rc : Int} (h : Kept s)
    (hadd : addPhysicalContainsTableEntry p c mem s = some (t, rc)) : Kept t := by
  have hcons := consistent_addContains h.consistent hadd
  have hsound := sound_addContains h.sound hadd
  have hsame := addPhysicalContainsTableEntry_same hadd
  refine ⟨hcons, hsound, ?_⟩
  rcases addPhysicalContainsTableEntry_cases hadd with rfl | ⟨hr, _, rfl⟩
  · exact h.parents
  · obtain ⟨_, hp, hc⟩ := rejectContains_none hr
    rcases linkChild_cases (p := p) (c := c) (s := s) mem with he | ⟨_, he⟩ | ⟨rows, _, he⟩ <;> rw [he] at hsame ⊢
    · exact h.parents
    · exact h.parents.congr rfl
    · intro n hn h0
      have hc0 := inRange_pos (live_guards hc).1
      rcases mem_lowerContainedIn (s := { s with contains := rows }) h.consistent.physical hc0 hn with
        ⟨hn, _⟩ | ⟨_, hv, _⟩
      · exact (h.parents n hn h0).imp_right hsame.livePhysical
      · rw [hv]
        exact .inr (hsame.livePhysical (livePhysical_of_get hp))

theorem kept_mapping (h : Kept s) (hm : mapping o = true) (hs : step o s = some t) : Kept t := by
  have hcons := mapping_consistent h.consistent hm hs
  have hsound := mapping_sound h.sound hm hs
  by_cases he : elsewhere o = true
  · exact h.congr (step_elsewhere he hs).1 hcons hsound
  · cases o with
    | addContains p c mem =>
        obtain ⟨r, hr, rfl⟩ := Option.map_eq_some_iff.mp hs
        exact kept_addContains h hr
    | deleteContains p c => exact step_some rfl hs ▸ kept_deleteContains h p c
    | deleteContainsParent p mem => exact step_some rfl hs ▸ kept_deleteContainsParent h p mem
    | deleteContainsChild c => exact step_some rfl hs ▸ kept_deleteContainsChild h c
    | allocPhysical => cases hm
    | deletePhysical => cases hm
    | stalePhysical => cases hm
    | livePhysical => cases hm
    | allocLogical => cases hm
    | deleteLogical => cases hm
    | staleLogical => cases hm
    | liveLogical => cases hm
    | _ => exact absurd rfl he

theorem purge_elsewhere (x : Int) (s : State) :
    Elsewhere s (deleteLPMappingPhysicalIndex x (deleteAliasMappingPhysicalIndex x s).1).1 := by
  obtain ⟨h1, h2⟩ := deleteAliasPhysical_elsewhere x s
  obtain ⟨h3, h4⟩ := deleteLPPhysical_elsewhere x (deleteAliasMappingPhysicalIndex x s).1
  exact ⟨h3.trans h1, h4.trans h2⟩

theorem kept_purge (h : Kept s) (x : Int) (mem : Bool) : Kept (purgePhysical x mem s) := by
  refine kept_deleteContainsChild (kept_deleteContainsParent ?_ x mem) x
  exact h.congr (purge_elsewhere x s).1
    (consistent_deleteLPPhysical (consistent_deleteAliasPhysical h.consistent x) x)
    (sound_deleteLPPhysical (sound_deleteAliasPhysical h.sound x) x)

theorem deleteContainsChild_others (x : Int) (s : State) :
    ∀ n ∈ (deletePhysicalContainsChildIndex x s).1.physical.head, n.index ≠ x → n ∈ s.physical.head := by
  refine deletePhysicalContainsChildIndex_induction
    (P := fun t => ∀ n ∈ t.physical.head, n.index ≠ x → n ∈ s.physical.head)
    (fun q t ht n hn hnx => ht n ?_ hnx) fun n hn _ => hn
  rcases deletePhysicalContainsTableEntry_cases (p := q) (c := x) (s := t) with he | ⟨r, _, he⟩ <;> rw [he] at hn
  · exact hn
  · rcases resetContainedIn_cases (p := q) (c := x) (s := { t with contains := dropChild q x r t.contains }) with
      hreset | hreset <;> rw [hreset] at hn
    · exact hn
    · rcases mem_assign hn with hn | ⟨y, _, hyx, rfl⟩
      · exact hn
      · exact absurd hyx hnx

theorem purge_forgets (h : Kept s) (hx : LivePhysical s x)
    (hchildren : ∀ n ∈ s.physical.head, 0 < n.index → n.index ≠ x → n.entry.entPhysicalContainedIn = x →
      ContainsPair s x n.index ∧ mem = true) :
    ∀ n ∈ (purgePhysical x mem s).physical.head, 0 < n.index → n.index ≠ x →
      n.entry.entPhysicalContainedIn ≠ x := by
  obtain ⟨hphys, hrows⟩ := purge_elsewhere x s
  have hcons := consistent_deleteLPPhysical (consistent_deleteAliasPhysical h.consistent x) x
  have hsound := sound_deleteLPPhysical (sound_deleteAliasPhysical h.sound x) x
  intro n hn h0 hne hnx
  have hloses := deleteContainsParent_loses hcons hsound x mem
  rcases hloses.nodes n (deleteContainsChild_others x _ n hn hne) with ⟨hn, hkeep⟩ | ⟨_, _, hleast, _⟩
  · rw [hphys] at hn
    obtain ⟨hpair, hm⟩ := hchildren n hn h0 hne hnx
    refine hkeep hm ?_ trivial hnx
    simpa only [ContainsPair, hrows] using hpair
  · rw [hnx] at hleast
    rcases hleast with ⟨hpair, _⟩ | ⟨_, hzero⟩
    · exact ((hloses.pairs x n.index).mp hpair).2 ⟨rfl, trivial⟩
    · have hpos := hx.1
      omega

theorem parents_without (h : Kept s) (hx : LivePhysical s x)
    (hchildren : ∀ n ∈ s.physical.head, 0 < n.index → n.index ≠ x → n.entry.entPhysicalContainedIn = x →
      ContainsPair s x n.index ∧ mem = true) (hn : n ∈ (purgePhysical x mem s).physical.head) (h0 : 0 < n.index)
    (hne : n.index ≠ x) : n.entry.entPhysicalContainedIn = 0 ∨
      ∃ m ∈ (purgePhysical x mem s).physical.head, 0 < m.index ∧ m.index ≠ x ∧
        m.index = n.entry.entPhysicalContainedIn := by
  rcases (kept_purge h x mem).parents n hn h0 with hzero | ⟨hpos, m, hm, hmv⟩
  · exact .inl hzero
  · refine .inr ⟨m, hm, hmv ▸ hpos, fun hmx => ?_, hmv⟩
    exact purge_forgets h hx hchildren n hn h0 hne (hmv.symm.trans hmx)

theorem step_kept (h : Kept s) (hok : KeepsParents o s) (hs : step o s = some t) : Kept t := by
  have hcons := step_consistent h.consistent hok.1 hs
  have hsound := step_sound h.sound hs
  refine ⟨hcons, hsound, ?_⟩
  cases step_entries hs with
  | unchanged => exact h.parents
  | same hm _ => exact (kept_mapping h hm hs).parents
  | allocPhysical he hr hfresh ht =>
      rename_i i rc new addr e tab
      obtain ⟨hroom, hsafe⟩ := hok.1 _ he hr rfl
      have hadd := addToTable_added h.consistent.physical h.consistent.physicalSize (rejectPhysical_bound hr)
        hroom hsafe ht
      have hlive (a : Int) (ha : LivePhysical s a) : LivePhysical { s with physical := tab } a := by
        obtain ⟨h0, m, hm, hma⟩ := ha
        exact ⟨h0, m, Added.mem hadd hm, hma⟩
      obtain ⟨last, hin, _⟩ := hadd.inserted
      intro n hn h0
      rcases (hin.mem_iff n).mp hn with rfl | hn
      · by_cases hzero : e.entPhysicalContainedIn = 0
        · exact .inl hzero
        · exact .inr (hlive _ (livePhysical_of_get (rejectPhysical_parent hr hzero)))
      · exact (h.parents n hn h0).imp_right (hlive _)
  | deletePhysical hx hl =>
      rename_i x mem
      have hlive : LivePhysical s x := ⟨inRange_pos hx, live_mem hl⟩
      have ho := (kept_purge h x mem).consistent.physical
      intro n hn h0
      obtain ⟨hn, hne⟩ := (mem_unlink ho n).mp hn
      rcases parents_without h hlive (hok.2 hlive) hn h0 hne with hzero | ⟨m, hm, hm0, hmx, hmv⟩
      · exact .inl hzero
      · exact .inr ⟨hmv ▸ hm0, m, (mem_unlink ho m).mpr ⟨hm, hmx⟩, hmv⟩
  | stalePhysical hx hl =>
      rename_i x mem
      have hlive : LivePhysical s x := ⟨inRange_pos hx, live_mem hl⟩
      have hx0 := hlive.1
      have ho := (kept_purge h x mem).consistent.physical
      intro n hn h0
      rcases (mem_retag ho n).mp hn with ⟨hn, hne⟩ | ⟨y, _, _, rfl⟩
      · rcases parents_without h hlive (hok.2 hlive) hn h0 (by omega) with hzero | ⟨m, hm, hm0, hmx, hmv⟩
        · exact .inl hzero
        · exact .inr ⟨hmv ▸ hm0, m, (mem_retag ho m).mpr (.inl ⟨hm, by omega⟩), hmv⟩
      · dsimp only at h0
        omega
  | livePhysical hx hl =>
      rename_i x
      have hx0 := inRange_pos hx
      have ho := h.consistent.physical
      have hlive (a : Int) (ha : LivePhysical s a) : LivePhysical (retagPhysical x x s) a := by
        obtain ⟨h0, m, hm, rfl⟩ := ha
        exact ⟨h0, m, mem_retag_live ho hm (by omega), rfl⟩
      obtain ⟨m, hm⟩ := hl
      intro n hn h0
      rcases mem_retag_found (.inr hm) hn with hn | rfl
      · exact (h.parents n hn h0).imp_right (hlive _)
      · exact (hok.2 hx m hm).imp_right (hlive _)
  | allocLogical he hr hfresh ht => exact h.parents.congr rfl
  | deleteLogical hx hl =>
      rename_i x
      exact h.parents.congr (purgeLogical_elsewhere x s).1
  | staleLogical hx hl =>
      rename_i x
      exact h.parents.congr (purgeLogical_elsewhere x s).1
  | liveLogical hx hl => exact h.parents.congr rfl

theorem empty_kept (h : Empty s) : Kept s := by
  refine ⟨empty_consistent h, empty_sound h, ?_⟩
  cases h
  intro n hn
  cases hn

/-- In every state of a run that deletes parents only together with their pairs, every live entry
is contained in none or in a live one. -/
theorem reachable_parents (h : Reachable step KeepsParents Empty s) : ParentsLive s :=
  (h.invariant Kept (fun _ => empty_kept) fun _ _ _ hk hok hs => step_kept hk hok hs).parents

/-- Entry 2 is allocated in entry 1 and recorded as its child before that is deleted. -/
theorem reachable_parents_pair : ∃ s : State, (∃ n ∈ s.physical.head, n.index = 2) ∧
    (∀ n ∈ s.physical.head, n.index ≠ 1) ∧ ParentsLive s := by
  have h1 : Reachable step KeepsParents Empty _ :=
    .next (.allocPhysical 1 {} (some 1)) (.start rfl)
      ⟨fun _ _ _ _ => ⟨.inr (.inl rfl), .inr (.inl (by decide))⟩, trivial⟩ rfl
  have h2 : Reachable step KeepsParents Empty _ :=
    .next (.allocPhysical 2 { entPhysicalContainedIn := 1, entPhysicalParentRelPos := 0 } (some 2)) h1
      ⟨fun _ _ _ _ => ⟨.inl ⟨by decide, by unfold Unused; decide⟩, .inr (.inl (by decide))⟩, trivial⟩ rfl
  have h3 : Reachable step KeepsParents Empty _ := .next (.addContains 1 2 {}) h2 ⟨trivial, trivial⟩ rfl
  have h4 : Reachable step KeepsParents Empty _ :=
    .next (.deletePhysical 1 true) h3 ⟨trivial, fun _ => by unfold ContainsPair; decide⟩ rfl
  exact ⟨_, by decide, by decide, reachable_parents h4⟩

/-- Without the pair the deletion of entry 1 leaves entry 2 in it. -/
theorem orphan_recorded : ∃ s, Reachable step (fun _ _ => True) Empty s ∧ ¬ ParentsLive s := by
  have h1 : Reachable step (fun _ _ => True) Empty _ := .next (.allocPhysical 1 {} (some 1)) (.start rfl) trivial rfl
  have h2 : Reachable step (fun _ _ => True) Empty _ :=
    .next (.allocPhysical 2 { entPhysicalContainedIn := 1, entPhysicalParentRelPos := 0 } (some 2)) h1 trivial rfl
  have h3 : Reachable step (fun _ _ => True) Empty _ := .next (.deletePhysical 1 true) h2 trivial rfl
  refine ⟨_, h3, fun h => ?_⟩
  rcases h _ List.mem_cons_self (by decide) with h0 | ⟨_, n, hn, hn1⟩
  · cases h0
  · rw [List.mem_singleton.mp hn] at hn1
    cases hn1

end OiUserland.EntityMib.ParentRuns
