import OiUserland.EntityMib.PlacementCalls

namespace OiUserland.EntityMib.PlacementRuns

open Lib.Runs EntityTable Entities MibState
open PhysicalTable ListInvariant Frames Module EntrySteps
open MappingSets MappingRuns ContainedIn Placement PlacementCalls

variable {s t : State} {o : Op} {x : Int} {n : Node PhysicalEntry} {l : List (Node PhysicalEntry)}

section Nodes

variable {E : Type} {new m : Node E} {ms : List (Node E)}

theorem mem_place {r : List (Node E) × Bool} (h : place new ms = some r) (hm : m ∈ r.1) :
    m ∈ ms ∨ m.entry = new.entry := by
  induction ms generalizing r with
  | nil =>
      cases h
      rw [List.mem_singleton.mp hm]
      exact .inr rfl
  | cons z zs ih =>
      unfold place at h
      split at h
      · obtain ⟨q, hq, rfl⟩ := Option.map_eq_some_iff.mp h
        rcases List.mem_cons.mp hm with rfl | hm
        · exact .inl List.mem_cons_self
        · exact (ih hq hm).imp_left (List.mem_cons_of_mem z)
      · split at h
        · cases h
        · cases h
          rcases List.mem_cons.mp hm with rfl | hm
          · exact .inr rfl
          · exact .inl hm

theorem mem_fillGap (hm : m ∈ (fillGap new ms).1) : m ∈ ms ∨ m.entry = new.entry := by
  induction ms with
  | nil =>
      rw [List.mem_singleton.mp hm]
      exact .inr rfl
  | cons z zs ih =>
      cases zs with
      | nil =>
          rcases List.mem_cons.mp hm with rfl | hm
          · exact .inl List.mem_cons_self
          · rw [List.mem_singleton.mp hm]
            exact .inr rfl
      | cons y ys =>
          unfold fillGap at hm
          split at hm
          · rcases List.mem_cons.mp hm with rfl | hm
            · exact .inl List.mem_cons_self
            · rcases List.mem_cons.mp hm with rfl | hm
              · exact .inr rfl
              · exact .inl (List.mem_cons_of_mem z hm)
          · rcases List.mem_cons.mp hm with rfl | hm
            · exact .inl List.mem_cons_self
            · exact (ih hm).imp_left (List.mem_cons_of_mem z)

theorem mem_linkAfter {a : Nat} {r : List (Node E) × Int × List Nat} (h : linkAfter a new ms = some r)
    (hm : m ∈ r.1) : m ∈ ms ∨ m.entry = new.entry := by
  induction ms generalizing r with
  | nil => cases h
  | cons z zs ih =>
      unfold linkAfter at h
      split at h
      · cases h
        rcases List.mem_cons.mp hm with rfl | hm
        · exact .inl List.mem_cons_self
        · rw [List.mem_singleton.mp hm]
          exact .inr rfl
      · obtain ⟨q, hq, rfl⟩ := Option.map_eq_some_iff.mp h
        rcases List.mem_cons.mp hm with rfl | hm
        · exact .inl List.mem_cons_self
        · exact (ih hq hm).imp_left (List.mem_cons_of_mem z)

theorem mem_addToTable {tab tab' : Table E} {i : Int} (h : addToTable new tab = some (tab', i))
    (hm : m ∈ tab'.head) : m ∈ tab.head ∨ m.entry = new.entry := by
  unfold addToTable at h
  split at h
  · rename_i chain last hplace
    cases h
    split at hplace
    · exact mem_place hplace hm
    · cases hplace
  · split at h
    · obtain ⟨r, hr, heq⟩ := Option.map_eq_some_iff.mp h
      obtain ⟨a, _, hlink⟩ := Option.bind_eq_some_iff.mp hr
      cases heq
      exact mem_linkAfter hlink hm
    · cases h
      exact mem_fillGap hm

end Nodes

theorem find_live_cons {z : Node PhysicalEntry} (h : find x (z :: l) = .live n) :
    (z.index = x ∧ n = z) ∨ (z.index ≠ x ∧ z.index ≠ -x ∧ find x l = .live n) := by
  unfold find at h
  split at h
  · rename_i hz
    cases h
    exact .inl ⟨hz, rfl⟩
  · rename_i hz
    split at h
    · cases h
    · rename_i hneg
      exact .inr ⟨hz, hneg, h⟩

theorem find_stale_cons {z : Node PhysicalEntry} (h : find x (z :: l) = .stale n) :
    (z.index ≠ x ∧ z.index = -x ∧ n = z) ∨ (z.index ≠ x ∧ z.index ≠ -x ∧ find x l = .stale n) := by
  unfold find at h
  split at h
  · cases h
  · rename_i hz
    split at h
    · rename_i hneg
      cases h
      exact .inl ⟨hz, hneg, rfl⟩
    · rename_i hneg
      exact .inr ⟨hz, hneg, h⟩

theorem placed_stale (hx : 0 < x) (h : find x l = .live n) :
    (∀ m ∈ retag x (-x) l, 0 < m.index → Placed m.entry) ↔ ∀ m ∈ unlink x l, 0 < m.index → Placed m.entry := by
  induction l with
  | nil => cases h
  | cons z zs ih =>
      rcases find_live_cons h with ⟨hz, _⟩ | ⟨hz, hneg, h⟩
      · rw [retag, if_pos (.inl hz), unlink, if_pos hz, List.forall_mem_cons]
        exact and_iff_right fun h0 => absurd h0 (by dsimp only; omega)
      · rw [retag, if_neg (not_or.mpr ⟨hz, hneg⟩), unlink, if_neg hz, List.forall_mem_cons, List.forall_mem_cons, ih h]

theorem placed_live (hx : 0 < x) (h : find x l = .stale n) :
    (∀ m ∈ retag x x l, 0 < m.index → Placed m.entry) ↔
      Placed n.entry ∧ ∀ m ∈ l, 0 < m.index → Placed m.entry := by
  induction l with
  | nil => cases h
  | cons z zs ih =>
      rcases find_stale_cons h with ⟨hz, hneg, rfl⟩ | ⟨hz, hneg, h⟩
      · rw [retag, if_pos (.inr hneg), List.forall_mem_cons, List.forall_mem_cons]
        have hnot : ¬ 0 < n.index := by omega
        simp [hx, hnot]
      · rw [retag, if_neg (not_or.mpr ⟨hz, hneg⟩), List.forall_mem_cons, List.forall_mem_cons, ih h]
        exact and_left_comm

theorem allPlaced_congr (hp : t.physical = s.physical) : AllPlaced t ↔ AllPlaced s := by
  unfold AllPlaced
  rw [hp]

theorem rejectPhysical_placed {i : Int} {e : PhysicalEntry} {tab : Table PhysicalEntry}
    (h : rejectPhysical i e tab = none) : Placed e := by
  unfold rejectPhysical at h
  obtain ⟨_, h⟩ := check_none h
  obtain ⟨_, h⟩ := check_none h
  obtain ⟨_, h⟩ := check_none h
  obtain ⟨hzero, h⟩ := check_none h
  obtain ⟨hpos, _⟩ := check_none h
  constructor
  · intro h0
    by_contra hne
    exact hzero ⟨h0, hne⟩
  · intro h1
    by_contra hne
    exact hpos ⟨h1, hne⟩

theorem alloc_placed {i : Int} {new : NewPhysicalEntry} {m : Option Nat} (hp : AllPlaced s)
    (hs : step (.allocPhysical i new m) s = some t) : AllPlaced t := by
  cases step_entries hs with
  | unchanged => exact hp
  | same hm _ => cases hm
  | allocPhysical he hr hfresh ht =>
      intro n hn h0
      rcases mem_addToTable ht hn with hn | hn
      · exact hp n hn h0
      · rw [hn]
        exact rejectPhysical_placed hr

theorem deletePhysical_placed (h : SoundTables s) (hp : AllPlaced s) (x : Int) (mem : Bool) :
    AllPlaced (deletePhysicalTableEntry x mem s).1 ↔ KeepsPlacement (.deletePhysical x mem) s := by
  cases hget : getPhysicalTableEntry x s with
  | some n =>
      obtain ⟨hx, hfind⟩ := get_iff.mp hget
      have he : (deletePhysicalTableEntry x mem s).1 = unlinkPhysical x (purgePhysical x mem s) := by
        simp [deletePhysicalTableEntry, hx, hfind]
      rw [he]
      exact purge_placed h hp (inRange_pos hx) mem
  | none =>
      have he : (deletePhysicalTableEntry x mem s).1 = s := by
        rcases deletePhysicalTableEntry_cases (x := x) (s := s) mem with he | ⟨hx, ⟨n, hn⟩, _⟩
        · exact he
        · rw [get_iff.mpr ⟨hx, hn⟩] at hget
          cases hget
      rw [he]
      refine iff_of_true hp fun hlive => ?_
      rw [hget] at hlive
      cases hlive

theorem stalePhysical_placed (h : SoundTables s) (hp : AllPlaced s) (x : Int) (mem : Bool) :
    AllPlaced (makePhysicalTableEntryStale x mem s).1 ↔ KeepsPlacement (.stalePhysical x mem) s := by
  cases hget : getPhysicalTableEntry x s with
  | some n =>
      obtain ⟨hx, hfind⟩ := get_iff.mp hget
      have he : (makePhysicalTableEntryStale x mem s).1 = retagPhysical x (-x) (purgePhysical x mem s) := by
        simp [makePhysicalTableEntryStale, hx, hfind]
      have hlive := ((purgePhysical_same x mem s).found x).1
      rw [hget] at hlive
      obtain ⟨m, hm⟩ := Option.isSome_iff_exists.mp (hlive.trans Option.isSome_some)
      rw [he]
      exact (placed_stale (inRange_pos hx) (get_iff.mp hm).2).trans (purge_placed h hp (inRange_pos hx) mem)
  | none =>
      have he : (makePhysicalTableEntryStale x mem s).1 = s := by
        rcases makePhysicalTableEntryStale_cases (x := x) (s := s) mem with he | ⟨hx, ⟨n, hn⟩, _⟩
        · exact he
        · rw [get_iff.mpr ⟨hx, hn⟩] at hget
          cases hget
      rw [he]
      refine iff_of_true hp fun hlive => ?_
      rw [hget] at hlive
      cases hlive

theorem stale_iff : getPhysicalTableStaleEntry x s = some n ↔ inRange x ∧ find x s.physical.head = .stale n := by
  unfold getPhysicalTableStaleEntry getTableStaleEntry
  by_cases hx : inRange x
  · rw [if_pos hx]
    cases hf : find x s.physical.head <;> simp [hx]
  · simp [hx]

theorem livePhysical_placed (hp : AllPlaced s) (x : Int) :
    AllPlaced (makePhysicalTableEntryLive x s).1 ↔ KeepsPlacement (.livePhysical x) s := by
  cases hget : getPhysicalTableStaleEntry x s with
  | some n =>
      obtain ⟨hx, hfind⟩ := stale_iff.mp hget
      have he : (makePhysicalTableEntryLive x s).1 = retagPhysical x x s := by
        simp [makePhysicalTableEntryLive, hx, hfind]
      rw [he]
      refine (placed_live (inRange_pos hx) hfind).trans ⟨fun hn m hm => ?_, fun hkeep => ⟨hkeep n hget, hp⟩⟩
      rw [hget] at hm
      cases hm
      exact hn.1
  | none =>
      have he : (makePhysicalTableEntryLive x s).1 = s := by
        rcases makePhysicalTableEntryLive_cases (x := x) (s := s) with he | ⟨hx, ⟨n, hn⟩, _⟩
        · exact he
        · rw [stale_iff.mpr ⟨hx, hn⟩] at hget
          cases hget
      rw [he]
      refine iff_of_true hp fun m hm => ?_
      rw [hget] at hm
      cases hm

theorem step_placed (h : SoundTables s) (hp : AllPlaced s) (hs : step o s = some t) :
    AllPlaced t ↔ KeepsPlacement o s := by
  cases o with
  | allocPhysical i new m => exact iff_of_true (alloc_placed hp hs) trivial
  | deletePhysical x mem => exact step_some rfl hs ▸ deletePhysical_placed h hp x mem
  | stalePhysical x mem => exact step_some rfl hs ▸ stalePhysical_placed h hp x mem
  | livePhysical x => exact step_some rfl hs ▸ livePhysical_placed hp x
  | addContains p c mem =>
      obtain ⟨r, hr, rfl⟩ := Option.map_eq_some_iff.mp hs
      exact addContains_placed hp hr
  | deleteContains p c => exact step_some rfl hs ▸ deleteContains_placed h hp p c
  | deleteContainsParent p mem =>
      obtain rfl := step_some rfl hs
      refine placedBut_zero.symm.trans ((deleteContainsParent_placed h hp (le_refl 0) p mem).trans ?_)
      refine imp_congr_right fun _ => imp_congr_right fun _ => forall_congr' fun c => ?_
      refine ⟨fun hnot hlast => hnot ?_ hlast, fun hnot _ => hnot⟩
      exact (recorded_pos hlast.1).ne'
  | deleteContainsChild c => exact step_some rfl hs ▸ deleteContainsChild_placed h hp c
  | allocLogical i new m =>
      refine iff_of_true ?_ trivial
      cases step_entries hs with
      | unchanged => exact hp
      | same hm _ => cases hm
      | allocLogical he hr hfresh ht => exact hp
  | deleteLogical x =>
      refine iff_of_true ?_ trivial
      cases step_entries hs with
      | unchanged => exact hp
      | same hm _ => cases hm
      | deleteLogical hx hl => exact (allPlaced_congr (purgeLogical_elsewhere x s).1).mpr hp
  | staleLogical x =>
      refine iff_of_true ?_ trivial
      cases step_entries hs with
      | unchanged => exact hp
      | same hm _ => cases hm
      | staleLogical hx hl => exact (allPlaced_congr (purgeLogical_elsewhere x s).1).mpr hp
  | liveLogical x =>
      refine iff_of_true ?_ trivial
      cases step_entries hs with
      | unchanged => exact hp
      | same hm _ => cases hm
      | liveLogical hx hl => exact hp
  | _ => exact iff_of_true ((allPlaced_congr (step_elsewhere rfl hs).1).mpr hp) trivial

theorem empty_placed (h : Empty s) : AllPlaced s := by
  cases h
  intro n hn
  cases hn

/-- In every state of a run of such calls the live entries keep the rule, and a further call keeps it
if and only if it is one of them. -/
theorem reachable_placed (h : Reachable step KeepsPlacement Empty s) :
    AllPlaced s ∧ ∀ o t, step o s = some t → (AllPlaced t ↔ KeepsPlacement o s) := by
  have hsound := reachable_sound h
  have hplaced : AllPlaced s := by
    have hinv := h.invariant (fun s => SoundTables s ∧ AllPlaced s) (fun _ he => ⟨empty_sound he, empty_placed he⟩)
      fun o u t hu hok hs => ⟨step_sound hu.1 hs, (step_placed hu.1 hu.2 hs).mpr hok⟩
    exact hinv.2
  exact ⟨hplaced, fun o t hs => step_placed hsound hplaced hs⟩

/-- Entry 2 is allocated in entry 1 and then recorded as its child. -/
theorem reachable_placed_child : ∃ s : State, ContainsPair s 1 2 ∧ recorded s 2 = some 1 ∧ AllPlaced s := by
  have h1 : Reachable step KeepsPlacement Empty _ := .next (.allocPhysical 1 {} (some 1)) (.start rfl) trivial rfl
  have h2 : Reachable step KeepsPlacement Empty _ :=
    .next (.allocPhysical 2 { entPhysicalContainedIn := 1, entPhysicalParentRelPos := 0 } (some 2)) h1 trivial rfl
  have h3 : Reachable step KeepsPlacement Empty _ :=
    .next (.addContains 1 2 {}) h2 (fun h0 => absurd h0 (by decide)) rfl
  exact ⟨_, by unfold ContainsPair; decide, rfl, (reachable_placed h3).1⟩

def recording : List Op :=
  [.allocPhysical 1 {} (some 1), .allocPhysical 2 {} (some 2), .addContains 1 2 {}]

theorem recorded_not_placed : ¬ ∀ s, Reachable step (fun _ _ => True) Empty s → AllPlaced s := by
  intro h
  have hrun : (exec step recording {}).any (fun s => decide (∃ n ∈ s.physical.head, 0 < n.index ∧
      n.entry.entPhysicalContainedIn = 1 ∧ n.entry.entPhysicalParentRelPos = -1)) = true := by decide +kernel
  obtain ⟨s, hs, hp⟩ := (Option.any_eq_true _ _).mp hrun
  obtain ⟨n, hn, h0, hin, hrel⟩ := of_decide_eq_true hp
  have hplaced := h s (reachable_of_exec recording (fun _ _ _ => trivial) (.start rfl) hs) n hn h0
  rw [Placed, hin] at hplaced
  exact absurd (hplaced.mpr hrel) (by decide)

end OiUserland.EntityMib.PlacementRuns
