import OiUserland.EntityMib.ParentRuns

namespace OiUserland.EntityMib.LowestParentRuns

open Lib.Runs EntityTable Entities MibState PhysicalContainsTable
open PhysicalTable ListInvariant Module EntrySteps Integrity
open IntegrityRuns RowSets MappingSets MappingRuns ContainedIn ParentRuns

variable {s t : State} {o : Op} {p c x v i : Int} {mem : Bool} {n : Node PhysicalEntry} {given : Int → Int}

structure History where
  state : State
  allocatedIn : Int → Int

def record (o : Op) (rc : Int) (given : Int → Int) : Int → Int :=
  match o with
  | .allocPhysical _ new _ => if 0 < rc then Function.update given rc new.entPhysicalContainedIn else given
  | _ => given

def historyStep (o : Op) (h : History) : Option History :=
  (call o h.state).map fun r => ⟨r.1, record o r.2 h.allocatedIn⟩

def Initial (h : History) : Prop := Empty h.state

/-- What entPhysicalContainedIn of the live entries is, as far as the live pairs determine it. -/
def Derived (h : History) : Prop :=
  ∀ n ∈ h.state.physical.head, 0 < n.index →
    ({p | ContainsPair h.state p n.index}.Nonempty → n.entry.entPhysicalContainedIn ≠ 0 ∧
      n.entry.entPhysicalContainedIn ∈ lowerBounds {p | ContainsPair h.state p n.index}) ∧
    (h.allocatedIn n.index = 0 → LeastParent h.state n.index n.entry.entPhysicalContainedIn)

/-- No live child is recorded in `p`, or the list of the children can be allocated. -/
def ChildrenSeen (s : State) (p : Int) (mem : Bool) : Prop :=
  mem = true ∨ ∀ n ∈ s.physical.head, ContainsPair s p n.index → n.entry.entPhysicalContainedIn ≠ p

/-- The allocations succeed that the loss of would lose pairs or children: the array of a
parent that grows, and the list of the children of a parent that goes. -/
def KeepsLowest (o : Op) (h : History) : Prop :=
  SafeInsert o h.state ∧ match o with
  | .addContains p c mem => rejectContains p c h.state = none →
      isRecursiveChild h.state mem.lists p (depthBound h.state) [] c = some false →
      ∀ r vs, findRow p h.state.contains = some r → r.values = some vs → c ∉ vs → -1 ∉ vs → mem.block = true
  | .deleteContainsParent p mem | .deletePhysical p mem | .stalePhysical p mem => ChildrenSeen h.state p mem
  | _ => True

/-- The invariant: of all nodes, live or stale. -/
structure Tied (s : State) (given : Int → Int) : Prop where
  consistent : Consistent s
  sound : SoundTables s
  below : ∀ n ∈ s.physical.head, ∀ p, ContainsPair s p n.index →
    n.entry.entPhysicalContainedIn ≠ 0 ∧ n.entry.entPhysicalContainedIn ≤ p
  derived : ∀ n ∈ s.physical.head, given n.index.natAbs = 0 →
    n.entry.entPhysicalContainedIn = 0 ∨ ContainsPair s n.entry.entPhysicalContainedIn n.index.natAbs

theorem Tied.leastParent (h : Tied s given) (hn : n ∈ s.physical.head) (h0 : 0 < n.index)
    (hgiven : given n.index = 0) : LeastParent s n.index n.entry.entPhysicalContainedIn := by
  have habs : (n.index.natAbs : Int) = n.index := by omega
  have hderived := h.derived n hn
  rw [habs] at hderived
  rcases hderived hgiven with hzero | hpair
  · refine .inr ⟨Set.eq_empty_iff_forall_notMem.mpr fun p hp => ?_, hzero⟩
    exact (h.below n hn p hp).1 hzero
  · exact .inl ⟨hpair, fun p hp => (h.below n hn p hp).2⟩

theorem live_of_abs (h : Consistent s) (hn : n ∈ s.physical.head) (hlive : LivePhysical s n.index.natAbs) :
    n.index = n.index.natAbs := by
  obtain ⟨h0, m, hm, hmn⟩ := hlive
  have heq : m = n := h.physical.unique hm hn (by omega)
  rw [heq] at hmn
  exact hmn

theorem Tied.elsewhere (h : Tied s given) (he : Elsewhere s t) (hc : Consistent t) (hs : SoundTables t) :
    Tied t given := by
  obtain ⟨hphys, hrows⟩ := he
  have hpair (a b : Int) : ContainsPair t a b ↔ ContainsPair s a b := by simp only [ContainsPair, hrows]
  refine ⟨hc, hs, fun n hn p hp => ?_, fun n hn hg => ?_⟩
  · rw [hphys] at hn
    exact h.below n hn p ((hpair _ _).mp hp)
  · rw [hphys] at hn
    rw [hpair]
    exact h.derived n hn hg

theorem Tied.loses {lost : Int → Prop} (h : Tied s given) (hl : LosesParent s t p lost mem)
    (hseen : ChildrenSeen s p mem) (hc : Consistent t) (hs : SoundTables t) : Tied t given := by
  have hkept (n) (hn : n ∈ s.physical.head)
      (hkeep : mem = true → ContainsPair s p n.index → lost n.index → n.entry.entPhysicalContainedIn ≠ p)
      (hpair : ContainsPair s p n.index) (hlost : lost n.index) : n.entry.entPhysicalContainedIn ≠ p := by
    rcases hseen with hm | hnone
    · exact hkeep hm hpair hlost
    · exact hnone n hn hpair
  refine ⟨hc, hs, fun n hn q hq => ?_, fun n hn hg => ?_⟩
  · rcases hl.nodes n hn with ⟨hn, _⟩ | ⟨_, _, hleast, _⟩
    · exact h.below n hn q ((hl.pairs q n.index).mp hq).1
    · rcases hleast with ⟨hpair, hlow⟩ | ⟨hempty, _⟩
      · have hpos := hpair.1
        exact ⟨by omega, hlow hq⟩
      · exact absurd hq (Set.eq_empty_iff_forall_notMem.mp hempty q)
  · rcases hl.nodes n hn with ⟨hn, hkeep⟩ | ⟨hpair, _, hleast, _⟩
    · rcases h.derived n hn hg with hzero | hpair
      · exact .inl hzero
      · refine .inr ((hl.pairs _ _).mpr ⟨hpair, ?_⟩)
        rintro ⟨hvp, hlost⟩
        have hidx := live_of_abs h.consistent hn (h.consistent.contains _ _ hpair).2
        rw [hvp, ← hidx] at hpair
        rw [← hidx] at hlost
        exact hkept n hn hkeep hpair hlost hvp
    · have habs : (n.index.natAbs : Int) = n.index := by
        have := hpair.2.1
        omega
      rw [habs]
      rcases hleast with ⟨hpair, _⟩ | ⟨_, hzero⟩
      · exact .inr hpair
      · exact .inl hzero

theorem tied_deleteContains (h : Tied s given) (p c : Int) :
    Tied (deletePhysicalContainsTableEntry p c s).1 given :=
  h.loses (deleteContains_loses h.consistent h.sound p c) (.inl rfl) (consistent_deleteContains h.consistent p c)
    (sound_deleteContains h.sound p c)

theorem tied_deleteContainsParent (h : Tied s given) (hseen : ChildrenSeen s p mem) :
    Tied (deletePhysicalContainsParentIndex p mem s).1 given :=
  h.loses (deleteContainsParent_loses h.consistent h.sound p mem) hseen
    (consistent_deleteContainsParent h.consistent p mem) (sound_deleteContainsParent h.sound p mem)

theorem tied_deleteContainsChild (h : Tied s given) (c : Int) :
    Tied (deletePhysicalContainsChildIndex c s).1 given :=
  deletePhysicalContainsChildIndex_induction (P := fun t => Tied t given)
    (fun p _ ht => tied_deleteContains ht p c) h

theorem tied_linked {rows : List (MappingRow Int)} (h : Tied s given) (hrows : SoundContains rows)
    (hp : LivePhysical s p) (hc : LivePhysical s c)
    (hin : pairs liveIndex rows = insert (p, c) (pairs liveIndex s.contains))
    (hcons : Consistent (lowerContainedIn p c { s with contains := rows })) :
    Tied (lowerContainedIn p c { s with contains := rows }) given := by
  have hsound := sound_lower (SoundTables.withContains h.sound hrows) p c
  have hpair (a b : Int) : ContainsPair (lowerContainedIn p c { s with contains := rows }) a b ↔
      (a = p ∧ b = c) ∨ ContainsPair s a b := by
    rw [SoundRows.containsPair hsound.contains.toSoundRows,
      (lowerContainedIn_tables p c { s with contains := rows }).1,
      SoundRows.containsPair h.sound.contains.toSoundRows]
    show (a, b) ∈ pairs liveIndex rows ↔ _
    rw [hin, Set.mem_insert_iff, Prod.mk.injEq]
  refine ⟨hcons, hsound, fun n hn a ha => ?_, fun n hn hg => ?_⟩
  · rcases mem_lowerContainedIn (s := { s with contains := rows }) h.consistent.physical hc.1 hn with
      ⟨hn, hlow⟩ | ⟨hnc, hv, m, hm, hmc, hmv⟩
    · rcases (hpair a n.index).mp ha with ⟨rfl, hnc⟩ | ha
      · exact hlow hnc
      · exact h.below n hn a ha
    · have hp0 := hp.1
      rw [hv]
      rcases (hpair a n.index).mp ha with ⟨rfl, _⟩ | ha
      · exact ⟨by omega, le_refl _⟩
      · rw [hnc, ← hmc] at ha
        obtain ⟨hne, hle⟩ := h.below m hm a ha
        exact ⟨by omega, by omega⟩
  · rcases mem_lowerContainedIn (s := { s with contains := rows }) h.consistent.physical hc.1 hn with
      ⟨hn, _⟩ | ⟨hnc, hv, _⟩
    · exact (h.derived n hn hg).imp_right fun ha => (hpair _ _).mpr (.inr ha)
    · have hc0 := hc.1
      exact .inr ((hpair _ _).mpr (.inl ⟨hv, by omega⟩))

theorem tied_addContains {mem : AddMemory} {rc : Int} (h : Tied s given)
    (hblock : rejectContains p c s = none → isRecursiveChild s mem.lists p (depthBound s) [] c = some false →
      ∀ r vs, findRow p s.contains = some r → r.values = some vs → c ∉ vs → -1 ∉ vs → mem.block = true)
    (hadd : addPhysicalContainsTableEntry p c mem s = some (t, rc)) : Tied t given := by
  have hcons := consistent_addContains h.consistent hadd
  rcases addPhysicalContainsTableEntry_cases hadd with rfl | ⟨hr, hsearch, rfl⟩
  · exact h
  · obtain ⟨_, hp, hc⟩ := rejectContains_none hr
    have hpr := (live_guards hp).1
    have hc0 := inRange_pos (live_guards hc).1
    rcases linkChild_rows h.sound.contains hpr hc0 mem with
      ⟨he, _⟩ | ⟨he, _⟩ | ⟨⟨r, vs, hrow, hv, hnew, hfull⟩, hno, _, _⟩ | ⟨rows, hrows, _, hin, he⟩
    · rwa [he]
    · rwa [he]
    · rw [hblock hr hsearch r vs hrow hv hnew hfull] at hno
      cases hno
    · rw [he] at hcons ⊢
      exact tied_linked h hrows (livePhysical_of_get hp) (livePhysical_of_get hc) hin hcons

theorem tied_purge (h : Tied s given) (hseen : ChildrenSeen s x mem) : Tied (purgePhysical x mem s) given := by
  obtain ⟨hphys, hrows⟩ := purge_elsewhere x s
  have hcons := consistent_deleteLPPhysical (consistent_deleteAliasPhysical h.consistent x) x
  have hsound := sound_deleteLPPhysical (sound_deleteAliasPhysical h.sound x) x
  have htied := h.elsewhere ⟨hphys, hrows⟩ hcons hsound
  refine tied_deleteContainsChild (tied_deleteContainsParent htied ?_) x
  rcases hseen with hm | hnone
  · exact .inl hm
  · refine .inr fun n hn hp => hnone n (hphys ▸ hn) ?_
    simpa only [ContainsPair, hrows] using hp

theorem mapping_tied (h : Tied s given) (hok : KeepsLowest o ⟨s, given⟩) (hm : mapping o = true)
    (hs : step o s = some t) : Tied t given := by
  have hcons := mapping_consistent h.consistent hm hs
  have hsound := mapping_sound h.sound hm hs
  by_cases he : elsewhere o = true
  · exact h.elsewhere (step_elsewhere he hs) hcons hsound
  · cases o with
    | addContains p c mem =>
        obtain ⟨r, hr, rfl⟩ := Option.map_eq_some_iff.mp hs
        exact tied_addContains h hok.2 hr
    | deleteContains p c => exact step_some rfl hs ▸ tied_deleteContains h p c
    | deleteContainsParent p mem => exact step_some rfl hs ▸ tied_deleteContainsParent h hok.2
    | deleteContainsChild c => exact step_some rfl hs ▸ tied_deleteContainsChild h c
    | allocPhysical => cases hm
    | deletePhysical => cases hm
    | stalePhysical => cases hm
    | livePhysical => cases hm
    | allocLogical => cases hm
    | deleteLogical => cases hm
    | staleLogical => cases hm
    | liveLogical => cases hm
    | _ => exact absurd rfl he

theorem alloc_tied {new : NewPhysicalEntry} {e : PhysicalEntry} {addr : Nat} {tab : Table PhysicalEntry} {j : Int}
    (h : Tied s given) (he : physicalDefaults new = some e) (hadd : Added ⟨addr, i, e⟩ s.physical tab j)
    (hc : Consistent { s with physical := tab }) (hs : SoundTables { s with physical := tab }) :
    Tied { s with physical := tab } (Function.update given j new.entPhysicalContainedIn) := by
  have hrecorded : e.entPhysicalContainedIn = new.entPhysicalContainedIn := by
    obtain ⟨descr, _, rfl⟩ := Option.map_eq_some_iff.mp he
    rfl
  obtain ⟨last, hin, _⟩ := hadd.inserted
  have hfree (m : Node PhysicalEntry) (hm : m ∈ s.physical.head) : (m.index.natAbs : Int) ≠ j := by
    obtain ⟨l₁, l₂, hl, _, _, hbefore, hafter⟩ := hin
    rw [hl] at hm
    rcases List.mem_append.mp hm with hm | hm
    · exact ne_of_lt (hbefore m hm)
    · exact (ne_of_lt (hafter m hm)).symm
  have hj := hadd.positive
  refine ⟨hc, hs, fun n hn p hp => ?_, fun n hn hg => ?_⟩
  · rcases (hin.mem_iff n).mp hn with rfl | hn
    · obtain ⟨_, m, hm, hmj⟩ := (h.consistent.contains p j hp).2
      have := hfree m hm
      omega
    · exact h.below n hn p hp
  · rcases (hin.mem_iff n).mp hn with rfl | hn
    · have habs : (j.natAbs : Int) = j := by omega
      dsimp only at hg ⊢
      rw [habs, Function.update_self] at hg
      exact .inl (hrecorded.trans hg)
    · rw [Function.update_of_ne (hfree n hn)] at hg
      exact h.derived n hn hg

theorem tied_unlink (h : Tied s given) (hc : Consistent (unlinkPhysical x s)) (hs : SoundTables (unlinkPhysical x s)) :
    Tied (unlinkPhysical x s) given := by
  have hsub := (unlink_sublist x s.physical.head).subset
  exact ⟨hc, hs, fun n hn p hp => h.below n (hsub hn) p hp, fun n hn hg => h.derived n (hsub hn) hg⟩

theorem tied_retag (h : Tied s given) (hi : i.natAbs = x.natAbs) (hnone : ∀ p, ¬ ContainsPair s p i)
    (hc : Consistent (retagPhysical x i s)) (hs : SoundTables (retagPhysical x i s)) :
    Tied (retagPhysical x i s) given := by
  refine ⟨hc, hs, fun n hn p hp => ?_, fun n hn hg => ?_⟩
  · rcases (mem_retag h.consistent.physical n).mp hn with ⟨hn, _⟩ | ⟨y, _, _, rfl⟩
    · exact h.below n hn p hp
    · exact absurd hp (hnone p)
  · rcases (mem_retag h.consistent.physical n).mp hn with ⟨hn, _⟩ | ⟨y, hy, hyx, rfl⟩
    · exact h.derived n hn hg
    · have habs : i.natAbs = y.index.natAbs := hi.trans hyx.symm
      dsimp only at hg ⊢
      rw [habs] at hg ⊢
      exact h.derived y hy hg

theorem record_other (ho : ∀ i new mem, o ≠ .allocPhysical i new mem) (rc : Int) (given : Int → Int) :
    record o rc given = given := by
  cases o with
  | allocPhysical i new mem => exact absurd rfl (ho i new mem)
  | _ => rfl

theorem other_tied (h : Tied s given) (hok : KeepsLowest o ⟨s, given⟩) (hs : step o s = some t)
    (ho : ∀ i new mem, o ≠ .allocPhysical i new mem) : Tied t given := by
  have hcons := step_consistent h.consistent hok.1 hs
  have hsound := step_sound h.sound hs
  cases step_entries hs with
  | unchanged => exact h
  | same hm _ => exact mapping_tied h hok hm hs
  | allocPhysical he hr hfresh ht => exact absurd rfl (ho _ _ _)
  | deletePhysical hx hl => exact tied_unlink (tied_purge h hok.2) hcons hsound
  | stalePhysical hx hl =>
      rename_i x mem
      have hx0 := inRange_pos hx
      refine tied_retag (tied_purge h hok.2) (Int.natAbs_neg x) (fun p hp => ?_) hcons hsound
      have := hp.2.1
      omega
  | livePhysical hx hl =>
      rename_i x
      have hx0 := inRange_pos hx
      obtain ⟨n, hn⟩ := hl
      obtain ⟨hmem, hnx⟩ := find_stale hn
      refine tied_retag h rfl (fun p hp => ?_) hcons hsound
      obtain ⟨_, m, hm, hmx⟩ := (h.consistent.contains p x hp).2
      have heq : m = n := h.consistent.physical.unique hm hmem (by omega)
      rw [heq] at hmx
      omega
  | allocLogical he hr hfresh ht => exact h.elsewhere ⟨rfl, rfl⟩ hcons hsound
  | deleteLogical hx hl =>
      rename_i x
      exact h.elsewhere (purgeLogical_elsewhere x s) hcons hsound
  | staleLogical hx hl =>
      rename_i x
      exact h.elsewhere (purgeLogical_elsewhere x s) hcons hsound
  | liveLogical hx hl => exact h.elsewhere ⟨rfl, rfl⟩ hcons hsound

theorem step_tied {u v : History} (h : Tied u.state u.allocatedIn) (hok : KeepsLowest o u)
    (hs : historyStep o u = some v) : Tied v.state v.allocatedIn := by
  obtain ⟨s, given⟩ := u
  obtain ⟨r, hr, rfl⟩ := Option.map_eq_some_iff.mp hs
  have hstep : step o s = some r.1 := by rw [step, hr, Option.map_some]
  by_cases ho : ∀ i new mem, o ≠ .allocPhysical i new mem
  · rw [record_other ho]
    exact other_tied h hok hstep ho
  · push Not at ho
    obtain ⟨i, new, mem, rfl⟩ := ho
    have hcons := step_consistent h.consistent hok.1 hstep
    have hsound := step_sound h.sound hstep
    simp only [call] at hr
    split at hr
    · rename_i hfresh
      rcases allocPhysicalEntry_cases hr with ⟨he, hrc⟩ | ⟨e, addr, tab, he, hrej, rfl, ht, hst⟩
      · have hsame : record (.allocPhysical i new mem) r.2 given = given := if_neg (by omega)
        rw [hsame, he]
        exact h
      · obtain ⟨hroom, hsafe⟩ := hok.1 _ he hrej rfl
        have hadd := addToTable_added h.consistent.physical h.consistent.physicalSize (rejectPhysical_bound hrej)
          hroom hsafe ht
        have hnew : record (.allocPhysical i new (some addr)) r.2 given =
            Function.update given r.2 new.entPhysicalContainedIn := if_pos hadd.positive
        rw [hst] at hcons hsound
        rw [hnew, hst]
        exact alloc_tied h he hadd hcons hsound
    · cases hr

theorem initial_tied {u : History} (h : Initial u) : Tied u.state u.allocatedIn := by
  have hempty : u.state = {} := h
  refine ⟨empty_consistent h, empty_sound h, ?_, ?_⟩
  · intro n hn
    rw [hempty] at hn
    cases hn
  · intro n hn
    rw [hempty] at hn
    cases hn

/-- In every state of a run in which those allocations succeed, entPhysicalContainedIn follows
from the live pairs. -/
theorem reachable_derived {u : History} (h : Reachable historyStep KeepsLowest Initial u) :
    Derived u := by
  have htied := h.invariant (fun u => Tied u.state u.allocatedIn) (fun _ => initial_tied)
    fun _ _ _ ht hok hs => step_tied ht hok hs
  intro n hn h0
  refine ⟨fun ⟨p, hp⟩ => ?_, fun hg => htied.leastParent hn h0 hg⟩
  exact ⟨(htied.below n hn p hp).1, fun q hq => (htied.below n hn q hq).2⟩

/-- Entry 3 is recorded in entry 2, then in entry 1. -/
theorem reachable_derived_pair : ∃ u : History, ContainsPair u.state 1 3 ∧ ContainsPair u.state 2 3 ∧ Derived u := by
  have h0 : Reachable historyStep KeepsLowest Initial ⟨{}, fun _ => 0⟩ := .start rfl
  have h1 : Reachable historyStep KeepsLowest Initial _ :=
    .next (.allocPhysical 1 {} (some 1)) h0
      ⟨fun _ _ _ _ => ⟨.inr (.inl rfl), .inr (.inl (by decide))⟩, trivial⟩ rfl
  have h2 : Reachable historyStep KeepsLowest Initial _ :=
    .next (.allocPhysical 2 {} (some 2)) h1
      ⟨fun _ _ _ _ => ⟨.inl ⟨by decide, by unfold Unused; decide⟩, .inr (.inl (by decide))⟩, trivial⟩ rfl
  have h3 : Reachable historyStep KeepsLowest Initial _ :=
    .next (.allocPhysical 3 {} (some 3)) h2
      ⟨fun _ _ _ _ => ⟨.inl ⟨by decide, by unfold Unused; decide⟩, .inr (.inl (by decide))⟩, trivial⟩ rfl
  have h4 : Reachable historyStep KeepsLowest Initial _ :=
    .next (.addContains 2 3 {}) h3 ⟨trivial, fun _ _ _ _ _ _ _ _ => rfl⟩ rfl
  have h5 : Reachable historyStep KeepsLowest Initial _ :=
    .next (.addContains 1 3 {}) h4 ⟨trivial, fun _ _ _ _ _ _ _ _ => rfl⟩ rfl
  refine ⟨_, ?_, ?_, reachable_derived h5⟩ <;> unfold ContainsPair <;> decide

/-- The array of entry 1 cannot grow for entry 3, and with it the pair with entry 2 is gone. -/
theorem lost_array_recorded :
    ∃ u, Reachable historyStep (fun _ _ => True) Initial u ∧ ¬ Derived u := by
  have h0 : Reachable historyStep (fun _ _ => True) Initial ⟨{}, fun _ => 0⟩ := .start rfl
  have h1 : Reachable historyStep (fun _ _ => True) Initial _ := .next (.allocPhysical 1 {} (some 1)) h0 trivial rfl
  have h2 : Reachable historyStep (fun _ _ => True) Initial _ :=
    .next (.allocPhysical 2 {} (some 2)) h1 trivial rfl
  have h3 : Reachable historyStep (fun _ _ => True) Initial _ :=
    .next (.allocPhysical 3 {} (some 3)) h2 trivial rfl
  have h4 : Reachable historyStep (fun _ _ => True) Initial _ :=
    .next (.addContains 1 2 {}) h3 trivial rfl
  have h5 : Reachable historyStep (fun _ _ => True) Initial _ :=
    .next (.addContains 1 3 { block := false }) h4 trivial rfl
  refine ⟨_, h5, fun h => ?_⟩
  rcases (h _ (List.mem_cons_of_mem _ List.mem_cons_self) (by decide)).2 rfl with ⟨⟨_, _, r, hr, _, hm⟩, _⟩ | ⟨_, h0⟩
  · rw [List.mem_singleton.mp hr] at hm
    cases hm
  · cases h0

end OiUserland.EntityMib.LowestParentRuns
