import OiUserland.EntityMib.IntegrityRuns

namespace OiUserland.EntityMib.Allocation

open Lib.Runs EntityTable Entities MibState ListInvariant Integrity IntegrityRuns Module

variable {E : Type} {l : List (Node E)} {t : Table E} {new : Node E} {s : State}

theorem Inserted.unused {l' : List (Node E)} {last : Bool} (h : Inserted new l l' last) : Unused new.index l := by
  obtain ⟨l₁, l₂, rfl, rfl, -, hlo, hhi⟩ := h
  intro z hz
  rcases List.mem_append.mp hz with hz | hz
  · exact Int.ne_of_lt (hlo z hz)
  · exact (Int.ne_of_lt (hhi z hz)).symm

theorem nextIndex_pos {z : Node E} (hz : (z.index.natAbs : Int) ≤ maxEntityIndex) (h : 0 < nextIndex z) :
    (z.index.natAbs : Int) < maxEntityIndex := by
  by_contra hlast
  have heq : (z.index.natAbs : Int) = maxEntityIndex := by omega
  rw [nextIndex, absInt_eq hz, heq] at h
  exact absurd h (by decide)

theorem fillGap_room (ho : Ordered l) (h : 0 < (fillGap new l).2.1) :
    l = [] ∨ ∃ z ∈ l, (z.index.natAbs : Int) < maxEntityIndex ∧ Unused (z.index.natAbs + 1) l := by
  induction l with
  | nil => exact .inl rfl
  | cons z zs ih =>
      right
      cases zs with
      | nil =>
          simp only [fillGap] at h
          refine ⟨z, List.mem_cons_self .., nextIndex_pos (z := z) (ho.bounds z (List.mem_cons_self ..)).2 h, fun y hy => ?_⟩
          rw [List.mem_singleton.mp hy]
          omega
      | cons y zs =>
          by_cases hgap : z.index.natAbs + 1 < y.index.natAbs
          · have hy := (ho.bounds y (by simp)).2
            refine ⟨z, List.mem_cons_self .., by omega, fun x hx => ?_⟩
            rcases List.mem_cons.mp hx with rfl | hx
            · omega
            · have hle : y.index.natAbs ≤ x.index.natAbs := by
                rcases List.mem_cons.mp hx with rfl | hx
                · exact Nat.le_refl _
                · exact Nat.le_of_lt (ho.tail.head_lt hx)
              omega
          · rw [fillGap_next new ho hgap] at h
            obtain ⟨w, hw, hlt, hfree⟩ := (ih ho.tail h).resolve_left (List.cons_ne_nil _ _)
            refine ⟨w, List.mem_cons_of_mem _ hw, hlt, fun x hx => ?_⟩
            rcases List.mem_cons.mp hx with rfl | hx
            · have := ho.head_lt hw
              omega
            · exact hfree x hx

/-- The new entry gets the requested index if no entry has it, and otherwise a valid one that no entry
has; it is put in its place, and the other entries are as they were. -/
def Allocates (new : Node E) (t : Table E) : Prop :=
  ∃ t' i, addToTable new t = some (t', i) ∧ Added new t t' i ∧ Unused i t.head ∧ (Unused new.index t.head → i = new.index)

theorem addToTable_total (new : Node E) (hw : WellFormed t) : ∃ t' i, addToTable new t = some (t', i) := by
  unfold addToTable
  split
  · exact ⟨_, _, rfl⟩
  · split
    · next hlarge =>
        have hne : t.head ≠ [] := by
          intro hnil
          have hsize := hw.size
          rw [hnil] at hsize
          rw [hsize, List.length_nil] at hlarge
          revert hlarge
          decide
        have hlast : t.head.getLast? = some (t.head.getLast hne) := List.getLast?_eq_some_getLast hne
        rw [hw.tail _ hlast, Option.bind_some, linkAfter_last hw.toOrdered hlast]
        exact ⟨_, _, rfl⟩
    · exact ⟨_, _, rfl⟩

theorem addToTable_requested (hw : WellFormed t) (h0 : 0 < new.index) (hfree : Unused new.index t.head) :
    ∃ t', addToTable new t = some (t', new.index) := by
  obtain ⟨r, hr⟩ := Option.isSome_iff_exists.mp (place_isSome hw.toOrdered hfree)
  unfold addToTable
  rw [if_pos h0, hr]
  exact ⟨_, rfl⟩

theorem add_requested_iff (new : Node E) (t : Table E) (hw : WellFormed t) (h0 : 0 < new.index)
    (hmax : new.index ≤ maxEntityIndex) : Allocates new t ↔ HasRoom new.index t := by
  constructor
  · rintro ⟨t', i, hadd, hadded, -, -⟩
    by_cases hfree : Unused new.index t.head
    · exact .inl ⟨h0, hfree⟩
    · right
      have hplace : place new t.head = none := by
        rw [← Option.not_isSome_iff_eq_none, place_isSome_iff hw.toOrdered]
        exact hfree
      have hpos := hadded.positive
      unfold addToTable at hadd
      rw [if_pos h0, hplace] at hadd
      dsimp only at hadd
      by_cases hlarge : t.size > largeTable
      · right
        rw [if_pos hlarge] at hadd ⊢
        intro z hz
        rw [hw.tail z hz, Option.bind_some, linkAfter_last hw.toOrdered hz, Option.map_some] at hadd
        cases hadd
        dsimp only at hpos
        exact nextIndex_pos (z := z) (hw.bounds z (List.mem_of_getLast? hz)).2 hpos
      · rw [if_neg hlarge] at hadd ⊢
        cases hadd
        exact fillGap_room hw.toOrdered hpos
  · intro hroom
    obtain ⟨t', i, hadd⟩ := addToTable_total new hw
    have hadded := addToTable_added hw.toOrdered hw.size hmax hroom (.inr (.inr hw.tail)) hadd
    obtain ⟨last, hinserted, -⟩ := hadded.inserted
    refine ⟨t', i, hadd, hadded, Inserted.unused hinserted, fun hfree => ?_⟩
    obtain ⟨t'', hrequested⟩ := addToTable_requested hw h0 hfree
    rw [hadd] at hrequested
    exact congrArg Prod.snd (Option.some.inj hrequested)

/-- Index 1 is taken by a stale entry, and the new one gets index 2. -/
theorem add_requested_iff_taken : ∃ e, physicalDefaults {} = some e ∧
    Allocates ⟨2, 1, e⟩ (⟨[⟨1, -1, e⟩], some 1, 1, []⟩ : Table PhysicalEntry) := by
  have hw (e : PhysicalEntry) : WellFormed (⟨[⟨1, -1, e⟩], some 1, 1, []⟩ : Table PhysicalEntry) := by
    refine ⟨⟨List.pairwise_singleton _ _, ?_, List.nodup_singleton _⟩, rfl, ?_⟩
    · intro z hz
      rw [List.mem_singleton.mp hz]
      change 0 < (-1 : Int).natAbs ∧ ((-1 : Int).natAbs : Int) ≤ maxEntityIndex
      decide
    · rintro z ⟨rfl⟩
      rfl
  refine ⟨_, rfl, (add_requested_iff _ _ (hw _) (by decide) (by decide)).mpr (.inr (.inr ?_))⟩
  rw [if_neg (by decide)]
  refine ⟨_, List.mem_singleton_self _, by decide, fun z hz => ?_⟩
  rw [List.mem_singleton.mp hz]
  decide

/-- The only entry has the last index of all, and it is requested again. -/
theorem requested_last_overflows : ∃ e, physicalDefaults {} = some e ∧
    WellFormed (⟨[⟨1, maxEntityIndex, e⟩], some 1, 1, []⟩ : Table PhysicalEntry) ∧
    ¬ Allocates ⟨2, maxEntityIndex, e⟩ (⟨[⟨1, maxEntityIndex, e⟩], some 1, 1, []⟩ : Table PhysicalEntry) := by
  refine ⟨_, rfl, ⟨⟨List.pairwise_singleton _ _, ?_, List.nodup_singleton _⟩, rfl, ?_⟩, ?_⟩
  · intro z hz
    rw [List.mem_singleton.mp hz]
    decide
  · rintro z ⟨rfl⟩
    rfl
  · rintro ⟨t', i, hadd, hadded, -⟩
    have hindex : (some (t', i)).map Prod.snd = some (-2147483648) := by
      rw [← hadd]
      decide +kernel
    obtain rfl := Option.some.inj hindex
    exact absurd hadded.positive (by decide)

/-- The least positive index that no entry has. -/
def FirstFree (new : Node E) (t : Table E) : Prop :=
  ∃ t' i, addToTable new t = some (t', i) ∧ 0 < i ∧ Unused i t.head ∧ ∀ j, 0 < j → Unused j t.head → i ≤ j

theorem unused_cons {z : Node E} {i : Int} : Unused i (z :: l) ↔ (z.index.natAbs : Int) ≠ i ∧ Unused i l := List.forall_mem_cons

theorem fillGap_first (new : Node E) {z : Node E} (ho : Ordered (z :: l)) (hlimit : (z.index.natAbs + l.length : Int) < maxEntityIndex) :
    (z.index.natAbs : Int) < (fillGap new (z :: l)).2.1 ∧ Unused (fillGap new (z :: l)).2.1 (z :: l) ∧
      ∀ j : Int, z.index.natAbs < j → Unused j (z :: l) → (fillGap new (z :: l)).2.1 ≤ j := by
  induction l generalizing z with
  | nil =>
      have hz : (z.index.natAbs : Int) < maxEntityIndex := by simpa using hlimit
      simp only [fillGap, nextIndex_eq hz]
      refine ⟨by omega, fun y hy => ?_, fun j hj _ => by omega⟩
      rw [List.mem_singleton.mp hy]
      omega
  | cons y l ih =>
      have hzy : z.index.natAbs < y.index.natAbs := ho.head_lt (List.mem_cons_self ..)
      by_cases hgap : z.index.natAbs + 1 < y.index.natAbs
      · rw [fillGap_gap new ho hgap]
        refine ⟨by dsimp only; omega, fun x hx => ?_, fun j hj _ => by dsimp only; omega⟩
        rcases List.mem_cons.mp hx with rfl | hx
        · dsimp only
          omega
        · have hle : y.index.natAbs ≤ x.index.natAbs := by
            rcases List.mem_cons.mp hx with rfl | hx
            · exact Nat.le_refl _
            · exact Nat.le_of_lt (ho.tail.head_lt hx)
          dsimp only
          omega
      · rw [List.length_cons] at hlimit
        obtain ⟨hlt, hfree, hfirst⟩ := ih ho.tail (by omega)
        rw [fillGap_next new ho hgap]
        refine ⟨by dsimp only; omega, unused_cons.mpr ⟨by dsimp only; omega, hfree⟩, fun j hj hjfree => ?_⟩
        obtain ⟨-, hjfree⟩ := unused_cons.mp hjfree
        have hjy := (unused_cons.mp hjfree).1
        exact hfirst j (by omega) hjfree

theorem first_free_iff (ho : Ordered t.head) (hsize : t.size = t.head.length) (hsmall : t.size ≤ largeTable) (h0 : new.index = 0) :
    FirstFree new t ↔ ∀ z, t.head.head? = some z → z.index.natAbs = 1 := by
  have hadd : ∃ t', addToTable new t = some (t', (fillGap new t.head).2.1) := by
    unfold addToTable
    rw [if_neg (by omega), if_neg (by omega)]
    exact ⟨_, rfl⟩
  obtain ⟨t', hadd⟩ := hadd
  unfold FirstFree
  rw [hadd]
  cases hhead : t.head with
  | nil => exact iff_of_true ⟨t', 1, rfl, by decide, nofun, fun j hj _ => hj⟩ nofun
  | cons z l =>
      rw [hhead] at ho hsize
      have hz := ho.bounds z (List.mem_cons_self ..)
      constructor
      · rintro ⟨t'', i, hi, hpos, hfree, hfirst⟩ y hy
        cases hi
        obtain rfl := Option.some.inj hy
        by_contra hne
        have hone : Unused 1 (z :: l) := by
          refine unused_cons.mpr ⟨by omega, fun x hx => ?_⟩
          have := ho.head_lt hx
          omega
        have hlt := (fillGap_inserted new ho (fillGap_room ho hpos)).2.2.1 z rfl
        have hle := hfirst 1 (by decide) hone
        omega
      · intro hone
        have hz1 := hone z rfl
        have hlimit : (z.index.natAbs + l.length : Int) < maxEntityIndex := by
          rw [hsize, List.length_cons, largeTable] at hsmall
          rw [maxEntityIndex]
          omega
        obtain ⟨hlt, hfree, hfirst⟩ := fillGap_first new ho hlimit
        refine ⟨t', _, rfl, by omega, hfree, fun j hj hjfree => hfirst j ?_ hjfree⟩
        have hjz := (unused_cons.mp hjfree).1
        omega

/-- In every run whose insertions find room and do not trust a wrong tail pointer, an automatic index of a table that is
not large is the first free one if and only if index 1 is taken or the table is empty. -/
theorem reachable_first_free (h : Reachable step SafeInsert Empty s) (addr : Nat) (e : PhysicalEntry) (d : LogicalEntry) :
    (s.physical.size ≤ largeTable →
      (FirstFree ⟨addr, 0, e⟩ s.physical ↔ ∀ z, s.physical.head.head? = some z → z.index.natAbs = 1)) ∧
    (s.logical.size ≤ largeTable →
      (FirstFree ⟨addr, 0, d⟩ s.logical ↔ ∀ z, s.logical.head.head? = some z → z.index.natAbs = 1)) := by
  have hconsistent : Consistent s := h.invariant Consistent (fun _ => empty_consistent) fun _ _ _ hc hok hs => step_consistent hc hok hs
  exact ⟨fun hsmall => first_free_iff hconsistent.physical hconsistent.physicalSize hsmall rfl,
    fun hsmall => first_free_iff hconsistent.logical hconsistent.logicalSize hsmall rfl⟩

/-- Entry 1 is allocated, and the next automatic index is 2. -/
theorem reachable_first_free_second : ∃ (s : State) (e : PhysicalEntry), physicalDefaults {} = some e ∧ s.physical.head.map Node.index = [1] ∧
    FirstFree ⟨2, 0, e⟩ s.physical := by
  have h1 : Reachable step SafeInsert Empty _ :=
    .next (.allocPhysical 1 {} (some 1)) (.start rfl) (fun _ _ _ _ => ⟨.inr (.inl rfl), .inr (.inl (by decide))⟩) rfl
  refine ⟨_, _, rfl, rfl, ((reachable_first_free h1 2 _ ⟨[], [], 0, [], [], [], 0, [], []⟩).1 (by decide)).mpr ?_⟩
  rintro z ⟨rfl⟩
  rfl

/-- Entry 5 is allocated, and the next automatic index is 6. -/
theorem gap_before_head : ∃ (s : State) (e : PhysicalEntry), Reachable step SafeInsert Empty s ∧ physicalDefaults {} = some e ∧ s.physical.size = 1 ∧
    (addToTable ⟨2, 0, e⟩ s.physical).map Prod.snd = some 6 ∧ ¬ FirstFree ⟨2, 0, e⟩ s.physical := by
  have h1 : Reachable step SafeInsert Empty _ :=
    .next (.allocPhysical 5 {} (some 1)) (.start rfl) (fun _ _ _ _ => ⟨.inr (.inl rfl), .inr (.inl (by decide))⟩) rfl
  refine ⟨_, _, h1, rfl, rfl, by decide +kernel, ?_⟩
  rintro ⟨t', i, hadd, -, -, hfirst⟩
  have hindex : (some (t', i)).map Prod.snd = some 6 := by
    rw [← hadd]
    decide +kernel
  obtain rfl := Option.some.inj hindex
  refine absurd (hfirst 1 (by decide) fun z hz => ?_) (by decide)
  rw [List.mem_singleton.mp hz]
  decide

end OiUserland.EntityMib.Allocation
