import OiUserland.EntityMib.Placement
import OiUserland.EntityMib.ParentRuns

namespace OiUserland.EntityMib.PlacementCalls

open EntityTable MibState PhysicalContainsTable LPMappingTable AliasMappingTable
open PhysicalTable ListInvariant MappingRows Frames Module Purge
open RowSets MappingSets MappingRuns ContainedIn ParentRuns Placement

variable {s t : State} {o : Op} {p c x : Int} {mem : Bool}

def LastParent (s : State) (p c : Int) : Prop :=
  recorded s c = some p ∧ ContainsPair s p c ∧ ∀ q, ContainsPair s q c → q = p

def hasPlace (p c : Int) (mem : AddMemory) (rows : List (MappingRow Int)) : Prop :=
  match findRow p rows with
  | some r =>
      match r.values with
      | none => mem.block = true
      | some vs => c ∉ vs ∧ (-1 ∈ vs ∨ mem.block = true)
  | none => mem.block = true ∧ mem.array = true

/-- What must hold before a call. No entry without a parent is given one, and none is left without:
a pair is not recorded for a live child that is contained in none, and the last pair of a live child
that is contained in its parent is not deleted, unless the child is going to be deleted or stale
itself; and an entry that is made live again keeps the rule. -/
def KeepsPlacement (o : Op) (s : State) : Prop :=
  match o with
  | .addContains p c mem => recorded s c = some 0 → rejectContains p c s = none →
      isRecursiveChild s mem.lists p (depthBound s) [] c = some false → ¬ hasPlace p c mem s.contains
  | .deleteContains p c => getPhysicalTableStaleEntry p s = none → ¬ LastParent s p c
  | .deleteContainsParent p mem => (getPhysicalTableEntry p s).isSome → mem = true → ∀ c, ¬ LastParent s p c
  | .deleteContainsChild c => ∀ p, recorded s c = some p → ContainsPair s p c →
      ∃ q, ContainsPair s q c ∧ (getPhysicalTableStaleEntry q s).isSome
  | .deletePhysical x mem | .stalePhysical x mem =>
      (getPhysicalTableEntry x s).isSome → mem = true → ∀ c, c ≠ x → ¬ LastParent s x c
  | .livePhysical x => ∀ n, getPhysicalTableStaleEntry x s = some n → Placed n.entry
  | _ => True

theorem reuseSlot_isSome {vs vs' : List Int} (h : reuseSlot c vs = some vs') : -1 ∈ vs := by
  induction vs generalizing vs' with
  | nil => cases h
  | cons y ys ih =>
      unfold reuseSlot at h
      split at h
      · rename_i zs hzs
        exact List.mem_cons_of_mem y (ih hzs)
      · split at h
        · rename_i hy
          rw [hy]
          exact List.mem_cons_self
        · cases h

theorem linkChild_effect (p c : Int) (mem : AddMemory) (s : State) :
    (hasPlace p c mem s.contains ∧ ∃ rows, (linkChild p c mem s).1 = lowerContainedIn p c { s with contains := rows }) ∨
    (¬ hasPlace p c mem s.contains ∧ (linkChild p c mem s).1.physical = s.physical) := by
  unfold linkChild hasPlace
  cases hr : findRow p s.contains with
  | none =>
      dsimp only
      by_cases hm : (mem.block && mem.array) = true
      · rw [if_pos hm]
        exact .inl ⟨by simpa using hm, _, rfl⟩
      · rw [if_neg hm]
        exact .inr ⟨by simpa using hm, rfl⟩
  | some r =>
      dsimp only
      cases hv : r.values with
      | none =>
          dsimp only
          by_cases hm : mem.block = true
          · rw [if_pos hm]
            exact .inl ⟨hm, _, rfl⟩
          · rw [if_neg hm]
            exact .inr ⟨hm, rfl⟩
      | some vs =>
          dsimp only
          by_cases hin : c ∈ vs
          · rw [if_pos hin]
            exact .inr ⟨fun h => h.1 hin, rfl⟩
          · rw [if_neg hin]
            cases hvs : reuseSlot c vs with
            | some vs' => exact .inl ⟨⟨hin, .inl (reuseSlot_isSome hvs)⟩, _, rfl⟩
            | none =>
                dsimp only
                by_cases hm : mem.block = true
                · rw [if_pos hm]
                  exact .inl ⟨⟨hin, .inr hm⟩, _, rfl⟩
                · rw [if_neg hm]
                  exact .inr ⟨fun h => h.2.elim (reuseSlot_none hvs) hm, rfl⟩

theorem lower_of_zero (h : recorded s c = some 0) : lowerContainedIn p c s = setContainedIn c p s := by
  obtain ⟨n, hn, h0⟩ := Option.map_eq_some_iff.mp h
  unfold lowerContainedIn
  rw [hn]
  exact if_pos (.inl h0)

theorem placed_lower (h : AllPlaced s) (hp : 0 < p) (h0 : recorded s c ≠ some 0) : AllPlaced (lowerContainedIn p c s) := by
  rw [← placedBut_zero]
  unfold lowerContainedIn
  split
  · rename_i n hn
    have hr : recorded s c = some n.entry.entPhysicalContainedIn := by rw [recorded, hn, Option.map_some]
    split
    · rename_i hlower
      apply (h.but 0).set (le_refl 0) hr
      have hne : n.entry.entPhysicalContainedIn ≠ 0 := fun he => h0 (hr.trans (congrArg some he))
      exact .inr (iff_of_false (by omega) hne)
    · exact h.but 0
  · exact h.but 0

theorem addContains_placed {mem : AddMemory} {rc : Int} (h : AllPlaced s)
    (hadd : addPhysicalContainsTableEntry p c mem s = some (t, rc)) :
    AllPlaced t ↔ KeepsPlacement (.addContains p c mem) s := by
  have hsame := addPhysicalContainsTableEntry_same hadd
  by_cases hpass : rejectContains p c s = none ∧ isRecursiveChild s mem.lists p (depthBound s) [] c = some false
  · obtain ⟨hrej, hrec⟩ := hpass
    have ht : t = (linkChild p c mem s).1 := by
      simp only [addPhysicalContainsTableEntry, hrej, hrec, Option.some.injEq] at hadd
      rw [hadd]
    obtain ⟨_, hpl, _⟩ := rejectContains_none hrej
    have hp := inRange_pos (live_guards hpl).1
    rcases linkChild_effect p c mem s with ⟨hplace, rows, he⟩ | ⟨hplace, he⟩
    · have hkeep : KeepsPlacement (.addContains p c mem) s ↔ recorded s c ≠ some 0 :=
        ⟨fun hk h0 => hk h0 hrej hrec hplace, fun hne h0 => absurd h0 hne⟩
      have hcongr := recorded_congr (s := s) (t := { s with contains := rows }) rfl c
      rw [hkeep, ht, he]
      constructor
      · intro hplaced h0
        rw [← hcongr] at h0
        have hset : recorded (lowerContainedIn p c { s with contains := rows }) c = some p := by
          rw [lower_of_zero h0, recorded_set, h0, Option.map_some]
        rw [hcongr] at h0
        have hcpos := recorded_pos h0
        rw [ht, he] at hsame
        have hsign := PlacedBut.sign h hsame (hplaced.but 0) (le_refl 0) (by omega) h0 hset
        omega
      · intro hne
        exact placed_lower (s := { s with contains := rows }) h hp (by rwa [hcongr])
    · refine iff_of_true ?_ fun _ _ _ => hplace
      rw [ht, ← placedBut_zero]
      exact (h.but 0).congr he
  · have ht : t = s := by
      rcases addPhysicalContainsTableEntry_cases hadd with ht | ⟨hrej, hrec, _⟩
      · exact ht
      · exact absurd ⟨hrej, hrec⟩ hpass
    rw [ht]
    exact iff_of_true h fun _ hrej hrec => absurd ⟨hrej, hrec⟩ hpass

theorem deleteContains_effect (h : SoundContains s.contains) (p c : Int) :
    (∃ r, findRow p s.contains = some r ∧ getPhysicalTableStaleEntry p s = none ∧ ContainsPair s p c ∧
      (deletePhysicalContainsTableEntry p c s).1 =
        resetContainedIn p { s with contains := dropChild p c r s.contains } c) ∨
    ((deletePhysicalContainsTableEntry p c s).1 = s ∧
      ¬ (getPhysicalTableStaleEntry p s = none ∧ (getPhysicalTableEntry c s).isSome ∧ ContainsPair s p c)) := by
  by_cases hgo : (inRange p ∧ getPhysicalTableStaleEntry p s = none) ∧
      (inRange c ∧ getPhysicalTableStaleEntry c s = none) ∧ ∃ r, findRow p s.contains = some r ∧ c ∈ elements r
  · obtain ⟨hp, hc, r, hr, hm⟩ := hgo
    have hpair : ContainsPair s p c :=
      ⟨inRange_pos hp.1, inRange_pos hc.1, r, (findRow_some hr).1, (findRow_some hr).2, hm⟩
    exact .inl ⟨r, hr, hp.2, hpair, congrArg Prod.fst (deleteContains_pair hp hc hr hm)⟩
  · refine .inr ⟨?_, ?_⟩
    · unfold deletePhysicalContainsTableEntry
      split
      · rfl
      · rename_i hrange
        simp only [Bool.or_eq_true, Bool.not_eq_true', not_or, Bool.not_eq_false] at hrange
        split
        · rfl
        · rename_i hps
          split
          · rfl
          · rename_i hcs
            split
            · rfl
            · rename_i r hr
              split
              · rename_i hm
                rw [Option.not_isSome_iff_eq_none] at hps hcs
                exact absurd ⟨⟨hrange.1, hps⟩, ⟨hrange.2, hcs⟩, r, hr, hm⟩ hgo
              · rfl
    · rintro ⟨hps, hlive, _, _, r, hmem, rfl, hm⟩
      obtain ⟨hc, hcs, _⟩ := live_guards hlive
      exact hgo ⟨⟨h.ranges r hmem, hps⟩, ⟨hc, hcs⟩, r, findRow_mem h.oneRow hmem, hm⟩

theorem containsPair_drop {r : MappingRow Int} (h : SoundContains s.contains) (hr : findRow p s.contains = some r)
    (a b : Int) : ContainsPair { s with contains := dropChild p c r s.contains } a b ↔
      ContainsPair s a b ∧ ¬ (a = p ∧ b = c) := by
  obtain ⟨hsound, hpairs⟩ := dropChild_rows h hr c
  rw [SoundRows.containsPair (s := { s with contains := dropChild p c r s.contains }) hsound.toSoundRows, hpairs,
    SoundRows.containsPair h.toSoundRows]
  simp

theorem lowest_drop {r : MappingRow Int} (h : SoundContains s.contains) (hr : findRow p s.contains = some r)
    (hc : 0 < c) : lowestParent c (dropChild p c r s.contains) = 0 ↔ ∀ q, ContainsPair s q c → q = p := by
  rw [lowestParent_zero (s := { s with contains := dropChild p c r s.contains }) (dropChild_rows h hr c).1 hc]
  refine forall_congr' fun q => ?_
  rw [containsPair_drop h hr]
  constructor
  · intro hnot hq
    by_contra hne
    exact hnot ⟨hq, fun he => hne he.1⟩
  · rintro hall ⟨hq, hne⟩
    exact hne ⟨hall hq, rfl⟩

theorem deleteContains_placed (h : SoundTables s) (hp : AllPlaced s) (p c : Int) :
    AllPlaced (deletePhysicalContainsTableEntry p c s).1 ↔ KeepsPlacement (.deleteContains p c) s := by
  have hsame := deletePhysicalContainsTableEntry_same p c s
  rcases deleteContains_effect h.contains p c with ⟨r, hr, hst, hpair, he⟩ | ⟨he, hnot⟩
  · rw [he] at hsame ⊢
    have hrec := recorded_congr (s := s) (t := { s with contains := dropChild p c r s.contains }) rfl c
    have hlow := lowest_drop h.contains hr hpair.2.1
    have hp0 := hpair.1
    constructor
    · intro hplaced _ hlast
      have hzero := recorded_reset (hrec.trans hlast.1)
      have hlowest : lowestParent c (dropChild p c r s.contains) = 0 := hlow.mpr hlast.2.2
      dsimp only at hzero
      rw [hlowest] at hzero
      have hc0 := hpair.2.1
      have hsign := PlacedBut.sign hp hsame (hplaced.but 0) (le_refl 0) (by omega) hlast.1 hzero
      omega
    · intro hkeep
      rw [← placedBut_zero]
      apply PlacedBut.reset (s := { s with contains := dropChild p c r s.contains }) (hp.but 0) (le_refl 0) (by omega)
      refine .inr fun ⟨hr', h0⟩ => hkeep hst ⟨hrec.symm.trans hr', hpair, hlow.mp h0⟩
  · rw [he]
    refine iff_of_true hp fun hst hlast => hnot ⟨hst, ?_, hlast.2.1⟩
    obtain ⟨n, hn, _⟩ := Option.map_eq_some_iff.mp hlast.1
    exact Option.isSome_of_eq_some hn

def LosesAll (s : State) (c : Int) : Prop :=
  (∃ p, recorded s c = some p ∧ ContainsPair s p c) ∧ ∀ q, ContainsPair s q c → getPhysicalTableStaleEntry q s = none

theorem keepsPlacement_child : KeepsPlacement (.deleteContainsChild c) s ↔ ¬ LosesAll s c := by
  constructor
  · rintro hkeep ⟨⟨p, hr, hpair⟩, hall⟩
    obtain ⟨q, hq, hst⟩ := hkeep p hr hpair
    rw [hall q hq] at hst
    cases hst
  · intro hnot p hr hpair
    by_contra hno
    refine hnot ⟨⟨p, hr, hpair⟩, fun q hq => ?_⟩
    by_contra hst
    exact hno ⟨q, hq, Option.isSome_iff_ne_none.mpr hst⟩

theorem keeps_step (h : SoundTables s) (hp : AllPlaced s) (hnot : ¬ LosesAll s c) (p : Int) :
    AllPlaced (deletePhysicalContainsTableEntry p c s).1 ∧ ¬ LosesAll (deletePhysicalContainsTableEntry p c s).1 c := by
  have hsame := deletePhysicalContainsTableEntry_same p c s
  refine ⟨(deleteContains_placed h hp p c).mpr fun hst hlast => hnot ⟨⟨p, hlast.1, hlast.2.1⟩, fun q hq => ?_⟩, ?_⟩
  · rw [hlast.2.2 q hq]
    exact hst
  · rcases deleteContains_effect h.contains p c with ⟨r, hr, hst, hpair, he⟩ | ⟨he, _⟩
    · have hrec := recorded_congr (s := s) (t := { s with contains := dropChild p c r s.contains }) rfl c
      rintro ⟨⟨v, hv, hvc⟩, hall⟩
      have hpairs (q : Int) : ContainsPair (deletePhysicalContainsTableEntry p c s).1 q c ↔
          ContainsPair s q c ∧ ¬ (q = p ∧ c = c) := by
        rw [← containsPair_drop h.contains hr, he]
        simp only [ContainsPair, (resetContainedIn_tables p _ c).1]
      -- the pair in question was there before, whether or not it was the one recorded then
      have hbefore : ∃ q, recorded s c = some q ∧ ContainsPair s q c := by
        by_cases hrp : recorded s c = some p
        · exact ⟨p, hrp, hpair⟩
        · rw [he, reset_of_ne (by rwa [hrec]), hrec] at hv
          exact ⟨v, hv, ((hpairs v).mp hvc).1⟩
      refine hnot ⟨hbefore, fun q hq => ?_⟩
      by_cases hqp : q = p
      · rw [hqp]
        exact hst
      · exact (hsame.stale q).mp (hall q ((hpairs q).mpr ⟨hq, fun h => hqp h.1⟩))
    · rw [he]
      exact hnot

theorem tied_step (h : SoundTables s) (htied : (∃ q, recorded s c = some q ∧ ContainsPair s q c) ∨ recorded s c = some 0)
    (p : Int) : (∃ q, recorded (deletePhysicalContainsTableEntry p c s).1 c = some q ∧
        ContainsPair (deletePhysicalContainsTableEntry p c s).1 q c) ∨
      recorded (deletePhysicalContainsTableEntry p c s).1 c = some 0 := by
  rcases deleteContains_effect h.contains p c with ⟨r, hr, _, hpair, he⟩ | ⟨he, _⟩
  · have hrec := recorded_congr (s := s) (t := { s with contains := dropChild p c r s.contains }) rfl c
    have hrows := (resetContainedIn_tables p { s with contains := dropChild p c r s.contains } c).1
    have hpairs (q : Int) : ContainsPair (resetContainedIn p { s with contains := dropChild p c r s.contains } c) q c ↔
        ContainsPair { s with contains := dropChild p c r s.contains } q c := by
      simp only [ContainsPair, hrows]
    rw [he]
    by_cases hrp : recorded s c = some p
    · rw [recorded_reset (hrec.trans hrp)]
      rcases lowestParent_least (s := { s with contains := dropChild p c r s.contains })
        (dropChild_rows h.contains hr c).1 hpair.2.1 with ⟨hleast, _⟩ | ⟨_, h0⟩
      · exact .inl ⟨_, rfl, (hpairs _).mpr hleast⟩
      · exact .inr (congrArg some h0)
    · rw [reset_of_ne (by rwa [hrec]), hrec]
      refine htied.imp_left ?_
      rintro ⟨q, hq, hqc⟩
      refine ⟨q, hq, (containsPair_drop h.contains hr q c).mpr ⟨hqc, ?_⟩⟩
      rintro ⟨rfl, _⟩
      exact hrp hq
  · rw [he]
    exact htied

theorem deleteContainsChild_placed (h : SoundTables s) (hp : AllPlaced s) (c : Int) :
    AllPlaced (deletePhysicalContainsChildIndex c s).1 ↔ KeepsPlacement (.deleteContainsChild c) s := by
  rw [keepsPlacement_child]
  constructor
  · rintro hplaced ⟨⟨p, hrec, hpair⟩, hall⟩
    have hfinal := deletePhysicalContainsChildIndex_induction (c := c) (s := s)
      (P := fun t => SoundTables t ∧ ((∃ q, recorded t c = some q ∧ ContainsPair t q c) ∨ recorded t c = some 0))
      (fun q t ht => ⟨sound_deleteContains ht.1 q c, tied_step ht.1 ht.2 q⟩) ⟨h, .inl ⟨p, hrec, hpair⟩⟩
    obtain ⟨n, hn, _⟩ := Option.map_eq_some_iff.mp hrec
    obtain ⟨hcr, hcs, _⟩ := live_guards (Option.isSome_of_eq_some hn)
    have hremovable : Removable s c := by
      refine ⟨h.contains.oneRow, ⟨hcr, hcs⟩, fun q hq => ⟨?_, hall q hq⟩⟩
      obtain ⟨_, _, r, hr, rfl, _⟩ := hq
      exact h.contains.ranges r hr
    have hzero := hfinal.2.resolve_left fun ⟨q, _, hq⟩ => deleteContainsChild_removes hremovable q hq
    have hc0 := inRange_pos hcr
    have hp0 := hpair.1
    have hsign := PlacedBut.sign hp (deletePhysicalContainsChildIndex_same c s) (hplaced.but 0) (le_refl 0) (by omega)
      hrec hzero
    omega
  · intro hnot
    have hfinal := deletePhysicalContainsChildIndex_induction (c := c) (s := s)
      (P := fun t => SoundTables t ∧ AllPlaced t ∧ ¬ LosesAll t c)
      (fun q t ht => ⟨sound_deleteContains ht.1 q c, keeps_step ht.1 ht.2.1 ht.2.2 q⟩) ⟨h, hp, hnot⟩
    exact hfinal.2.1

theorem mem_children_sound (h : SoundContains s.contains) (mem : Bool) : c ∈ getPhysicalContainsChildren p mem s ↔
    (getPhysicalTableEntry p s).isSome ∧ mem = true ∧ ContainsPair s p c := by
  unfold getPhysicalContainsChildren
  by_cases hlive : (getPhysicalTableEntry p s).isSome
  · rw [if_neg (by rw [(live_guards hlive).2.2]; exact Bool.false_ne_true)]
    have hp := inRange_pos (live_guards hlive).1
    cases hr : findRow p s.contains with
    | none =>
        refine iff_of_false List.not_mem_nil fun hc => ?_
        obtain ⟨_, _, _, _, r, hmem, hrp, _⟩ := hc
        exact findRow_none hr r hmem hrp
    | some r =>
        obtain ⟨hmem, hrp⟩ := findRow_some hr
        cases mem with
        | false => simp
        | true =>
            simp only [if_true, List.mem_filter, decide_eq_true_eq]
            constructor
            · exact fun ⟨hm, h0⟩ => ⟨hlive, trivial, hp, h0, r, hmem, hrp, hm⟩
            · rintro ⟨_, _, _, h0, q, hq, hqp, hm⟩
              rw [h.oneRow.unique hmem hq (hrp.trans hqp.symm)]
              exact ⟨hm, h0⟩
  · have hnone : (getPhysicalTableEntry p s).isNone = true := by simpa using hlive
    rw [if_pos hnone]
    exact iff_of_false List.not_mem_nil fun hc => hlive hc.1

theorem lowest_remove (h : SoundContains s.contains) (hc : 0 < c) :
    lowestParent c (removeRow p s.contains) = 0 ↔ ∀ q, ContainsPair s q c → q = p := by
  have hsound := removeRow_sound (p := p) h
  rw [lowestParent_zero (s := { s with contains := removeRow p s.contains }) hsound hc]
  refine forall_congr' fun q => ?_
  rw [SoundRows.containsPair (s := { s with contains := removeRow p s.contains }) hsound.toSoundRows,
    pairs_removeRow h.oneRow, SoundRows.containsPair (s := s) h.toSoundRows]
  constructor
  · intro hnot hq
    by_contra hne
    exact hnot ⟨hq, hne⟩
  · rintro hall ⟨hq, hne⟩
    exact hne (hall hq)

theorem deleteContainsParent_placed (h : SoundTables s) (hp : AllPlaced s) (hx : 0 ≤ x) (p : Int) (mem : Bool) :
    PlacedBut x (deletePhysicalContainsParentIndex p mem s).1 ↔
      ((getPhysicalTableEntry p s).isSome → mem = true → ∀ c, c ≠ x → ¬ LastParent s p c) := by
  by_cases hgo : (getPhysicalTableEntry p s).isSome ∧ mem = true
  · obtain ⟨hlive, rfl⟩ := hgo
    obtain ⟨hpr, hps, _⟩ := live_guards hlive
    have hp0 := inRange_pos hpr
    have hsame := deletePhysicalContainsParentIndex_same p true s
    cases hr : findRow p s.contains with
    | none =>
        have he : (deletePhysicalContainsParentIndex p true s).1 = s := by
          simp [deletePhysicalContainsParentIndex, hpr, hps, hr]
        rw [he]
        refine iff_of_true (hp.but x) fun _ _ c _ hlast => ?_
        obtain ⟨_, ⟨_, _, r, hmem, hrp, _⟩, _⟩ := hlast
        exact findRow_none hr r hmem hrp
    | some r =>
        have he : (deletePhysicalContainsParentIndex p true s).1 = (getPhysicalContainsChildren p true s).foldl
            (resetContainedIn p) { s with contains := removeRow p s.contains } := by
          simp [deletePhysicalContainsParentIndex, hpr, hps, hr]
        rw [he] at hsame ⊢
        have hrec := recorded_congr (s := s) (t := { s with contains := removeRow p s.contains }) rfl
        constructor
        · intro hplaced _ _ c hcx hlast
          have hmem := (mem_children_sound h.contains true).mpr ⟨hlive, rfl, hlast.2.1⟩
          have hc0 := hlast.2.1.2.1
          have hzero := recorded_foldl_reset (s := { s with contains := removeRow p s.contains }) _ (by omega)
            (.inl ⟨(hrec c).trans hlast.1, hmem, (lowest_remove h.contains hc0).mpr hlast.2.2⟩)
          have hsign := PlacedBut.sign hp hsame hplaced hx hcx hlast.1 hzero
          omega
        · intro hkeep
          apply PlacedBut.foldl_reset (s := { s with contains := removeRow p s.contains }) _ (hp.but x) hx (by omega)
          intro c hc
          obtain ⟨_, _, hpair⟩ := (mem_children_sound h.contains _).mp hc
          by_cases hcx : c = x
          · exact .inl hcx
          · refine .inr fun hlast => hkeep hlive rfl c hcx ⟨(hrec c).symm.trans hlast.1, hpair, ?_⟩
            exact (lowest_remove h.contains hpair.2.1).mp hlast.2
  · have hnil : getPhysicalContainsChildren p mem s = [] := by
      refine List.eq_nil_iff_forall_not_mem.mpr fun c hc => hgo ?_
      obtain ⟨hlive, hmem, _⟩ := (mem_children_sound h.contains _).mp hc
      exact ⟨hlive, hmem⟩
    refine iff_of_true ?_ fun hlive hmem => absurd ⟨hlive, hmem⟩ hgo
    rcases deletePhysicalContainsParentIndex_cases (p := p) (s := s) mem with he | he
    · rw [he]
      exact hp.but x
    · rw [he, hnil]
      exact (hp.but x).congr rfl

theorem unlink_deleteContainsChild (x : Int) (s : State) :
    unlink x (deletePhysicalContainsChildIndex x s).1.physical.head = unlink x s.physical.head := by
  refine deletePhysicalContainsChildIndex_induction
    (P := fun t => unlink x t.physical.head = unlink x s.physical.head) (fun p t ht => ?_) rfl
  rcases deletePhysicalContainsTableEntry_cases (p := p) (c := x) (s := t) with he | ⟨r, _, he⟩ <;> rw [he]
  · exact ht
  · rcases resetContainedIn_cases (p := p) (c := x) (s := { t with contains := dropChild p x r t.contains }) with
      hr | hr <;> rw [hr]
    · exact ht
    · exact ((unlink_assign x x _ t.physical.head).trans (if_pos rfl)).trans ht

theorem lastParent_congr (hp : t.physical = s.physical) (hc : t.contains = s.contains) (p c : Int) :
    LastParent t p c ↔ LastParent s p c := by
  unfold LastParent ContainsPair
  rw [recorded_congr hp, hc]

theorem purge_placed (h : SoundTables s) (hp : AllPlaced s) (hx : 0 < x) (mem : Bool) :
    PlacedBut x (purgePhysical x mem s) ↔
      ((getPhysicalTableEntry x s).isSome → mem = true → ∀ c, c ≠ x → ¬ LastParent s x c) := by
  obtain ⟨hphys, hcont⟩ := purge_elsewhere x s
  have hsound := sound_deleteLPPhysical (sound_deleteAliasPhysical h x) x
  have hbut : PlacedBut x (purgePhysical x mem s) ↔ PlacedBut x (deletePhysicalContainsParentIndex x mem
      (deleteLPMappingPhysicalIndex x (deleteAliasMappingPhysicalIndex x s).1).1).1 := by
    unfold PlacedBut purgePhysical
    rw [unlink_deleteContainsChild]
  have hplaced : AllPlaced (deleteLPMappingPhysicalIndex x (deleteAliasMappingPhysicalIndex x s).1).1 :=
    placedBut_zero.mp ((hp.but 0).congr hphys)
  have hget : getPhysicalTableEntry x (deleteLPMappingPhysicalIndex x (deleteAliasMappingPhysicalIndex x s).1).1 =
      getPhysicalTableEntry x s := by
    unfold getPhysicalTableEntry
    rw [hphys]
  rw [hbut, deleteContainsParent_placed hsound hplaced hx.le, hget]
  simp only [lastParent_congr hphys hcont]

end OiUserland.EntityMib.PlacementCalls
