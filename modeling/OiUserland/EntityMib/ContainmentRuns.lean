import OiUserland.EntityMib.Containment
import OiUserland.EntityMib.MappingRows

namespace OiUserland.EntityMib.ContainmentRuns

open Relation
open Lib.Runs Lib.Cycles EntityTable Entities MibState PhysicalContainsTable LPMappingTable AliasMappingTable
open PhysicalTable LogicalTable ListInvariant MappingRows Frames Module EntrySteps Containment

variable {E : Type} {l : List (Node E)} {t t' : Table E} {new z : Node E}
variable {s s' : State} {o : Op} {x p c q i j : Int}

def firstGap : List (Node E) → Int
  | [] => 1
  | [z] => nextIndex z
  | z :: y :: zs =>
      if toInt (absInt y.index - absInt z.index) > 1 then nextIndex z else firstGap (y :: zs)

def assigned (new : Node E) (t : Table E) : Option Int :=
  if 0 < new.index ∧ (place new t.head).isSome then some new.index
  else if t.size > largeTable then (t.tail.bind (fun a => t.head.find? (fun z => z.addr = a))).map nextIndex
  else some (firstGap t.head)

/-- The call closes no cycle. An entry that becomes live must not lie on one
with what is recorded about its index; a pair whose child contains the parent
must be found out by the search. -/
def ClosesNoCycle (o : Op) (s : State) : Prop :=
  match o with
  | .allocPhysical i new mem => ∀ e a, physicalDefaults new = some e → rejectPhysical i e s.physical = none →
      mem = some a → ∀ j, assigned ⟨a, i, e⟩ s.physical = some j →
      ¬ TransGen (ContainsWith s j e.entPhysicalContainedIn) j j
  | .livePhysical x => ∀ n, inRange x → find x s.physical.head = .stale n →
      ¬ TransGen (ContainsWith s x n.entry.entPhysicalContainedIn) x x
  | .addContains p c mem => rejectContains p c s = none → ReflTransGen (Contains s) c p →
      Descends s mem.lists p [] c
  | _ => True

def Fewer (s s' : State) : Prop := ∀ p c, Contains s' p c → Contains s p c

theorem Fewer.refl (s : State) : Fewer s s := fun _ _ h => h

theorem Fewer.trans {s'' : State} (h : Fewer s s') (h' : Fewer s' s'') : Fewer s s'' := fun p c hc =>
  h p c (h' p c hc)

theorem fewer_of_eq (hp : s'.physical = s.physical) (hc : s'.contains = s.contains) : Fewer s s' := by
  intro p c h
  simpa only [Contains, LivePhysical, RecordedIn, ContainsPair, hp, hc] using h

theorem contains_of_same (hs : SameEntries s s')
    (hrec : ∀ a b, RecordedIn s' a b → LivePhysical s a → LivePhysical s b →
      RecordedIn s a b ∨ ContainsPair s a b ∨ (a = p ∧ b = c))
    (hpair : ∀ a b, ContainsPair s' a b → ContainsPair s a b ∨ (a = p ∧ b = c)) (a b : Int)
    (h : Contains s' a b) : Contains s a b ∨ (a = p ∧ b = c) := by
  obtain ⟨ha, hb, hlink⟩ := h
  have ha' := hs.symm.livePhysical ha
  have hb' := hs.symm.livePhysical hb
  rcases hlink with hlink | hlink
  · rcases hrec a b hlink ha' hb' with h | h | h
    · exact .inl ⟨ha', hb', .inl h⟩
    · exact .inl ⟨ha', hb', .inr h⟩
    · exact .inr h
  · exact (hpair a b hlink).imp_left fun h => ⟨ha', hb', .inr h⟩

theorem mem_assign {f : E → E} (h : z ∈ assign x f l) :
    z ∈ l ∨ ∃ y ∈ l, y.index = x ∧ z = { y with entry := f y.entry } := by
  induction l with
  | nil => simp [assign] at h
  | cons y ys ih =>
      unfold assign at h
      split at h
      · rename_i hy
        rcases List.mem_cons.mp h with rfl | h
        · exact .inr ⟨y, by simp, hy, rfl⟩
        · exact .inl (by simp [h])
      · rcases List.mem_cons.mp h with rfl | h
        · exact .inl (by simp)
        · rcases ih h with h | ⟨w, hw, hwx⟩
          · exact .inl (by simp [h])
          · exact .inr ⟨w, by simp [hw], hwx⟩

theorem recordedIn_set (h : RecordedIn (setContainedIn x q s) p c) : RecordedIn s p c ∨ (p = q ∧ c = x) := by
  obtain ⟨n, hn, hnc, hnp⟩ := h
  rcases mem_assign hn with hn | ⟨y, -, hyx, rfl⟩
  · exact .inl ⟨n, hn, hnc, hnp⟩
  · exact .inr ⟨hnp.symm, hnc.symm.trans hyx⟩

theorem lowestParent_mem (c : Int) (rows : List (MappingRow Int)) :
    lowestParent c rows = 0 ∨ ∃ r ∈ rows, r.index = lowestParent c rows ∧ c ∈ elements r := by
  let lower (lowest : Int) (r : MappingRow Int) : Int :=
    if c ∈ elements r then (if lowest = 0 then r.index else if lowest > r.index then r.index else lowest)
    else lowest
  have hfold (rows : List (MappingRow Int)) (lowest : Int) : rows.foldl lower lowest = lowest ∨
      ∃ r ∈ rows, r.index = rows.foldl lower lowest ∧ c ∈ elements r := by
    induction rows generalizing lowest with
    | nil => exact .inl rfl
    | cons r rs ih =>
        rcases ih (lower lowest r) with h | ⟨q, hq, hqx⟩
        · rw [List.foldl_cons, h]
          by_cases hc : c ∈ elements r
          · by_cases hl : lower lowest r = lowest
            · exact .inl hl
            · refine .inr ⟨r, by simp, ?_, hc⟩
              simp only [lower, if_pos hc] at hl ⊢
              split at hl
              · simp [*]
              · split at hl
                · simp [*]
                · exact absurd rfl hl
          · exact .inl (if_neg hc)
        · exact .inr ⟨q, by simp [hq], hqx⟩
  exact hfold rows 0

theorem fewer_reset (p : Int) (s : State) (c : Int) : Fewer s (resetContainedIn p s c) := by
  rcases resetContainedIn_cases (p := p) (c := c) (s := s) with h | h <;> rw [h]
  · exact .refl s
  · intro a b hab
    obtain ⟨ha, hb, hlink⟩ := hab
    have hs := (setContainedIn_same c (lowestParent c s.contains) s).symm
    have ha' := hs.livePhysical ha
    have hb' := hs.livePhysical hb
    refine ⟨ha', hb', ?_⟩
    rcases hlink with hlink | hlink
    · rcases recordedIn_set hlink with hlink | ⟨rfl, rfl⟩
      · exact .inl hlink
      · -- the lowest parent left is one that a pair names
        rcases lowestParent_mem b s.contains with h0 | ⟨r, hr, hrx, hm⟩
        · have := ha'.1
          omega
        · exact .inr ⟨ha'.1, hb'.1, r, hr, hrx, hm⟩
    · exact .inr hlink

theorem fewer_foldl_reset (p : Int) (cs : List Int) (s : State) : Fewer s (cs.foldl (resetContainedIn p) s) := by
  induction cs generalizing s with
  | nil => exact .refl s
  | cons c cs ih => exact (fewer_reset p s c).trans (ih _)

theorem fewer_rows {rows : List (MappingRow Int)}
    (h : ∀ p c, ContainsPair { s with contains := rows } p c → ContainsPair s p c) :
    Fewer s { s with contains := rows } := fun p c hc => ⟨hc.1, hc.2.1, hc.2.2.imp_right (h p c)⟩

theorem fewer_deleteContainsParent (p : Int) (mem : Bool) (s : State) :
    Fewer s (deletePhysicalContainsParentIndex p mem s).1 := by
  rcases deletePhysicalContainsParentIndex_cases (p := p) (s := s) mem with h | h <;> rw [h]
  · exact .refl s
  · refine (fewer_rows fun a b hp => ?_).trans (fewer_foldl_reset p _ _)
    obtain ⟨ha, hb, r, hr, hm⟩ := hp
    exact ⟨ha, hb, r, List.mem_of_mem_eraseP hr, hm⟩

theorem fewer_deleteContains (p c : Int) (s : State) : Fewer s (deletePhysicalContainsTableEntry p c s).1 := by
  rcases deletePhysicalContainsTableEntry_cases (p := p) (c := c) (s := s) with h | ⟨r, hr, h⟩ <;> rw [h]
  · exact .refl s
  · refine (fewer_rows fun a b hp => ?_).trans (fewer_reset p _ c)
    exact containsPair_dropChild hr hp

theorem fewer_deleteContainsChild (c : Int) (s : State) : Fewer s (deletePhysicalContainsChildIndex c s).1 :=
  deletePhysicalContainsChildIndex_induction (fun p t h => h.trans (fewer_deleteContains p c t)) (.refl s)

theorem fewer_purge (x : Int) (mem : Bool) (s : State) : Fewer s (purgePhysical x mem s) := by
  have h1 : Fewer s (deleteAliasMappingPhysicalIndex x s).1 := by
    rcases deleteAliasMappingPhysicalIndex_cases (p := x) (s := s) with h | h <;> rw [h]
    · exact .refl s
    · exact fewer_of_eq rfl rfl
  have h2 (u : State) : Fewer u (deleteLPMappingPhysicalIndex x u).1 := by
    rcases deleteLPMappingPhysicalIndex_cases (p := x) (s := u) with h | ⟨-, h⟩ <;> rw [h]
    · exact .refl u
    · exact fewer_of_eq rfl rfl
  exact ((h1.trans (h2 _)).trans (fewer_deleteContainsParent x mem _)).trans (fewer_deleteContainsChild x _)

theorem fewer_unlink (x : Int) (s : State) : Fewer s (unlinkPhysical x s) := by
  have hsub := (unlink_sublist x s.physical.head).subset
  have hlive (a : Int) (h : LivePhysical (unlinkPhysical x s) a) : LivePhysical s a := by
    obtain ⟨h0, n, hn, ha⟩ := h
    exact ⟨h0, n, hsub hn, ha⟩
  rintro a b ⟨ha, hb, hlink⟩
  refine ⟨hlive a ha, hlive b hb, hlink.imp_left fun h => ?_⟩
  obtain ⟨n, hn, h⟩ := h
  exact ⟨n, hsub hn, h⟩

theorem mem_retag_found {m : Node E} (hf : find x l = .live m ∨ find x l = .stale m) (h : z ∈ retag x i l) :
    z ∈ l ∨ z = { m with index := i } := by
  induction l with
  | nil => simp [retag] at h
  | cons y ys ih =>
      unfold retag at h
      split at h
      · rename_i hy
        rcases List.mem_cons.mp h with rfl | h
        · have hm : y = m := by
            unfold find at hf
            split at hf
            · simpa using hf
            · rename_i hx
              rw [if_pos (hy.resolve_left hx)] at hf
              simpa using hf
          exact .inr (by rw [hm])
        · exact .inl (by simp [h])
      · rename_i hy
        rcases List.mem_cons.mp h with rfl | h
        · exact .inl (by simp)
        · rw [not_or] at hy
          rw [find, if_neg hy.1, if_neg hy.2] at hf
          exact (ih hf h).imp_left (List.mem_cons_of_mem y)

theorem mem_retag_index (h : z ∈ retag x i l) : z ∈ l ∨ z.index = i := by
  induction l with
  | nil => simp [retag] at h
  | cons y ys ih =>
      unfold retag at h
      split at h
      · rcases List.mem_cons.mp h with rfl | h
        · exact .inr rfl
        · exact .inl (by simp [h])
      · rcases List.mem_cons.mp h with rfl | h
        · exact .inl (by simp)
        · exact (ih h).imp_left (List.mem_cons_of_mem y)

theorem fewer_stale (hx : 0 < x) (s : State) : Fewer s (retagPhysical x (-x) s) := by
  have hmem (n : Node PhysicalEntry) (hn : n ∈ (retagPhysical x (-x) s).physical.head) (h0 : 0 < n.index) :
      n ∈ s.physical.head := (mem_retag_index hn).resolve_right (by omega)
  have hlive (a : Int) (h : LivePhysical (retagPhysical x (-x) s) a) : LivePhysical s a := by
    obtain ⟨h0, n, hn, rfl⟩ := h
    exact ⟨h0, n, hmem n hn h0, rfl⟩
  rintro a b ⟨ha, hb, hlink⟩
  refine ⟨hlive a ha, hlive b hb, hlink.imp_left fun h => ?_⟩
  obtain ⟨n, hn, rfl, h⟩ := h
  exact ⟨n, hmem n hn hb.1, rfl, h⟩

theorem fewer_purgeLogical (x : Int) (s : State) : Fewer s (purgeLogical x s) := by
  have h1 : Fewer s (deleteAliasMappingLogicalIndex x s).1 := by
    rcases deleteAliasMappingLogicalIndex_cases (l := x) (s := s) with h | h <;> rw [h]
    · exact .refl s
    · exact fewer_of_eq rfl rfl
  have h2 (u : State) : Fewer u (deleteLPMappingLogicalIndex x u).1 := by
    rcases deleteLPMappingLogicalIndex_cases (l := x) (s := u) with h | h <;> rw [h]
    · exact .refl u
    · exact fewer_of_eq rfl rfl
  exact h1.trans (h2 _)

theorem contains_of_new {m : Node PhysicalEntry} (hc : s'.contains = s.contains)
    (hmem : ∀ z ∈ s'.physical.head, z ∈ s.physical.head ∨ z = { m with index := j }) (a b : Int)
    (h : Contains s' a b) : ContainsWith s j m.entry.entPhysicalContainedIn a b := by
  have hlive (y : Int) (hy : LivePhysical s' y) : LivePhysical s y ∨ y = j := by
    obtain ⟨h0, n, hn, rfl⟩ := hy
    rcases hmem n hn with hn | rfl
    · exact .inl ⟨h0, n, hn, rfl⟩
    · exact .inr rfl
  obtain ⟨ha, hb, hlink⟩ := h
  refine ⟨hlive a ha, hlive b hb, ?_⟩
  rcases hlink with ⟨n, hn, hnb, hna⟩ | hp
  · rcases hmem n hn with hn | rfl
    · exact .inl ⟨n, hn, hnb, hna⟩
    · exact .inr (.inl ⟨hnb.symm, hna.symm⟩)
  · exact .inr (.inr (by simpa only [ContainsPair, hc] using hp))

theorem acyclic_of_new {m : Node PhysicalEntry} (h : Acyclic (Contains s)) (hc : s'.contains = s.contains)
    (hmem : ∀ z ∈ s'.physical.head, z ∈ s.physical.head ∨ z = { m with index := j })
    (hj : ¬ TransGen (ContainsWith s j m.entry.entPhysicalContainedIn) j j) : Acyclic (Contains s') := by
  refine h.vertex (fun a b hab ha hb => ?_) fun hcyc => hj (TransGen.mono (contains_of_new hc hmem) _ _ hcyc)
  obtain ⟨hla, hlb, hlink⟩ := contains_of_new hc hmem a b hab
  refine ⟨hla.resolve_right ha, hlb.resolve_right hb, ?_⟩
  rcases hlink with hlink | ⟨rfl, -⟩ | hlink
  · exact .inl hlink
  · exact absurd rfl hb
  · exact .inr hlink

theorem mem_place {r : List (Node E) × Bool} (h : place new l = some r) (hz : z ∈ r.1) : z ∈ l ∨ z = new := by
  induction l generalizing r with
  | nil =>
      obtain rfl := Option.some.inj h
      exact .inr (by simpa using hz)
  | cons y ys ih =>
      unfold place at h
      split at h
      · obtain ⟨r', hr, rfl⟩ := Option.map_eq_some_iff.mp h
        rcases List.mem_cons.mp hz with rfl | hz
        · exact .inl (by simp)
        · exact (ih hr hz).imp_left (List.mem_cons_of_mem y)
      · split at h
        · cases h
        · obtain rfl := Option.some.inj h
          exact (List.mem_cons.mp hz).symm

theorem fillGap_index (new : Node E) (l : List (Node E)) : (fillGap new l).2.1 = firstGap l := by
  induction l with
  | nil => rfl
  | cons y ys ih =>
      cases ys with
      | nil => simp only [fillGap, firstGap]
      | cons w ws =>
          by_cases hgap : toInt (absInt w.index - absInt y.index) > 1
          · rw [fillGap, firstGap, if_pos hgap, if_pos hgap]
          · rw [fillGap, firstGap, if_neg hgap, if_neg hgap]
            exact ih

theorem mem_fillGap (hz : z ∈ (fillGap new l).1) : z ∈ l ∨ z = { new with index := (fillGap new l).2.1 } := by
  induction l with
  | nil => exact .inr (by simpa [fillGap] using hz)
  | cons y ys ih =>
      cases ys with
      | nil => simpa [fillGap] using hz
      | cons w ws =>
          by_cases hgap : toInt (absInt w.index - absInt y.index) > 1
          · rw [fillGap, if_pos hgap] at hz ⊢
            rcases List.mem_cons.mp hz with rfl | hz
            · exact .inl (by simp)
            · rcases List.mem_cons.mp hz with rfl | hz
              · exact .inr (by dsimp only)
              · exact .inl (List.mem_cons_of_mem y hz)
          · rw [fillGap, if_neg hgap] at hz ⊢
            rcases List.mem_cons.mp hz with rfl | hz
            · exact .inl (by simp)
            · exact (ih hz).imp_left (List.mem_cons_of_mem y)

theorem linkAfter_some {a : Nat} {r : List (Node E) × Int × List Nat} (h : linkAfter a new l = some r) :
    (l.find? (fun z => z.addr = a)).map nextIndex = some r.2.1 ∧
      ∀ z ∈ r.1, z ∈ l ∨ z = { new with index := r.2.1 } := by
  induction l generalizing r with
  | nil => cases h
  | cons y ys ih =>
      unfold linkAfter at h
      split at h
      · rename_i hy
        obtain rfl := Option.some.inj h
        refine ⟨by simp [hy], fun z hz => ?_⟩
        simp only [List.mem_cons, List.not_mem_nil, or_false] at hz ⊢
        tauto
      · rename_i hy
        obtain ⟨r', hr, rfl⟩ := Option.map_eq_some_iff.mp h
        obtain ⟨hidx, hmem⟩ := ih hr
        refine ⟨by simpa [hy] using hidx, fun z hz => ?_⟩
        rcases List.mem_cons.mp hz with rfl | hz
        · exact .inl (by simp)
        · exact (hmem z hz).imp_left (List.mem_cons_of_mem y)

theorem addToTable_some (h : addToTable new t = some (t', j)) :
    assigned new t = some j ∧ ∀ z ∈ t'.head, z ∈ t.head ∨ z = { new with index := j } := by
  unfold addToTable at h
  split at h
  · rename_i chain last hp
    split at hp
    · rename_i hpos
      obtain ⟨rfl, rfl⟩ := Prod.mk.inj (Option.some.inj h)
      exact ⟨if_pos ⟨hpos, by simp [hp]⟩, fun z hz => mem_place hp hz⟩
    · cases hp
  · rename_i hp
    have htaken : ¬ (0 < new.index ∧ (place new t.head).isSome) := by
      rintro ⟨h0, hs⟩
      rw [if_pos h0] at hp
      simp [hp] at hs
    rw [assigned, if_neg htaken]
    split at h
    · rename_i hlarge
      rw [if_pos hlarge]
      obtain ⟨r, hr, heq⟩ := Option.map_eq_some_iff.mp h
      obtain ⟨a, ha, hlink⟩ := Option.bind_eq_some_iff.mp hr
      obtain ⟨rfl, rfl⟩ := Prod.mk.inj heq
      obtain ⟨hidx, hmem⟩ := linkAfter_some hlink
      exact ⟨by simpa [ha] using hidx, hmem⟩
    · rename_i hsmall
      rw [if_neg hsmall]
      obtain ⟨rfl, rfl⟩ := Prod.mk.inj (Option.some.inj h)
      exact ⟨by rw [fillGap_index], fun z hz => mem_fillGap hz⟩

theorem contains_linkChild (mem : AddMemory) (a b : Int) (h : Contains (linkChild p c mem s).1 a b) :
    Contains s a b ∨ (a = p ∧ b = c) := by
  rcases linkChild_cases (p := p) (c := c) (s := s) mem with he | ⟨-, he⟩ | ⟨rows, hrows, he⟩ <;> rw [he] at h
  · exact .inl h
  · refine .inl (fewer_rows (fun a b hp => ?_) a b h)
    obtain ⟨ha, hb, r, hr, hra, hm⟩ := hp
    rcases mem_setValues hr with hr | ⟨-, hv⟩
    · exact ⟨ha, hb, r, hr, hra, hm⟩
    · simp [elements, hv] at hm
  · have hpair (a b : Int) (hp : ContainsPair { s with contains := rows } a b) :
        ContainsPair s a b ∨ (a = p ∧ b = c) := by
      obtain ⟨ha, hb, r, hr, rfl, hm⟩ := hp
      rcases hrows with ⟨q, vs, hq, hvs, rfl⟩ | ⟨-, rfl⟩
      · rcases mem_setValues hr with hr | ⟨hrp, hv⟩
        · exact .inl ⟨ha, hb, r, hr, rfl, hm⟩
        · rw [elements, hv] at hm
          obtain ⟨hmem, hqp⟩ := findRow_some hq
          exact (hvs b hm).imp (fun hm => ⟨ha, hb, q, hmem, hqp.trans hrp.symm, hm⟩) fun hbc => ⟨hrp, hbc⟩
      · rcases List.mem_append.mp hr with hr | hr
        · exact .inl ⟨ha, hb, r, hr, rfl, hm⟩
        · obtain rfl := List.mem_singleton.mp hr
          exact .inr ⟨rfl, by simpa [elements] using hm⟩
    have hs := (contains_same rows s).trans (lowerContainedIn_same p c { s with contains := rows })
    refine contains_of_same hs (fun a b hrec _ _ => ?_) (fun a b hp => ?_) a b h
    · rcases lowerContainedIn_cases (p := p) (c := c) (s := { s with contains := rows }) with hl | hl <;>
        rw [hl] at hrec
      · exact .inl hrec
      · exact (recordedIn_set hrec).imp_right .inr
    · refine hpair a b ?_
      rcases lowerContainedIn_cases (p := p) (c := c) (s := { s with contains := rows }) with hl | hl <;>
        rwa [hl] at hp

theorem mapping_acyclic (h : Acyclic (Contains s)) (hok : ClosesNoCycle o s) (hm : mapping o = true)
    (hs : step o s = some s') : Acyclic (Contains s') := by
  cases o with
  | addContains p c mem =>
      obtain ⟨r, hr, rfl⟩ := Option.map_eq_some_iff.mp hs
      rcases addPhysicalContainsTableEntry_cases hr with he | ⟨hrej, hsearch, he⟩ <;> rw [he]
      · exact h
      · have hnew : ¬ ReflTransGen (Contains s) c p := fun hreach =>
          isRecursiveChild_false (hok hrej hreach) _ hsearch
        exact h.insert (contains_linkChild mem) hnew
  | deleteContains p c => exact h.mono (step_some rfl hs ▸ fewer_deleteContains p c s)
  | deleteContainsParent p mem => exact h.mono (step_some rfl hs ▸ fewer_deleteContainsParent p mem s)
  | deleteContainsChild c => exact h.mono (step_some rfl hs ▸ fewer_deleteContainsChild c s)
  | addLP l p =>
      obtain rfl := step_some rfl hs
      rcases addLPMappingTableEntry_cases (l := l) (p := p) (s := s) with
        he | ⟨-, -, ⟨r, vs, -, -, he⟩ | ⟨-, he⟩⟩ <;> rw [he] <;> exact h
  | deleteLP l p =>
      obtain rfl := step_some rfl hs
      rcases deleteLPMappingTableEntry_cases (l := l) (p := p) (s := s) with he | ⟨-, r, -, he⟩ <;> rw [he] <;>
        exact h
  | deleteLPLogical l =>
      obtain rfl := step_some rfl hs
      rcases deleteLPMappingLogicalIndex_cases (l := l) (s := s) with he | he <;> rw [he] <;> exact h
  | deleteLPPhysical p =>
      obtain rfl := step_some rfl hs
      rcases deleteLPMappingPhysicalIndex_cases (p := p) (s := s) with he | ⟨-, he⟩ <;> rw [he] <;> exact h
  | addAlias p l mapId size =>
      obtain rfl := step_some rfl hs
      rcases addAliasMappingTableEntry_cases p l mapId size s with
        he | ⟨-, -, -, id, ⟨r, -, -, he⟩ | ⟨-, he⟩⟩ <;> rw [he] <;> exact h
  | deleteAlias p l =>
      obtain rfl := step_some rfl hs
      rcases deleteAliasMappingTableEntry_cases (p := p) (l := l) (s := s) with he | ⟨r, -, he⟩ <;> rw [he] <;>
        exact h
  | deleteAliasLogical l =>
      obtain rfl := step_some rfl hs
      rcases deleteAliasMappingLogicalIndex_cases (l := l) (s := s) with he | he <;> rw [he] <;> exact h
  | deleteAliasPhysical p =>
      obtain rfl := step_some rfl hs
      rcases deleteAliasMappingPhysicalIndex_cases (p := p) (s := s) with he | he <;> rw [he] <;> exact h
  | _ => cases hm

theorem step_acyclic (h : Acyclic (Contains s)) (hok : ClosesNoCycle o s) (hs : step o s = some s') :
    Acyclic (Contains s') := by
  cases step_entries hs with
  | unchanged => exact h
  | same hm _ => exact mapping_acyclic h hok hm hs
  | allocPhysical he hr hfresh ht =>
      obtain ⟨hidx, hmem⟩ := addToTable_some ht
      exact acyclic_of_new h rfl hmem (hok _ _ he hr rfl _ hidx)
  | deletePhysical hx hl =>
      rename_i x mem
      exact h.mono ((fewer_purge x mem s).trans (fewer_unlink x _))
  | stalePhysical hx hl =>
      rename_i x mem
      exact h.mono ((fewer_purge x mem s).trans (fewer_stale (inRange_pos hx) _))
  | livePhysical hx hl =>
      obtain ⟨n, hn⟩ := hl
      exact acyclic_of_new h rfl (fun z hz => mem_retag_found (.inr hn) hz) (hok n hx hn)
  | allocLogical he hr hfresh ht => exact h
  | deleteLogical hx hl =>
      rename_i x
      exact h.mono ((fewer_purgeLogical x s).trans (fewer_of_eq rfl rfl))
  | staleLogical hx hl =>
      rename_i x
      exact h.mono ((fewer_purgeLogical x s).trans (fewer_of_eq rfl rfl))
  | liveLogical hx hl => exact h

theorem empty_acyclic (h : Empty s) : Acyclic (Contains s) := by
  cases h
  intro x hx
  obtain ⟨y, hy, -⟩ := TransGen.head'_iff.mp hx
  simp [Contains, LivePhysical] at hy

/-- The live containment relation has no cycle in any run whose calls close none. -/
theorem reachable_acyclic (h : Reachable step ClosesNoCycle Empty s) : Acyclic (Contains s) :=
  h.invariant (fun s => Acyclic (Contains s)) (fun _ => empty_acyclic) fun _ _ _ ha hok hs =>
    step_acyclic ha hok hs

theorem closesNoCycle_root (hj : 0 < j) (hn : ∀ n ∈ s.physical.head, n.index ≠ j)
    (hr : ∀ r ∈ s.contains, j ∉ elements r) : ¬ TransGen (ContainsWith s j 0) j j := by
  intro h
  obtain ⟨y, -, hy, -, hlink⟩ := TransGen.tail'_iff.mp h
  rcases hlink with ⟨n, hmem, hnj, -⟩ | ⟨-, rfl⟩ | ⟨-, -, r, hmem, -, hm⟩
  · exact hn n hmem hnj
  · rcases hy with hy | hy
    · have := hy.1
      omega
    · omega
  · exact hr r hmem hm

theorem not_reaches_of_leaf (hpc : c ≠ p) (hn : ∀ n ∈ s.physical.head, n.entry.entPhysicalContainedIn ≠ c)
    (hr : ∀ r ∈ s.contains, r.index ≠ c) : ¬ ReflTransGen (Contains s) c p := by
  intro h
  rcases ReflTransGen.cases_head_iff.mp h with rfl | ⟨y, ⟨-, -, hlink⟩, -⟩
  · exact hpc rfl
  · rcases hlink with ⟨n, hmem, -, hnc⟩ | ⟨-, -, r, hmem, hrc, -⟩
    · exact hn n hmem hnc
    · exact hr r hmem hrc

/-- Entry 3 is added to entry 1, both at the top before. -/
theorem reachable_acyclic_pair : ∃ s, Contains s 1 3 ∧ Acyclic (Contains s) := by
  have h1 : Reachable step ClosesNoCycle Empty _ :=
    .next (.allocPhysical 1 {} (some 1)) (.start rfl) (by
      rintro e a he - ha j hj
      cases he
      cases ha
      obtain rfl := Option.some.inj hj
      exact closesNoCycle_root (by decide) (by decide) (by decide)) rfl
  have h2 : Reachable step ClosesNoCycle Empty _ :=
    .next (.allocPhysical 3 {} (some 2)) h1 (by
      rintro e a he - ha j hj
      cases he
      cases ha
      obtain rfl := Option.some.inj hj
      exact closesNoCycle_root (by decide) (by decide) (by decide)) rfl
  have h3 : Reachable step ClosesNoCycle Empty _ :=
    .next (.addContains 1 3 {}) h2
      (fun _ h => absurd h (not_reaches_of_leaf (by decide) (by decide) (by decide))) rfl
  refine ⟨_, ⟨?_, ?_, .inr ?_⟩, reachable_acyclic h3⟩
  · exact ⟨by decide, by decide⟩
  · exact ⟨by decide, by decide⟩
  · exact ⟨by decide, by decide, by decide⟩

/-- Entries 2, 3 and 4 are contained in entry 1 and the search for a cycle sees
the first and the last of them only. -/
theorem overlooked_child_cyclic :
    ∃ s, Reachable step (fun _ _ => True) Empty s ∧ ¬ Acyclic (Contains s) := by
  let child : NewPhysicalEntry := { entPhysicalContainedIn := 1, entPhysicalParentRelPos := 0 }
  let ops : List Op := [.allocPhysical 1 {} (some 1), .allocPhysical 2 child (some 2),
    .allocPhysical 3 child (some 3), .allocPhysical 4 child (some 4), .addContains 3 1 {}]
  have hrun : (exec step ops {}).any (fun s => decide (∃ n ∈ s.physical.head, n.index = 1) &&
      decide (∃ n ∈ s.physical.head, n.index = 3 ∧ n.entry.entPhysicalContainedIn = 1) &&
      decide (∃ r ∈ s.contains, r.index = 3 ∧ 1 ∈ elements r)) = true := by decide +kernel
  obtain ⟨s, hs, hp⟩ := (Option.any_eq_true _ _).mp hrun
  simp only [Bool.and_eq_true, decide_eq_true_eq] at hp
  obtain ⟨⟨h1, n, hn, hn3, hn1⟩, hpair⟩ := hp
  have hlive1 : LivePhysical s 1 := ⟨by decide, h1⟩
  have hlive3 : LivePhysical s 3 := ⟨by decide, n, hn, hn3⟩
  have h13 : Contains s 1 3 := ⟨hlive1, hlive3, .inl ⟨n, hn, hn3, hn1⟩⟩
  have h31 : Contains s 3 1 := ⟨hlive3, hlive1, .inr ⟨by decide, by decide, hpair⟩⟩
  exact ⟨s, reachable_of_exec ops (fun _ _ _ => trivial) (.start rfl) hs, fun h => h 1 (.tail (.single h13) h31)⟩

end OiUserland.EntityMib.ContainmentRuns
