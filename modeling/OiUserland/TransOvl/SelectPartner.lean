import OiUserland.TransOvl.Matches

namespace OiUserland.TransOvl.SelectPartner

open Lib Minima Degradation Visuals Matches

inductive SelectResult
  | success (visinfo : VisInfo)
  | qualifiedSuccess (visinfo : VisInfo) (unmetCriteria : Nat)
  | criteriaFailure (unmetCriteria : Nat)
  | failure
  deriving DecidableEq

section Search

variable (server : Server) (scr : Screen)

def consider (pCriteria : VisualCriteria) (better : VisualMatch) (q : Query) : Except VisualMatch VisualMatch :=
  let cur := computeVisualMatch server scr q pCriteria
  if isPerfectMatch cur then .error cur else .ok (if isBetterMatch cur better then cur else better)

variable (vistype : SelectType) (partner : VisInfo) (vispairs : List VisPair)

def searchPairs (pCriteria : VisualCriteria) (better : VisualMatch) : Except VisualMatch VisualMatch :=
  vispairs.foldlM (fun better vispair =>
    if partner.vid = (if vistype = .bestOverlay then vispair.underlay.vid else vispair.overlay.vid) then
      consider server scr pCriteria better
        ⟨if vistype = .bestOverlay then vispair.overlay else vispair.underlay, partner, true, vistype⟩
    else .ok better) better

def searchVisuals (pCriteria : VisualCriteria) (better : VisualMatch) : Except VisualMatch VisualMatch :=
  (visEnum (visEnumInit scr)).foldlM
    (fun better vis => consider server scr pCriteria better ⟨vis, partner, false, vistype⟩) better

def searchSet (pCriteria : VisualCriteria) (better : VisualMatch) : Except VisualMatch VisualMatch := do
  let better ← searchPairs server scr vistype partner vispairs pCriteria better
  if server.restricted then pure better else searchVisuals server scr vistype partner pCriteria better

def searchSets : List VisualCriteria → VisualMatch → VisualMatch → SelectResult
  | [], bestMatch, _ => .criteriaFailure (bestMatch.hardfailures ||| bestMatch.softfailures)
  | pCriteria :: sets, bestMatch, betterMatch =>
      match searchSet server scr vistype partner vispairs pCriteria (setWorstMatch betterMatch) with
      | .error curMatch => .success curMatch.candidate
      | .ok betterMatch =>
          if isQualifiedMatch betterMatch then .qualifiedSuccess betterMatch.candidate betterMatch.softfailures
          else searchSets sets (if isBetterMatch betterMatch bestMatch then betterMatch else bestMatch) betterMatch

def selectPartner (vid : VisualID) (sets : List VisualCriteria) (bestMatch betterMatch : VisualMatch) : SelectResult :=
  match findScreendata scr server with
  | none => .failure
  | some vispairs =>
      match findVisual scr vid with
      | none => .failure
      | some partner => searchSets server scr vistype partner vispairs sets (setWorstMatch bestMatch) betterMatch

def partnerIn (vispair : VisPair) : Option Query :=
  match vistype with
  | .bestOverlay =>
      if partner.vid = vispair.underlay.vid then some ⟨vispair.overlay, partner, true, .bestOverlay⟩ else none
  | .bestUnderlay =>
      if partner.vid = vispair.overlay.vid then some ⟨vispair.underlay, partner, true, .bestUnderlay⟩ else none

/-- The candidates: the partners of the given visual, and all visuals if the pairs are not
restricted. -/
def queries : List Query :=
  vispairs.filterMap (partnerIn vistype partner) ++
    if server.restricted then [] else (scr.depths.flatMap visualsOf).map fun vis => ⟨vis, partner, false, vistype⟩

end Search

section Grading

def rank (m : VisualMatch) : ℕ ×ₗ ℕ := toLex (m.numhardfailures, m.numsoftfailures)

theorem isBetterMatch_iff {m m' : VisualMatch} : isBetterMatch m m' = true ↔ rank m < rank m' := by
  rw [rank, rank, Prod.Lex.toLex_lt_toLex, isBetterMatch, decide_eq_true_eq]

theorem better_eq (b m : VisualMatch) : (if isBetterMatch m b then m else b) = step rank b m := by
  simp only [step, ← isBetterMatch_iff]

variable {server : Server} {scr : Screen} {vistype : SelectType} {partner : VisInfo} {vispairs : List VisPair}

theorem consider_eq (S : VisualCriteria) :
    consider server scr S = fun better q =>
      if isPerfectMatch (computeVisualMatch server scr q S) then .error (computeVisualMatch server scr q S)
      else .ok (step rank better (computeVisualMatch server scr q S)) := by
  funext better q
  simp only [consider, better_eq]

def matchesOf (server : Server) (scr : Screen) (qs : List Query) (S : VisualCriteria) : List VisualMatch :=
  qs.map fun q => computeVisualMatch server scr q S

theorem foldlM_consider (S : VisualCriteria) (qs : List Query) (better : VisualMatch) :
    qs.foldlM (consider server scr S) better = scan rank isPerfectMatch better (matchesOf server scr qs S) := by
  rw [scan, matchesOf, List.foldlM_map, consider_eq]

theorem searchPairs_eq (S : VisualCriteria) (better : VisualMatch) :
    searchPairs server scr vistype partner vispairs S better =
      (vispairs.filterMap (partnerIn vistype partner)).foldlM (consider server scr S) better := by
  induction vispairs generalizing better with
  | nil => rfl
  | cons vispair vispairs ih =>
      rw [searchPairs, List.foldlM_cons]
      cases vistype with
      | bestOverlay =>
          by_cases h : partner.vid = vispair.underlay.vid
          · have hq : partnerIn .bestOverlay partner vispair = some ⟨vispair.overlay, partner, true, .bestOverlay⟩ :=
              if_pos h
            rw [List.filterMap_cons_some hq, List.foldlM_cons]
            simp only [if_true, if_pos h]
            exact bind_congr fun better => ih better
          · have hq : partnerIn .bestOverlay partner vispair = none := if_neg h
            rw [List.filterMap_cons_none hq, ← ih]
            simp only [if_true, if_neg h]
            rfl
      | bestUnderlay =>
          by_cases h : partner.vid = vispair.overlay.vid
          · have hq : partnerIn .bestUnderlay partner vispair = some ⟨vispair.underlay, partner, true, .bestUnderlay⟩ :=
              if_pos h
            rw [List.filterMap_cons_some hq, List.foldlM_cons]
            simp only [reduceCtorEq, if_false, if_pos h]
            exact bind_congr fun better => ih better
          · have hq : partnerIn .bestUnderlay partner vispair = none := if_neg h
            rw [List.filterMap_cons_none hq, ← ih]
            simp only [reduceCtorEq, if_false, if_neg h]
            rfl

theorem searchSet_eq (S : VisualCriteria) (better : VisualMatch) :
    searchSet server scr vistype partner vispairs S better =
      scan rank isPerfectMatch better (matchesOf server scr (queries server scr vistype partner vispairs) S) := by
  rw [← foldlM_consider, queries, List.foldlM_append, ← searchPairs_eq, searchSet]
  refine bind_congr fun better => ?_
  by_cases h : server.restricted = true
  · rw [if_pos h, if_pos h]
    rfl
  · rw [if_neg h, if_neg h, List.foldlM_map, ← visEnum_init]
    rfl

def resultOf : Outcome VisualMatch → SelectResult
  | .perfect m => .success m.candidate
  | .qualified m => .qualifiedSuccess m.candidate m.softfailures
  | .unqualified m => .criteriaFailure (m.hardfailures ||| m.softfailures)

theorem searchSets_eq (sets : List VisualCriteria) (bestMatch betterMatch : VisualMatch) :
    searchSets server scr vistype partner vispairs sets bestMatch betterMatch =
      resultOf (degrade rank isPerfectMatch isQualifiedMatch setWorstMatch
        (matchesOf server scr (queries server scr vistype partner vispairs)) sets bestMatch betterMatch) := by
  induction sets generalizing bestMatch betterMatch with
  | nil => rfl
  | cons S sets ih =>
      rw [searchSets, degrade, searchSet_eq]
      cases scan rank isPerfectMatch (setWorstMatch betterMatch)
          (matchesOf server scr (queries server scr vistype partner vispairs) S) with
      | error m => rfl
      | ok m =>
          by_cases hm : isQualifiedMatch m = true
          · simp only [if_pos hm]
            rfl
          · simp only [if_neg hm, better_eq]
            exact ih _ _

theorem rank_setWorstMatch (m : VisualMatch) : rank (setWorstMatch m) = toLex (11, 11) := by
  have hcount : bitcount allCriteria = 11 := by
    rw [allCriteria_eq, bitcount_maskOf]
    rfl
  rw [rank, setWorstMatch, hcount]

theorem rank_computed (q : Query) (S : VisualCriteria) :
    rank (computeVisualMatch server scr q S) =
      toLex ((hardFailed server scr q S).card, (softFailed server scr q S).card) := by
  rw [computeVisualMatch_eq]
  rfl

theorem isQualified_computed {q : Query} {S : VisualCriteria} :
    isQualifiedMatch (computeVisualMatch server scr q S) = true ↔ hardFailed server scr q S = ∅ := by
  rw [computeVisualMatch_eq, isQualifiedMatch, decide_eq_true_eq, maskOf_eq_zero]

theorem isPerfect_computed {q : Query} {S : VisualCriteria} :
    isPerfectMatch (computeVisualMatch server scr q S) = true ↔
      hardFailed server scr q S = ∅ ∧ softFailed server scr q S = ∅ := by
  rw [computeVisualMatch_eq, isPerfectMatch, decide_eq_true_eq, Nat.or_eq_zero_iff, maskOf_eq_zero, maskOf_eq_zero]

theorem graded (server : Server) (scr : Screen) (qs : List Query) :
    Graded rank isPerfectMatch isQualifiedMatch setWorstMatch (matchesOf server scr qs) := by
  refine ⟨fun S m hm hperfect => ?_, fun S m hm m' hm' hle hq => ?_, fun b hq => ?_, fun S b m hm hq => ?_⟩
  · obtain ⟨q, -, rfl⟩ := List.mem_map.mp hm
    exact isQualified_computed.mpr (isPerfect_computed.mp hperfect).1
  · obtain ⟨q, -, rfl⟩ := List.mem_map.mp hm
    obtain ⟨q', -, rfl⟩ := List.mem_map.mp hm'
    have hzero := isQualified_computed.mp hq
    rw [rank_computed, rank_computed, Prod.Lex.toLex_le_toLex, hzero, Finset.card_empty] at hle
    refine isQualified_computed.mpr (Finset.card_eq_zero.mp ?_)
    omega
  · rw [isQualifiedMatch, setWorstMatch, decide_eq_true_eq, allCriteria_eq, maskOf_eq_zero] at hq
    exact absurd hq (by decide)
  · obtain ⟨q, -, rfl⟩ := List.mem_map.mp hm
    rw [rank_setWorstMatch, rank_computed, isQualified_computed.mp hq, Finset.card_empty, Prod.Lex.toLex_lt_toLex]
    exact .inl (Nat.succ_pos 10)

end Grading

section Contract

variable (server : Server) (scr : Screen) (qs : List Query) (sets : List VisualCriteria)

def FirstMet (S : VisualCriteria) : Prop :=
  (∃ l r, sets = l ++ S :: r ∧ ∀ S' ∈ l, ∀ q ∈ qs, hardFailed server scr q S' ≠ ∅) ∧
    ∃ q ∈ qs, hardFailed server scr q S = ∅

structure Chosen (S : VisualCriteria) (q : Query) : Prop where
  candidate : q ∈ qs
  meets : hardFailed server scr q S = ∅
  fewest : ∀ q' ∈ qs, hardFailed server scr q' S = ∅ → (softFailed server scr q S).card ≤ (softFailed server scr q' S).card

/-- What the manual promises of a result. -/
structure Meets (result : SelectResult) : Prop where
  met : ∀ S, FirstMet server scr qs sets S → ∃ q, Chosen server scr qs S q ∧
    (softFailed server scr q S = ∅ ∧ result = .success q.candidate ∨
      softFailed server scr q S ≠ ∅ ∧ result = .qualifiedSuccess q.candidate (maskOf (softFailed server scr q S)))
  unmet : (∀ S ∈ sets, ∀ q ∈ qs, hardFailed server scr q S ≠ ∅) → sets ≠ [] → qs ≠ [] →
    ∃ S ∈ sets, ∃ q ∈ qs,
      (∀ S' ∈ sets, ∀ q' ∈ qs, (hardFailed server scr q S).card ≤ (hardFailed server scr q' S').card) ∧
        result = .criteriaFailure (maskOf (hardFailed server scr q S))

def tried : List (VisualCriteria × Query) := sets.flatMap fun S => qs.map fun q => (S, q)

def failures (t : VisualCriteria × Query) : ℕ ×ₗ ℕ :=
  toLex ((hardFailed server scr t.2 t.1).card, (softFailed server scr t.2 t.1).card)

/-- Some candidate meets the hard criteria of some set, or the first trial with the fewest hard
failures, and of these with the fewest soft ones, fails no soft criterion but hard ones. -/
def Promised : Prop :=
  (∃ S ∈ sets, ∃ q ∈ qs, hardFailed server scr q S = ∅) ∨
    ∀ t, FirstLeast (failures server scr) (tried qs sets) t → softFailed server scr t.2 t.1 ⊆ hardFailed server scr t.2 t.1

variable {server scr qs sets}

theorem firstMet_iff {S : VisualCriteria} :
    FirstMet server scr qs sets S ↔ FirstQualified isQualifiedMatch (matchesOf server scr qs) sets S := by
  unfold FirstMet FirstQualified matchesOf
  simp only [List.mem_map, forall_exists_index, and_imp, forall_apply_eq_imp_iff₂, exists_exists_and_eq_and, ne_eq,
    isQualified_computed]

theorem flatMap_matchesOf :
    sets.flatMap (matchesOf server scr qs) = (tried qs sets).map fun t => computeVisualMatch server scr t.2 t.1 := by
  rw [tried, List.map_flatMap]
  simp only [List.map_map]
  rfl

theorem mem_tried {t : VisualCriteria × Query} : t ∈ tried qs sets ↔ t.1 ∈ sets ∧ t.2 ∈ qs := by
  rcases t with ⟨S, q⟩
  simp [tried]

theorem failures_eq : failures server scr = rank ∘ fun t => computeVisualMatch server scr t.2 t.1 := by
  funext t
  rw [Function.comp_apply, rank_computed]
  rfl

theorem meets_of_chosen {S : VisualCriteria} {q : Query} {result : SelectResult} (hS : FirstMet server scr qs sets S)
    (hq : Chosen server scr qs S q)
    (hresult : softFailed server scr q S = ∅ ∧ result = .success q.candidate ∨
      softFailed server scr q S ≠ ∅ ∧ result = .qualifiedSuccess q.candidate (maskOf (softFailed server scr q S))) :
    Meets server scr qs sets result ↔ Promised server scr qs sets := by
  have hmem : S ∈ sets := by
    obtain ⟨⟨l, r, rfl, -⟩, -⟩ := hS
    exact List.mem_append_right _ (List.mem_cons_self ..)
  refine iff_of_true ⟨fun S' hS' => ?_, fun hall => ?_⟩ (.inl ⟨S, hmem, q, hq.candidate, hq.meets⟩)
  · obtain rfl : S = S' := (firstMet_iff.mp hS).unique (firstMet_iff.mp hS')
    exact ⟨q, hq, hresult⟩
  · exact absurd hq.meets (hall S hmem q hq.candidate)

theorem meets_of_none {m worst : VisualMatch} (hnone : ∀ S ∈ sets, ∀ q ∈ qs, hardFailed server scr q S ≠ ∅)
    (hm : m = least rank (setWorstMatch worst) (sets.flatMap (matchesOf server scr qs))) :
    Meets server scr qs sets (.criteriaFailure (m.hardfailures ||| m.softfailures)) ↔ Promised server scr qs sets := by
  have hmet {S : VisualCriteria} : ¬ FirstMet server scr qs sets S := by
    rintro ⟨⟨l, r, rfl, -⟩, q, hq, hzero⟩
    exact hnone S (List.mem_append_right _ (List.mem_cons_self ..)) q hq hzero
  have hpromised : Promised server scr qs sets ↔ ∀ t, FirstLeast (failures server scr) (tried qs sets) t →
      softFailed server scr t.2 t.1 ⊆ hardFailed server scr t.2 t.1 := by
    refine or_iff_right ?_
    rintro ⟨S, hS, q, hq, hzero⟩
    exact hnone S hS q hq hzero
  have hmeets : Meets server scr qs sets (.criteriaFailure (m.hardfailures ||| m.softfailures)) ↔
      (sets ≠ [] → qs ≠ [] → ∃ t ∈ tried qs sets,
        (∀ t' ∈ tried qs sets, (hardFailed server scr t.2 t.1).card ≤ (hardFailed server scr t'.2 t'.1).card) ∧
          m.hardfailures ||| m.softfailures = maskOf (hardFailed server scr t.2 t.1)) := by
    constructor
    · intro h hsets hqs
      obtain ⟨S, hS, q, hq, hmin, heq⟩ := h.unmet hnone hsets hqs
      refine ⟨(S, q), mem_tried.mpr ⟨hS, hq⟩, fun t' ht' => ?_, SelectResult.criteriaFailure.inj heq⟩
      exact hmin t'.1 (mem_tried.mp ht').1 t'.2 (mem_tried.mp ht').2
    · intro h
      refine ⟨fun S hS => absurd hS hmet, fun _ hsets hqs => ?_⟩
      obtain ⟨t, ht, hmin, heq⟩ := h hsets hqs
      exact ⟨t.1, (mem_tried.mp ht).1, t.2, (mem_tried.mp ht).2,
        fun S' hS' q' hq' => hmin (S', q') (mem_tried.mpr ⟨hS', hq'⟩), congrArg _ heq⟩
  rw [hpromised, hmeets]
  rw [flatMap_matchesOf] at hm
  rcases least_cases rank (setWorstMatch worst) ((tried qs sets).map fun t => computeVisualMatch server scr t.2 t.1) with
    ⟨heq, hall⟩ | ⟨hfirst, -⟩
  · -- nothing was better than the worst: every trial fails all criteria
    rw [heq] at hm
    have huniv {t : VisualCriteria × Query} (ht : t ∈ tried qs sets) : hardFailed server scr t.2 t.1 = Finset.univ := by
      have hle := hall _ (List.mem_map_of_mem ht)
      rw [rank_setWorstMatch, rank_computed, Prod.Lex.toLex_le_toLex] at hle
      refine Finset.eq_univ_of_card _ (Nat.le_antisymm (Finset.card_le_univ _) ?_)
      change 11 ≤ _
      omega
    have hmask : m.hardfailures ||| m.softfailures = maskOf Finset.univ := by
      rw [hm, setWorstMatch, allCriteria_eq, maskOf_union, Finset.union_self]
    refine iff_of_true (fun hsets hqs => ?_) fun t ht => ?_
    · obtain ⟨S, hS⟩ := List.exists_mem_of_ne_nil sets hsets
      obtain ⟨q, hq⟩ := List.exists_mem_of_ne_nil qs hqs
      have ht : (S, q) ∈ tried qs sets := mem_tried.mpr ⟨hS, hq⟩
      refine ⟨(S, q), ht, fun t' ht' => ?_, ?_⟩
      · rw [huniv ht, huniv ht']
      · rw [hmask, huniv ht]
    · rw [huniv ht.mem]
      exact Finset.subset_univ _
  · rw [← hm] at hfirst
    obtain ⟨t, rfl, ht⟩ := hfirst.of_map
    rw [← failures_eq] at ht
    have hcard {t' : VisualCriteria × Query} (ht' : t' ∈ tried qs sets) :
        (hardFailed server scr t.2 t.1).card ≤ (hardFailed server scr t'.2 t'.1).card := by
      have hle := ht.le ht'
      rw [failures, failures, Prod.Lex.toLex_le_toLex] at hle
      omega
    rw [computeVisualMatch_eq, maskOf_union]
    constructor
    · intro h t' ht'
      obtain rfl := ht.unique ht'
      obtain ⟨hS, hq⟩ := mem_tried.mp ht.mem
      obtain ⟨t', hmem, hmin, heq⟩ := h (List.ne_nil_of_mem hS) (List.ne_nil_of_mem hq)
      have hunion := maskOf_injective heq
      have hle : (hardFailed server scr t.2 t.1 ∪ softFailed server scr t.2 t.1).card ≤
          (hardFailed server scr t.2 t.1).card := by
        rw [hunion]
        exact hmin t ht.mem
      have hsame := Finset.eq_of_subset_of_card_le Finset.subset_union_left hle
      rw [hsame]
      exact Finset.subset_union_right
    · intro h _ _
      refine ⟨t, ht.mem, fun t' ht' => hcard ht', ?_⟩
      rw [Finset.union_eq_left.mpr (h t ht)]

end Contract

/-- The result is what the manual says just if a failure has no soft criteria to tell of. -/
theorem selectPartner_meets_iff (server : Server) (scr : Screen) (vistype : SelectType) (vid : VisualID)
    (sets : List VisualCriteria) (bestMatch betterMatch : VisualMatch) {partner : VisInfo} {vispairs : List VisPair}
    (hpairs : findScreendata scr server = some vispairs) (hpartner : findVisual scr vid = some partner) :
    Meets server scr (queries server scr vistype partner vispairs) sets
        (selectPartner server scr vistype vid sets bestMatch betterMatch) ↔
      Promised server scr (queries server scr vistype partner vispairs) sets := by
  have hbest (b : VisualMatch) : rank (setWorstMatch bestMatch) ≤ rank (setWorstMatch b) := by
    rw [rank_setWorstMatch, rank_setWorstMatch]
  have hspec := degrade_spec (graded server scr (queries server scr vistype partner vispairs)) sets betterMatch hbest
  simp only [selectPartner, hpairs, hpartner]
  rw [searchSets_eq]
  cases hrun : degrade rank isPerfectMatch isQualifiedMatch setWorstMatch
      (matchesOf server scr (queries server scr vistype partner vispairs)) sets (setWorstMatch bestMatch) betterMatch with
  | perfect m =>
      rw [hrun] at hspec
      obtain ⟨S, hS, hm, hperfect⟩ := hspec
      obtain ⟨q, hq, rfl⟩ := List.mem_map.mp hm
      obtain ⟨hhard, hsoft⟩ := isPerfect_computed.mp hperfect
      refine meets_of_chosen (firstMet_iff.mpr hS) ⟨hq, hhard, fun q' _ _ => ?_⟩ (.inl ⟨hsoft, ?_⟩)
      · rw [hsoft]
        exact Nat.zero_le _
      · rw [computeVisualMatch_eq]
        rfl
  | qualified m =>
      rw [hrun] at hspec
      obtain ⟨S, hS, hm, hqualified, hnone, hle⟩ := hspec
      obtain ⟨q, hq, rfl⟩ := List.mem_map.mp hm
      have hhard := isQualified_computed.mp hqualified
      refine meets_of_chosen (firstMet_iff.mpr hS) ⟨hq, hhard, fun q' hq' hhard' => ?_⟩ (.inr ⟨fun hsoft => ?_, ?_⟩)
      · have hrank := hle _ (List.mem_map_of_mem hq')
        rw [rank_computed, rank_computed, hhard, hhard', Prod.Lex.toLex_le_toLex] at hrank
        rcases hrank with hlt | ⟨-, hsoft⟩
        · exact absurd hlt (lt_irrefl _)
        · exact hsoft
      · exact hnone _ hm (isPerfect_computed.mpr ⟨hhard, hsoft⟩)
      · rw [computeVisualMatch_eq]
        rfl
  | unqualified m =>
      rw [hrun] at hspec
      obtain ⟨hnone, hm⟩ := hspec
      refine meets_of_none (fun S hS q hq hzero => ?_) hm
      exact hnone S hS _ (List.mem_map_of_mem hq) (isQualified_computed.mpr hzero)

def plainScreen : Screen := ⟨[⟨8, [⟨1, 3, 0, 0, 0, 8, 256⟩]⟩]⟩

def plainServer : Server := ⟨[], [], [], [], false⟩

def plainVisual : VisInfo := ⟨1, ⟨1, 3, 0, 0, 0, 8, 256⟩, 8⟩

def depthCriteria (depth : Nat) : VisualCriteria := ⟨2, 1, 4, depth, 0, 0, 0, 0, 0, 0⟩

theorem selectPartner_meets_plain :
    Meets plainServer plainScreen (queries plainServer plainScreen .bestOverlay plainVisual []) [depthCriteria 24, depthCriteria 8]
      (selectPartner plainServer plainScreen .bestOverlay 1 [depthCriteria 24, depthCriteria 8]
        ⟨plainVisual, 0, 0, 0, 0⟩ ⟨plainVisual, 0, 0, 0, 0⟩) := by
  refine (selectPartner_meets_iff plainServer plainScreen .bestOverlay 1 _ _ _ rfl rfl).mpr (.inl ?_)
  exact ⟨depthCriteria 8, by simp, ⟨plainVisual, plainVisual, false, .bestOverlay⟩, List.mem_cons_self .., by decide⟩

/-- A failure tells of the soft class beside the hard depth. -/
theorem criteriaFailure_tells_soft :
    ¬∀ (server : Server) (scr : Screen) (vistype : SelectType) (vid : VisualID) (sets : List VisualCriteria)
      (bestMatch betterMatch : VisualMatch) (partner : VisInfo) (vispairs : List VisPair),
      findScreendata scr server = some vispairs → findVisual scr vid = some partner →
        Meets server scr (queries server scr vistype partner vispairs) sets
          (selectPartner server scr vistype vid sets bestMatch betterMatch) := by
  intro hall
  have hmeets := hall plainServer plainScreen .bestOverlay 1 [depthCriteria 24] ⟨plainVisual, 0, 0, 0, 0⟩
    ⟨plainVisual, 0, 0, 0, 0⟩ plainVisual [] rfl rfl
  have hrun : selectPartner plainServer plainScreen .bestOverlay 1 [depthCriteria 24] ⟨plainVisual, 0, 0, 0, 0⟩
      ⟨plainVisual, 0, 0, 0, 0⟩ = .criteriaFailure 3 := by decide +kernel
  have hqueries : queries plainServer plainScreen .bestOverlay plainVisual [] =
      [⟨plainVisual, plainVisual, false, .bestOverlay⟩] := rfl
  rw [hrun, hqueries] at hmeets
  obtain ⟨S, hS, q, hq, -, hresult⟩ := hmeets.unmet
    (by
      intro S hS q hq
      obtain rfl := List.mem_singleton.mp hS
      obtain rfl := List.mem_singleton.mp hq
      decide)
    (List.cons_ne_nil _ _) (List.cons_ne_nil _ _)
  obtain rfl := List.mem_singleton.mp hS
  obtain rfl := List.mem_singleton.mp hq
  exact absurd (SelectResult.criteriaFailure.inj hresult) (by decide)

end OiUserland.TransOvl.SelectPartner
