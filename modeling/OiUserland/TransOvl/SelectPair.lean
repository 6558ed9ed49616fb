import OiUserland.TransOvl.SelectPartner

namespace OiUserland.TransOvl.SelectPair

open Lib Minima Degradation Visuals Matches SelectPartner

structure PairCriteria where
  overlayCriteria : VisualCriteria
  underlayCriteria : VisualCriteria

inductive PairResult
  | success (ovVisinfo unVisinfo : VisInfo)
  | qualifiedSuccess (ovVisinfo unVisinfo : VisInfo) (unmetOvCriteria unmetUnCriteria : Nat)
  | criteriaFailure (unmetOvCriteria unmetUnCriteria : Nat)
  | failure

structure PairQuery where
  overlay : VisInfo
  underlay : VisInfo
  partnerpreferred : Bool

def PairQuery.ov (p : PairQuery) : Query := ⟨p.overlay, p.underlay, p.partnerpreferred, .bestUnderlay⟩

def PairQuery.un (p : PairQuery) : Query := ⟨p.underlay, p.overlay, p.partnerpreferred, .bestOverlay⟩

abbrev PairMatch := VisualMatch × VisualMatch

def isPerfectPair (m : PairMatch) : Bool := isPerfectMatch m.1 && isPerfectMatch m.2

def isQualifiedPair (m : PairMatch) : Bool := isQualifiedMatch m.1 && isQualifiedMatch m.2

def isBetterPair (m m' : PairMatch) : Bool :=
  m.1.numhardfailures + m.2.numhardfailures < m'.1.numhardfailures + m'.2.numhardfailures ∨
    m.1.numhardfailures + m.2.numhardfailures = m'.1.numhardfailures + m'.2.numhardfailures ∧
      m.1.numsoftfailures + m.2.numsoftfailures < m'.1.numsoftfailures + m'.2.numsoftfailures

def setWorstPair (m : PairMatch) : PairMatch := (setWorstMatch m.1, setWorstMatch m.2)

section Search

variable (server : Server) (scr : Screen)

def computePair (pCriteria : PairCriteria) (p : PairQuery) : PairMatch :=
  (computeVisualMatch server scr p.ov pCriteria.overlayCriteria,
    computeVisualMatch server scr p.un pCriteria.underlayCriteria)

def considerPair (pCriteria : PairCriteria) (better : PairMatch) (p : PairQuery) : Except PairMatch PairMatch :=
  let cur := computePair server scr pCriteria p
  if isPerfectPair cur then .error cur else .ok (if isBetterPair cur better then cur else better)

variable (vispairs : List VisPair)

def searchSet (pCriteria : PairCriteria) (better : PairMatch) : Except PairMatch PairMatch := do
  let better ← vispairs.foldlM
    (fun better vispair => considerPair server scr pCriteria better ⟨vispair.overlay, vispair.underlay, true⟩) better
  if server.restricted then pure better
  else
    (visEnum (visEnumInit scr)).foldlM (fun better overlay =>
      (visEnum (visEnumInit scr)).foldlM (fun better underlay =>
        considerPair server scr pCriteria better ⟨overlay, underlay, false⟩) better) better

def searchSets : List PairCriteria → PairMatch → PairMatch → PairResult
  | [], bestMatch, _ =>
      .criteriaFailure (bestMatch.1.hardfailures ||| bestMatch.1.softfailures)
        (bestMatch.2.hardfailures ||| bestMatch.2.softfailures)
  | pCriteria :: sets, bestMatch, betterMatch =>
      match searchSet server scr vispairs pCriteria (setWorstPair betterMatch) with
      | .error curMatch => .success curMatch.1.candidate curMatch.2.candidate
      | .ok betterMatch =>
          if isQualifiedPair betterMatch then
            .qualifiedSuccess betterMatch.1.candidate betterMatch.2.candidate betterMatch.1.softfailures
              betterMatch.2.softfailures
          else searchSets sets (if isBetterPair betterMatch bestMatch then betterMatch else bestMatch) betterMatch

def selectPair (sets : List PairCriteria) (bestMatch betterMatch : PairMatch) : PairResult :=
  match findScreendata scr server with
  | none => .failure
  | some vispairs => searchSets server scr vispairs sets (setWorstPair bestMatch) betterMatch

def candidates : List PairQuery :=
  (vispairs.map fun vispair => ⟨vispair.overlay, vispair.underlay, true⟩) ++
    if server.restricted then []
    else (scr.depths.flatMap visualsOf).flatMap fun overlay =>
      (scr.depths.flatMap visualsOf).map fun underlay => ⟨overlay, underlay, false⟩

end Search

section Grading

def rank (m : PairMatch) : ℕ ×ₗ ℕ :=
  toLex (m.1.numhardfailures + m.2.numhardfailures, m.1.numsoftfailures + m.2.numsoftfailures)

theorem isBetterPair_iff {m m' : PairMatch} : isBetterPair m m' = true ↔ rank m < rank m' := by
  rw [rank, rank, Prod.Lex.toLex_lt_toLex, isBetterPair, decide_eq_true_eq]

theorem better_eq (b m : PairMatch) : (if isBetterPair m b then m else b) = step rank b m := by
  simp only [step, ← isBetterPair_iff]

variable {server : Server} {scr : Screen} {vispairs : List VisPair} {S : PairCriteria} {p : PairQuery}

theorem considerPair_eq (S : PairCriteria) :
    considerPair server scr S = fun better p =>
      if isPerfectPair (computePair server scr S p) then .error (computePair server scr S p)
      else .ok (step rank better (computePair server scr S p)) := by
  funext better p
  simp only [considerPair, better_eq]

def matchesOf (server : Server) (scr : Screen) (ps : List PairQuery) (S : PairCriteria) : List PairMatch :=
  ps.map (computePair server scr S)

theorem foldlM_considerPair (S : PairCriteria) (ps : List PairQuery) (better : PairMatch) :
    ps.foldlM (considerPair server scr S) better = scan rank isPerfectPair better (matchesOf server scr ps S) := by
  rw [scan, matchesOf, List.foldlM_map, considerPair_eq]

theorem searchSet_eq (S : PairCriteria) (better : PairMatch) :
    searchSet server scr vispairs S better =
      scan rank isPerfectPair better (matchesOf server scr (candidates server scr vispairs) S) := by
  rw [← foldlM_considerPair, candidates, List.foldlM_append, List.foldlM_map, searchSet]
  refine bind_congr fun better => ?_
  by_cases h : server.restricted = true
  · rw [if_pos h, if_pos h]
    rfl
  · rw [if_neg h, if_neg h, ← visEnum_init, foldlM_flatMap]
    simp only [List.foldlM_map]

def resultOf : Outcome PairMatch → PairResult
  | .perfect m => .success m.1.candidate m.2.candidate
  | .qualified m => .qualifiedSuccess m.1.candidate m.2.candidate m.1.softfailures m.2.softfailures
  | .unqualified m => .criteriaFailure (m.1.hardfailures ||| m.1.softfailures) (m.2.hardfailures ||| m.2.softfailures)

theorem searchSets_eq (sets : List PairCriteria) (bestMatch betterMatch : PairMatch) :
    searchSets server scr vispairs sets bestMatch betterMatch =
      resultOf (degrade rank isPerfectPair isQualifiedPair setWorstPair
        (matchesOf server scr (candidates server scr vispairs)) sets bestMatch betterMatch) := by
  induction sets generalizing bestMatch betterMatch with
  | nil => rfl
  | cons S sets ih =>
      rw [searchSets, degrade, searchSet_eq]
      cases scan rank isPerfectPair (setWorstPair betterMatch)
          (matchesOf server scr (candidates server scr vispairs) S) with
      | error m => rfl
      | ok m =>
          by_cases hm : isQualifiedPair m = true
          · simp only [if_pos hm]
            rfl
          · simp only [if_neg hm, better_eq]
            exact ih _ _

theorem rank_setWorstPair (m : PairMatch) : rank (setWorstPair m) = toLex (22, 22) := by
  have hcount : bitcount allCriteria = 11 := by
    rw [allCriteria_eq, bitcount_maskOf]
    rfl
  simp only [rank, setWorstPair, setWorstMatch, hcount]

theorem isQualifiedPair_computed : isQualifiedPair (computePair server scr S p) = true ↔
    hardFailed server scr p.ov S.overlayCriteria = ∅ ∧ hardFailed server scr p.un S.underlayCriteria = ∅ := by
  rw [isQualifiedPair, Bool.and_eq_true, computePair, isQualified_computed, isQualified_computed]

theorem isPerfectPair_computed (h : isPerfectPair (computePair server scr S p) = true) :
    isQualifiedPair (computePair server scr S p) = true ∧
      softFailed server scr p.ov S.overlayCriteria = ∅ ∧ softFailed server scr p.un S.underlayCriteria = ∅ := by
  rw [isPerfectPair, Bool.and_eq_true, computePair, isPerfect_computed, isPerfect_computed] at h
  exact ⟨isQualifiedPair_computed.mpr ⟨h.1.1, h.2.1⟩, h.1.2, h.2.2⟩

theorem rank_computed : rank (computePair server scr S p) =
    toLex ((hardFailed server scr p.ov S.overlayCriteria).card + (hardFailed server scr p.un S.underlayCriteria).card,
      (softFailed server scr p.ov S.overlayCriteria).card + (softFailed server scr p.un S.underlayCriteria).card) := by
  rw [computePair, computeVisualMatch_eq, computeVisualMatch_eq]
  rfl

theorem graded (server : Server) (scr : Screen) (ps : List PairQuery) :
    Graded rank isPerfectPair isQualifiedPair setWorstPair (matchesOf server scr ps) := by
  refine ⟨fun S m hm hperfect => ?_, fun S m hm m' hm' hle hq => ?_, fun b hq => ?_, fun S b m hm hq => ?_⟩
  · obtain ⟨p, -, rfl⟩ := List.mem_map.mp hm
    exact (isPerfectPair_computed hperfect).1
  · obtain ⟨p, -, rfl⟩ := List.mem_map.mp hm
    obtain ⟨p', -, rfl⟩ := List.mem_map.mp hm'
    obtain ⟨hov, hun⟩ := isQualifiedPair_computed.mp hq
    rw [rank_computed, rank_computed, Prod.Lex.toLex_le_toLex, hov, hun, Finset.card_empty] at hle
    refine isQualifiedPair_computed.mpr ⟨Finset.card_eq_zero.mp ?_, Finset.card_eq_zero.mp ?_⟩
    · omega
    · omega
  · rw [isQualifiedPair, Bool.and_eq_true, isQualifiedMatch, setWorstPair, setWorstMatch, decide_eq_true_eq,
      allCriteria_eq, maskOf_eq_zero] at hq
    exact absurd hq.1 (by decide)
  · obtain ⟨p, -, rfl⟩ := List.mem_map.mp hm
    obtain ⟨hov, hun⟩ := isQualifiedPair_computed.mp hq
    rw [rank_setWorstPair, rank_computed, hov, hun, Finset.card_empty, Prod.Lex.toLex_lt_toLex]
    exact .inl (Nat.succ_pos 21)

end Grading

section Counts

structure Count where
  hardOv : PairQuery → VisualCriteria → Finset Criterion
  softOv : PairQuery → VisualCriteria → Finset Criterion
  hardUn : PairQuery → VisualCriteria → Finset Criterion
  softUn : PairQuery → VisualCriteria → Finset Criterion

variable (server : Server) (scr : Screen)

def pairCount : Count where
  hardOv := fun p => hardFailed server scr p.ov
  softOv := fun p => softFailed server scr p.ov
  hardUn := fun p => hardFailed server scr p.un
  softUn := fun p => softFailed server scr p.un

def PairQuery.bestOverlay (p : PairQuery) : Query := ⟨p.overlay, p.underlay, p.partnerpreferred, .bestOverlay⟩

def PairQuery.bestUnderlay (p : PairQuery) : Query := ⟨p.underlay, p.overlay, p.partnerpreferred, .bestUnderlay⟩

def partnerCount : Count where
  hardOv := fun p => hardFailed server scr p.bestOverlay
  softOv := fun p => softFailed server scr p.bestOverlay
  hardUn := fun p => hardFailed server scr p.bestUnderlay
  softUn := fun p => softFailed server scr p.bestUnderlay

variable {server scr}

/-- The planes of an overlay and an underlay meet in these roles just if they do in the others. -/
def SamePlanes (server : Server) (scr : Screen) (p : PairQuery) : Prop :=
  checkSharedPixels server scr .bestOverlay p.overlay.vis p.underlay.vis =
    checkSharedPixels server scr .bestUnderlay p.overlay.vis p.underlay.vis

theorem failed_eq_iff {q q' : Query} {S : VisualCriteria} {mask : Nat}
    (hsame : ∀ c, c ≠ .unsharedPixels → fails server scr q S c = fails server scr q' S c) :
    failed server scr q S mask = failed server scr q' S mask ↔
      (mask.testBit Criterion.unsharedPixels.index = true →
        fails server scr q S .unsharedPixels = fails server scr q' S .unsharedPixels) := by
  rw [Finset.ext_iff]
  simp only [failed, Finset.mem_filter, Finset.mem_univ, true_and, and_congr_right_iff]
  constructor
  · intro h hmask
    exact Bool.eq_iff_iff.mpr (h .unsharedPixels hmask)
  · intro h c hmask
    by_cases hc : c = .unsharedPixels
    · subst hc
      rw [h hmask]
    · rw [hsame c hc]

theorem checkSharedPixels_swap (candidate partner : Visual) :
    checkSharedPixels server scr .bestOverlay candidate partner =
      checkSharedPixels server scr .bestUnderlay partner candidate := by
  simp only [checkSharedPixels, BitVec.and_comm]

/-- Both calls count the same criteria of a pair. -/
structure Agree (server : Server) (scr : Screen) (p : PairQuery) (S : PairCriteria) : Prop where
  hardOv : (pairCount server scr).hardOv p S.overlayCriteria = (partnerCount server scr).hardOv p S.overlayCriteria
  softOv : (pairCount server scr).softOv p S.overlayCriteria = (partnerCount server scr).softOv p S.overlayCriteria
  hardUn : (pairCount server scr).hardUn p S.underlayCriteria = (partnerCount server scr).hardUn p S.underlayCriteria
  softUn : (pairCount server scr).softUn p S.underlayCriteria = (partnerCount server scr).softUn p S.underlayCriteria

/-- A mask of the set has the criterion of unshared pixels. -/
def AsksPixels (S : PairCriteria) : Prop :=
  ∃ mask ∈ [S.overlayCriteria.hardCriteriaMask, S.overlayCriteria.softCriteriaMask,
    S.underlayCriteria.hardCriteriaMask, S.underlayCriteria.softCriteriaMask],
    mask.testBit Criterion.unsharedPixels.index = true

theorem agree_iff {p : PairQuery} {S : PairCriteria} :
    Agree server scr p S ↔ (AsksPixels S → SamePlanes server scr p) := by
  have hov (mask : Nat) : failed server scr p.ov S.overlayCriteria mask =
      failed server scr p.bestOverlay S.overlayCriteria mask ↔
        (mask.testBit Criterion.unsharedPixels.index = true → SamePlanes server scr p) := by
    rw [failed_eq_iff fun c hc => by cases c <;> first | rfl | exact absurd rfl hc]
    exact imp_congr_right fun _ => eq_comm
  have hun (mask : Nat) : failed server scr p.un S.underlayCriteria mask =
      failed server scr p.bestUnderlay S.underlayCriteria mask ↔
        (mask.testBit Criterion.unsharedPixels.index = true → SamePlanes server scr p) := by
    rw [failed_eq_iff fun c hc => by cases c <;> first | rfl | exact absurd rfl hc]
    refine imp_congr_right fun _ => ?_
    change checkSharedPixels server scr .bestOverlay p.underlay.vis p.overlay.vis =
      checkSharedPixels server scr .bestUnderlay p.underlay.vis p.overlay.vis ↔ _
    rw [checkSharedPixels_swap, ← checkSharedPixels_swap p.overlay.vis]
    exact eq_comm
  constructor
  · rintro h ⟨mask, hmem, hmask⟩
    simp only [List.mem_cons, List.not_mem_nil, or_false] at hmem
    rcases hmem with rfl | rfl | rfl | rfl
    · exact (hov _).mp h.hardOv hmask
    · exact (hov _).mp h.softOv hmask
    · exact (hun _).mp h.hardUn hmask
    · exact (hun _).mp h.softUn hmask
  · intro h
    have hall {mask : Nat} (hmem : mask ∈ [S.overlayCriteria.hardCriteriaMask, S.overlayCriteria.softCriteriaMask,
        S.underlayCriteria.hardCriteriaMask, S.underlayCriteria.softCriteriaMask])
        (hmask : mask.testBit Criterion.unsharedPixels.index = true) : SamePlanes server scr p :=
      h ⟨mask, hmem, hmask⟩
    exact ⟨(hov _).mpr (hall (by simp)), (hov _).mpr (hall (by simp)), (hun _).mpr (hall (by simp)),
      (hun _).mpr (hall (by simp))⟩

end Counts

section Contract

variable (count : Count) (ps : List PairQuery) (sets : List PairCriteria)

def Satisfies (p : PairQuery) (S : PairCriteria) : Prop :=
  count.hardOv p S.overlayCriteria = ∅ ∧ count.hardUn p S.underlayCriteria = ∅

def softTotal (p : PairQuery) (S : PairCriteria) : Nat :=
  (count.softOv p S.overlayCriteria).card + (count.softUn p S.underlayCriteria).card

def FirstSatisfied (S : PairCriteria) : Prop :=
  (∃ l r, sets = l ++ S :: r ∧ ∀ S' ∈ l, ∀ p ∈ ps, ¬ Satisfies count p S') ∧ ∃ p ∈ ps, Satisfies count p S

structure BestOf (S : PairCriteria) (p : PairQuery) : Prop where
  candidate : p ∈ ps
  satisfies : Satisfies count p S
  fewest : ∀ p' ∈ ps, Satisfies count p' S → softTotal count p S ≤ softTotal count p' S

/-- A pair that is returned is the best one for the first set that can be satisfied. -/
def Best : PairResult → Prop
  | .success ov un | .qualifiedSuccess ov un _ _ =>
      ∃ S p, FirstSatisfied count ps sets S ∧ BestOf count ps S p ∧ p.overlay = ov ∧ p.underlay = un
  | _ => True

variable {count ps sets} {server : Server} {scr : Screen}

theorem firstSatisfied_iff {S : PairCriteria} :
    FirstSatisfied (pairCount server scr) ps sets S ↔ FirstQualified isQualifiedPair (matchesOf server scr ps) sets S := by
  unfold FirstSatisfied FirstQualified matchesOf
  simp only [List.mem_map, forall_exists_index, and_imp, forall_apply_eq_imp_iff₂, exists_exists_and_eq_and, ne_eq,
    isQualifiedPair_computed]
  rfl

theorem best_of_agree {result : PairResult} (hagree : ∀ p ∈ ps, ∀ S ∈ sets, Agree server scr p S)
    (h : Best (pairCount server scr) ps sets result) : Best (partnerCount server scr) ps sets result := by
  have hsatisfies {p : PairQuery} {S : PairCriteria} (hp : p ∈ ps) (hS : S ∈ sets) :
      Satisfies (pairCount server scr) p S ↔ Satisfies (partnerCount server scr) p S := by
    rw [Satisfies, Satisfies, (hagree p hp S hS).hardOv, (hagree p hp S hS).hardUn]
  have htotal {p : PairQuery} {S : PairCriteria} (hp : p ∈ ps) (hS : S ∈ sets) :
      softTotal (pairCount server scr) p S = softTotal (partnerCount server scr) p S := by
    rw [softTotal, softTotal, (hagree p hp S hS).softOv, (hagree p hp S hS).softUn]
  have hbest {ov un : VisInfo}
      (h : ∃ S p, FirstSatisfied (pairCount server scr) ps sets S ∧ BestOf (pairCount server scr) ps S p ∧
        p.overlay = ov ∧ p.underlay = un) :
      ∃ S p, FirstSatisfied (partnerCount server scr) ps sets S ∧ BestOf (partnerCount server scr) ps S p ∧
        p.overlay = ov ∧ p.underlay = un := by
    obtain ⟨S, p, ⟨⟨l, r, hsets, hl⟩, p', hp', hsat⟩, hbest, hov, hun⟩ := h
    have hS : S ∈ sets := hsets ▸ List.mem_append_right _ (List.mem_cons_self ..)
    refine ⟨S, p, ⟨⟨l, r, hsets, fun S' hS' p'' hp'' hsat' => ?_⟩, p', hp', (hsatisfies hp' hS).mp hsat⟩, ?_, hov, hun⟩
    · have hmem : S' ∈ sets := hsets ▸ List.mem_append_left _ hS'
      exact hl S' hS' p'' hp'' ((hsatisfies hp'' hmem).mpr hsat')
    · refine ⟨hbest.candidate, (hsatisfies hbest.candidate hS).mp hbest.satisfies, fun p'' hp'' hsat' => ?_⟩
      rw [← htotal hbest.candidate hS, ← htotal hp'' hS]
      exact hbest.fewest p'' hp'' ((hsatisfies hp'' hS).mpr hsat')
  cases result with
  | success ov un => exact hbest h
  | qualifiedSuccess ov un unmetOv unmetUn => exact hbest h
  | criteriaFailure unmetOv unmetUn => exact trivial
  | failure => exact trivial

end Contract

section Results

variable {server : Server} {scr : Screen} {vispairs : List VisPair}

theorem selectPair_best (hpairs : findScreendata scr server = some vispairs) (sets : List PairCriteria)
    (bestMatch betterMatch : PairMatch) :
    Best (pairCount server scr) (candidates server scr vispairs) sets (selectPair server scr sets bestMatch betterMatch) := by
  have hbest (b : PairMatch) : rank (setWorstPair bestMatch) ≤ rank (setWorstPair b) := by
    rw [rank_setWorstPair, rank_setWorstPair]
  have hspec := degrade_spec (graded server scr (candidates server scr vispairs)) sets betterMatch hbest
  simp only [selectPair, hpairs]
  rw [searchSets_eq]
  cases hrun : degrade rank isPerfectPair isQualifiedPair setWorstPair
      (matchesOf server scr (candidates server scr vispairs)) sets (setWorstPair bestMatch) betterMatch with
  | perfect m =>
      rw [hrun] at hspec
      obtain ⟨S, hS, hm, hperfect⟩ := hspec
      obtain ⟨p, hp, rfl⟩ := List.mem_map.mp hm
      obtain ⟨hqualified, hov, hun⟩ := isPerfectPair_computed hperfect
      have htotal : softTotal (pairCount server scr) p S = 0 := by
        simp only [softTotal, pairCount, hov, hun, Finset.card_empty]
      refine ⟨S, p, firstSatisfied_iff.mpr hS, ⟨hp, isQualifiedPair_computed.mp hqualified, fun p' _ _ => ?_⟩, ?_, ?_⟩
      · rw [htotal]
        exact Nat.zero_le _
      · rw [computePair, computeVisualMatch_eq]
        rfl
      · rw [computePair, computeVisualMatch_eq server scr p.un]
        rfl
  | qualified m =>
      rw [hrun] at hspec
      obtain ⟨S, hS, hm, hqualified, -, hle⟩ := hspec
      obtain ⟨p, hp, rfl⟩ := List.mem_map.mp hm
      have hsat := isQualifiedPair_computed.mp hqualified
      refine ⟨S, p, firstSatisfied_iff.mpr hS, ⟨hp, hsat, fun p' hp' hsat' => ?_⟩, ?_, ?_⟩
      · have hrank := hle _ (List.mem_map_of_mem hp')
        obtain ⟨hov', hun'⟩ := hsat'
        simp only [pairCount] at hov' hun'
        rw [rank_computed, rank_computed, hsat.1, hsat.2, hov', hun', Prod.Lex.toLex_le_toLex] at hrank
        rcases hrank with hlt | ⟨-, hsoft⟩
        · exact absurd hlt (lt_irrefl _)
        · exact hsoft
      · rw [computePair, computeVisualMatch_eq]
        rfl
      · rw [computePair, computeVisualMatch_eq server scr p.un]
        rfl
  | unqualified m => exact trivial

/-- Both calls agree about the pairs of the server, and the best one is found, just if wherever
unshared pixels are asked for the planes of a pair meet in both roles or in none. Where this
holds of all candidates the pair that is found is the best by the count of the other call too. -/
theorem selectPair_agrees_iff (server : Server) (scr : Screen) (sets : List PairCriteria) (bestMatch betterMatch : PairMatch)
    {vispairs : List VisPair} (hpairs : findScreendata scr server = some vispairs) :
    ((∀ vispair ∈ vispairs, ∀ preferred, ∀ S ∈ sets, Agree server scr ⟨vispair.overlay, vispair.underlay, preferred⟩ S) ∧
        Best (pairCount server scr) (candidates server scr vispairs) sets (selectPair server scr sets bestMatch betterMatch) ↔
      ∀ vispair ∈ vispairs, ∀ preferred, ∀ S ∈ sets, AsksPixels S →
        SamePlanes server scr ⟨vispair.overlay, vispair.underlay, preferred⟩) ∧
      ((∀ p ∈ candidates server scr vispairs, ∀ S ∈ sets, AsksPixels S → SamePlanes server scr p) →
        Best (partnerCount server scr) (candidates server scr vispairs) sets
          (selectPair server scr sets bestMatch betterMatch)) := by
  have hbest := selectPair_best hpairs sets bestMatch betterMatch
  constructor
  · rw [and_iff_left hbest]
    simp only [agree_iff]
  · intro h
    exact best_of_agree (fun p hp S hS => agree_iff.mpr (h p hp S hS)) hbest

end Results

def pairScreen : Screen := ⟨[⟨8, [⟨1, 3, 0, 0, 0, 8, 256⟩, ⟨2, 3, 0, 0, 0, 8, 256⟩]⟩]⟩

def pairServer (pgInfos : List (VisualID × BitVec 32 × BitVec 32)) : Server := ⟨[], pgInfos, [], [(1, 2)], true⟩

def pairOverlay : VisInfo := ⟨1, ⟨1, 3, 0, 0, 0, 8, 256⟩, 8⟩

def pairUnderlay : VisInfo := ⟨2, ⟨2, 3, 0, 0, 0, 8, 256⟩, 8⟩

def pixelCriteria : PairCriteria := ⟨⟨256, 0, 0, 0, 0, 0, 0, 0, 0, 0⟩, ⟨0, 0, 0, 0, 0, 0, 0, 0, 0, 0⟩⟩

/-- The server does not tell of planes, and both calls count the overlay as failed. -/
theorem selectPair_agrees_unknown :
    (∀ vispair ∈ [VisPair.mk pairOverlay pairUnderlay], ∀ preferred, ∀ S ∈ [pixelCriteria],
      Agree (pairServer []) pairScreen ⟨vispair.overlay, vispair.underlay, preferred⟩ S) ∧
      Best (pairCount (pairServer []) pairScreen) (candidates (pairServer []) pairScreen [⟨pairOverlay, pairUnderlay⟩])
        [pixelCriteria] (selectPair (pairServer []) pairScreen [pixelCriteria]
          (⟨pairOverlay, 0, 0, 0, 0⟩, ⟨pairUnderlay, 0, 0, 0, 0⟩) (⟨pairOverlay, 0, 0, 0, 0⟩, ⟨pairUnderlay, 0, 0, 0, 0⟩)) := by
  refine (selectPair_agrees_iff (pairServer []) pairScreen [pixelCriteria] _ _ rfl).1.mpr ?_
  intro vispair hpair preferred S _ _
  obtain rfl := List.mem_singleton.mp hpair
  rfl

/-- An overlay whose planes meet those of the underlay in their roles only. -/
theorem selectPair_misses_shared :
    ¬∀ (server : Server) (scr : Screen) (sets : List PairCriteria) (bestMatch betterMatch : PairMatch)
      (vispairs : List VisPair), findScreendata scr server = some vispairs →
        (∀ vispair ∈ vispairs, ∀ preferred, ∀ S ∈ sets, Agree server scr ⟨vispair.overlay, vispair.underlay, preferred⟩ S) ∧
          Best (pairCount server scr) (candidates server scr vispairs) sets
            (selectPair server scr sets bestMatch betterMatch) := by
  intro hall
  have hagree := (hall (pairServer [(1, 1, 0), (2, 0, 1)]) pairScreen [pixelCriteria]
    (⟨pairOverlay, 0, 0, 0, 0⟩, ⟨pairUnderlay, 0, 0, 0, 0⟩) (⟨pairOverlay, 0, 0, 0, 0⟩, ⟨pairUnderlay, 0, 0, 0, 0⟩)
    [⟨pairOverlay, pairUnderlay⟩] rfl).1 _ (List.mem_singleton_self _) true _ (List.mem_singleton_self _)
  exact absurd hagree.hardOv (by decide)

end OiUserland.TransOvl.SelectPair
