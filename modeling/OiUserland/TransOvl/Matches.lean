import OiUserland.Lib.Bitcounts
import OiUserland.Lib.Minima
import Mathlib.Data.Prod.Lex
import Mathlib.Data.Fintype.Card

namespace OiUserland.TransOvl.Visuals

abbrev VisualID := Nat

structure Visual where
  visualid : VisualID
  visualClass : Int
  redMask : Nat
  greenMask : Nat
  blueMask : Nat
  bitsPerRgb : Nat
  mapEntries : Nat
  deriving DecidableEq

/-- The visuals of a depth. Their address is NULL just if there are none. -/
structure Depth where
  depth : Nat
  visuals : List Visual

structure Screen where
  depths : List Depth

structure VisInfo where
  vid : VisualID
  vis : Visual
  depth : Nat
  deriving DecidableEq

structure VisPair where
  overlay : VisInfo
  underlay : VisInfo

/-- The answers of the server: the buffers of the visuals, their planes, their color lookup
tables and the pairs. -/
structure Server where
  monoInfo : List (VisualID × Nat)
  pgInfos : List (VisualID × BitVec 32 × BitVec 32)
  clutInfos : List (VisualID × Nat × Int)
  pairs : List (VisualID × VisualID)
  restricted : Bool

section Lookups

variable (scr : Screen)

def findVisual (vid : VisualID) : Option VisInfo :=
  scr.depths.findSome? fun depth =>
    (depth.visuals.find? fun vis => vis.visualid = vid).map fun vis => ⟨vid, vis, depth.depth⟩

/-- The data of find_visdata that an answer fills in. The last entry stays. -/
def visdata {δ : Type} (answer : List (VisualID × δ)) (vis : Visual) : Option δ :=
  (answer.reverse.find? fun entry => (findVisual scr entry.1).map VisInfo.vis = some vis).map Prod.snd

def findPair (pair : VisualID × VisualID) : Option VisPair :=
  (findVisual scr pair.1).bind fun overlay => (findVisual scr pair.2).map fun underlay => ⟨overlay, underlay⟩

/-- The pairs that find_screendata keeps. There are none when a visual is not found. -/
def findScreendata (server : Server) : Option (List VisPair) := server.pairs.mapM (findPair scr)

end Lookups

structure VisEnumData where
  pDepths : List Depth
  depth : Nat
  pVisuals : List Visual

def visEnumInit (scr : Screen) : VisEnumData := ⟨scr.depths, 0, []⟩

def visEnumNext (e : VisEnumData) : Option (VisInfo × VisEnumData) :=
  match e.pVisuals with
  | vis :: pVisuals => some (⟨vis.visualid, vis, e.depth⟩, { e with pVisuals := pVisuals })
  | [] =>
      match e.pDepths.dropWhile fun depth => depth.visuals = [] with
      | [] => none
      | depth :: pDepths =>
          match depth.visuals with
          | [] => none
          | vis :: pVisuals => some (⟨vis.visualid, vis, depth.depth⟩, ⟨pDepths, depth.depth, pVisuals⟩)

def visualsOf (depth : Depth) : List VisInfo := depth.visuals.map fun vis => ⟨vis.visualid, vis, depth.depth⟩

def remaining (e : VisEnumData) : List VisInfo :=
  visualsOf ⟨e.depth, e.pVisuals⟩ ++ e.pDepths.flatMap visualsOf

theorem visEnumNext_eq (e : VisEnumData) :
    remaining e = match visEnumNext e with
      | none => []
      | some (vis, e') => vis :: remaining e' := by
  rcases e with ⟨pDepths, depth, _ | ⟨vis, pVisuals⟩⟩
  · induction pDepths with
    | nil => rfl
    | cons d pDepths ih =>
        rcases d with ⟨d, _ | ⟨vis, pVisuals⟩⟩
        · exact ih
        · rfl
  · rfl

/-- The visuals that a loop over vis_enum_next sees. -/
def visEnum (e : VisEnumData) : List VisInfo :=
  match _h : visEnumNext e with
  | none => []
  | some (vis, e') => vis :: visEnum e'
termination_by (remaining e).length
decreasing_by rw [visEnumNext_eq e, _h, List.length_cons]; exact Nat.lt_succ_self _

theorem visEnum_eq (e : VisEnumData) : visEnum e = remaining e := by
  induction e using visEnum.induct with
  | case1 e h => rw [visEnum, visEnumNext_eq e, h]
  | case2 e vis e' h ih =>
      rw [visEnum, visEnumNext_eq e, h]
      exact congrArg (vis :: ·) ih

theorem visEnum_init (scr : Screen) : visEnum (visEnumInit scr) = scr.depths.flatMap visualsOf := by
  rw [visEnum_eq]
  rfl

section Checks

variable (server : Server) (scr : Screen)

def bitcount (mask : Nat) : Nat := Lib.Bitcounts.count mask

def maxBuffers : Nat := 2 ^ 32 - 1

def getNumMBXBuffers (vis : Visual) : Nat :=
  match visdata scr server.monoInfo vis with
  | none => 0
  | some 0 => maxBuffers
  | some numBuffers => numBuffers

inductive SelectType
  | bestOverlay
  | bestUnderlay
  deriving DecidableEq

def planes (vis : Visual) : BitVec 64 × BitVec 64 :=
  match visdata scr server.pgInfos vis with
  | none => (BitVec.allOnes 64, BitVec.allOnes 64)
  | some (ovplanes, unplanes) => (ovplanes.zeroExtend 64, unplanes.zeroExtend 64)

def checkSharedPixels (searchtype : SelectType) (candidate partner : Visual) : Bool :=
  let commonplanes :=
    match searchtype with
    | .bestOverlay => (planes server scr candidate).1 &&& (planes server scr partner).2
    | .bestUnderlay => (planes server scr candidate).2 &&& (planes server scr partner).1
  commonplanes ≠ 0

def clut (vis : Visual) : BitVec 64 × Int :=
  match visdata scr server.clutInfos vis with
  | none => (BitVec.allOnes 64, 1)
  | some (pool, count) => ((1#32 <<< pool).signExtend 64, count)

def checkSharedColors (candidate partner : Visual) : Bool :=
  (clut server scr candidate).1 &&& (clut server scr partner).1 ≠ 0 ∧ (clut server scr candidate).2 ≤ 1

end Checks

end OiUserland.TransOvl.Visuals

namespace OiUserland.TransOvl.Matches

open Lib Visuals

inductive Criterion
  | visualClass
  | depth
  | minColors
  | minRed
  | minGreen
  | minBlue
  | minBitsPerRGB
  | minBuffers
  | unsharedPixels
  | unsharedColors
  | preferredPartner
  deriving DecidableEq

namespace Criterion

def index : Criterion → Nat
  | visualClass => 0
  | depth => 1
  | minColors => 2
  | minRed => 3
  | minGreen => 4
  | minBlue => 5
  | minBitsPerRGB => 6
  | minBuffers => 7
  | unsharedPixels => 8
  | unsharedColors => 9
  | preferredPartner => 10

theorem index_injective : Function.Injective index := by
  intro a b h
  cases a <;> cases b <;> first | rfl | cases h

def bit (c : Criterion) : Nat := 1 <<< c.index

def all : List Criterion :=
  [visualClass, depth, minColors, minRed, minGreen, minBlue, minBitsPerRGB, minBuffers, unsharedPixels,
    unsharedColors, preferredPartner]

theorem mem_all (c : Criterion) : c ∈ all := by cases c <;> decide

theorem nodup_all : all.Nodup := by decide

instance : Fintype Criterion := ⟨⟨all, nodup_all⟩, mem_all⟩

theorem bit_eq (c : Criterion) : c.bit = 2 ^ c.index := Nat.one_shiftLeft _

theorem and_bit (mask : Nat) (c : Criterion) :
    mask &&& c.bit = if mask.testBit c.index = true then 2 ^ c.index else 0 := by
  rw [bit_eq, Nat.and_two_pow]
  cases mask.testBit c.index <;> simp

end Criterion

structure VisualCriteria where
  hardCriteriaMask : Nat
  softCriteriaMask : Nat
  cClass : Int
  depth : Nat
  minColors : Nat
  minRed : Nat
  minGreen : Nat
  minBlue : Nat
  minBitsPerRGB : Nat
  minBuffers : Nat

structure Query where
  candidate : VisInfo
  partner : VisInfo
  partnerpreferred : Bool
  searchtype : SelectType

structure VisualMatch where
  candidate : VisInfo
  hardfailures : Nat
  softfailures : Nat
  numhardfailures : Nat
  numsoftfailures : Nat

section Compute

variable (server : Server) (scr : Screen)

def shades (mask : Nat) : Nat := (1#32 <<< bitcount mask).toNat

def fails (q : Query) (pCriteria : VisualCriteria) : Criterion → Bool
  | .visualClass => q.candidate.vis.visualClass ≠ pCriteria.cClass
  | .depth => q.candidate.depth ≠ pCriteria.depth
  | .minColors => q.candidate.vis.mapEntries < pCriteria.minColors
  | .minRed => shades q.candidate.vis.redMask < pCriteria.minRed
  | .minGreen => shades q.candidate.vis.greenMask < pCriteria.minGreen
  | .minBlue => shades q.candidate.vis.blueMask < pCriteria.minBlue
  | .minBitsPerRGB => q.candidate.vis.bitsPerRgb < pCriteria.minBitsPerRGB
  | .minBuffers => getNumMBXBuffers server scr q.candidate.vis < pCriteria.minBuffers
  | .unsharedPixels => checkSharedPixels server scr q.searchtype q.candidate.vis q.partner.vis
  | .unsharedColors => checkSharedColors server scr q.candidate.vis q.partner.vis
  | .preferredPartner => !q.partnerpreferred

def addFailures (q : Query) (pCriteria : VisualCriteria) (failures : Nat × Nat) (c : Criterion) : Nat × Nat :=
  let hardmask := pCriteria.hardCriteriaMask
  let softmask := pCriteria.softCriteriaMask
  if (hardmask ||| softmask) &&& c.bit ≠ 0 ∧ fails server scr q pCriteria c = true then
    (failures.1 ||| (hardmask &&& c.bit), failures.2 ||| (softmask &&& c.bit))
  else failures

def computeVisualMatch (q : Query) (pCriteria : VisualCriteria) : VisualMatch :=
  let failures := Criterion.all.foldl (addFailures server scr q pCriteria) (0, 0)
  ⟨q.candidate, failures.1, failures.2, bitcount failures.1, bitcount failures.2⟩

end Compute

def allCriteria : Nat := Criterion.all.foldl (fun mask c => mask ||| c.bit) 0

def setWorstMatch (m : VisualMatch) : VisualMatch :=
  ⟨m.candidate, allCriteria, allCriteria, bitcount allCriteria, bitcount allCriteria⟩

def isPerfectMatch (m : VisualMatch) : Bool := m.hardfailures ||| m.softfailures = 0

def isQualifiedMatch (m : VisualMatch) : Bool := m.hardfailures = 0

def isBetterMatch (m m' : VisualMatch) : Bool :=
  m.numhardfailures < m'.numhardfailures ∨
    m.numhardfailures = m'.numhardfailures ∧ m.numsoftfailures < m'.numsoftfailures

section Failures

def maskOf (s : Finset Criterion) : Nat := Bitcounts.maskFrom Criterion.index (fun c => c ∈ s) 0 Criterion.all

theorem testBit_maskOf {s : Finset Criterion} {c : Criterion} : (maskOf s).testBit c.index = true ↔ c ∈ s := by
  rw [maskOf, Bitcounts.testBit_maskFrom]
  constructor
  · rintro (hzero | ⟨c', -, hc', hindex⟩)
    · rw [Nat.zero_testBit] at hzero
      cases hzero
    · exact Criterion.index_injective hindex ▸ of_decide_eq_true hc'
  · intro hc
    exact .inr ⟨c, c.mem_all, decide_eq_true hc, rfl⟩

theorem maskOf_injective : Function.Injective maskOf := by
  intro s t h
  ext c
  rw [← testBit_maskOf, h, testBit_maskOf]

theorem bitcount_maskOf (s : Finset Criterion) : bitcount (maskOf s) = s.card := by
  have hcount := Bitcounts.count_maskFrom (p := fun c => decide (c ∈ s)) (m := 0) Criterion.index_injective
    Criterion.nodup_all fun c _ => Nat.zero_testBit _
  rw [Bitcounts.count_zero, Nat.zero_add] at hcount
  refine hcount.trans ?_
  have hfilter : (Finset.univ.filter fun c => c ∈ s).card = Criterion.all.countP fun c => decide (c ∈ s) := by
    rw [List.countP_eq_length_filter]
    rfl
  rw [← hfilter, Finset.filter_univ_mem]

theorem maskOf_union (s t : Finset Criterion) : maskOf s ||| maskOf t = maskOf (s ∪ t) := by
  apply Nat.eq_of_testBit_eq
  intro i
  rw [Bool.eq_iff_iff, Nat.testBit_or, Bool.or_eq_true]
  simp only [maskOf, Bitcounts.testBit_maskFrom, Nat.zero_testBit, decide_eq_true_eq, Finset.mem_union]
  constructor
  · rintro ((h | ⟨c, hmem, hc, hi⟩) | (h | ⟨c, hmem, hc, hi⟩))
    · exact .inl h
    · exact .inr ⟨c, hmem, .inl hc, hi⟩
    · exact .inl h
    · exact .inr ⟨c, hmem, .inr hc, hi⟩
  · rintro (h | ⟨c, hmem, hc | hc, hi⟩)
    · exact .inl (.inl h)
    · exact .inl (.inr ⟨c, hmem, hc, hi⟩)
    · exact .inr (.inr ⟨c, hmem, hc, hi⟩)

variable (server : Server) (scr : Screen) (q : Query) (pCriteria : VisualCriteria)

def failed (mask : Nat) : Finset Criterion :=
  Finset.univ.filter fun c => mask.testBit c.index = true ∧ fails server scr q pCriteria c = true

def hardFailed : Finset Criterion := failed server scr q pCriteria pCriteria.hardCriteriaMask

def softFailed : Finset Criterion := failed server scr q pCriteria pCriteria.softCriteriaMask

theorem foldl_addFailures (h f : Nat) (cs : List Criterion) :
    cs.foldl (addFailures server scr q pCriteria) (h, f) =
      (Bitcounts.maskFrom Criterion.index (fun c => c ∈ hardFailed server scr q pCriteria) h cs,
        Bitcounts.maskFrom Criterion.index (fun c => c ∈ softFailed server scr q pCriteria) f cs) := by
  induction cs generalizing h f with
  | nil => rfl
  | cons c cs ih =>
      have hstep : addFailures server scr q pCriteria (h, f) c =
          (if c ∈ hardFailed server scr q pCriteria then h ||| 2 ^ c.index else h,
            if c ∈ softFailed server scr q pCriteria then f ||| 2 ^ c.index else f) := by
        simp only [addFailures, hardFailed, softFailed, failed, Finset.mem_filter, Finset.mem_univ, true_and,
          Criterion.and_bit, Nat.testBit_or, Bool.or_eq_true]
        by_cases hfails : fails server scr q pCriteria c = true <;>
          by_cases hhard : pCriteria.hardCriteriaMask.testBit c.index = true <;>
            by_cases hsoft : pCriteria.softCriteriaMask.testBit c.index = true <;>
              simp [hfails, hhard, hsoft]
      rw [List.foldl_cons, hstep, ih]
      simp [Bitcounts.maskFrom]

theorem computeVisualMatch_eq :
    computeVisualMatch server scr q pCriteria =
      ⟨q.candidate, maskOf (hardFailed server scr q pCriteria), maskOf (softFailed server scr q pCriteria),
        (hardFailed server scr q pCriteria).card, (softFailed server scr q pCriteria).card⟩ := by
  unfold computeVisualMatch
  rw [foldl_addFailures, ← bitcount_maskOf, ← bitcount_maskOf]
  rfl

theorem allCriteria_eq : allCriteria = maskOf Finset.univ := by
  unfold allCriteria
  simp only [Criterion.bit_eq, maskOf, Bitcounts.maskFrom, Finset.mem_univ, decide_true, if_true]

theorem maskOf_eq_zero {s : Finset Criterion} : maskOf s = 0 ↔ s = ∅ := by
  have hempty : maskOf ∅ = 0 := rfl
  rw [← hempty]
  exact maskOf_injective.eq_iff

end Failures

end OiUserland.TransOvl.Matches
