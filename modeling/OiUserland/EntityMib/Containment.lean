import OiUserland.Lib.Cycles
import OiUserland.EntityMib.EntrySteps
import Mathlib.Data.List.Perm.Subperm

open OiUserland.EntityMib
open Relation EntityTable MibState PhysicalContainsTable

namespace OiUserland.EntityMib.Containment

variable {s : State} {x p c q : Int}

/-- The entry of `c`, live or stale as `c` says, records `p` as what it is
contained in. -/
def RecordedIn (s : State) (p c : Int) : Prop :=
  ∃ n ∈ s.physical.head, n.index = c ∧ n.entry.entPhysicalContainedIn = p

/-- The containment relation on the live entries. -/
def Contains (s : State) (p c : Int) : Prop :=
  LivePhysical s p ∧ LivePhysical s c ∧ (RecordedIn s p c ∨ ContainsPair s p c)

/-- The links there would be with a live entry `j` contained in `q`. -/
def ContainsWith (s : State) (j q p c : Int) : Prop :=
  (LivePhysical s p ∨ p = j) ∧ (LivePhysical s c ∨ c = j) ∧
    (RecordedIn s p c ∨ (c = j ∧ p = q) ∨ ContainsPair s p c)

def firstAndLast : List Int → List Int
  | [] => []
  | [z] => [z]
  | z :: y :: zs => [z, zs.getLastD y]

theorem foldl_addChild (z y : Int) (zs : List Int) :
    zs.foldl addChild ([z, y], 1) = ([z, zs.getLastD y], 1) := by
  induction zs generalizing y with
  | nil => rfl
  | cons w zs ih =>
      have hstep : addChild ([z, y], 1) w = ([z, w], 1) := by simp [addChild]
      rw [List.foldl_cons, hstep, ih, List.getLastD_cons]

theorem getAllChildren_eq (x : Int) (mem : Bool) (s : State) :
    getAllChildrenFromPhysicalContainedIn x mem s =
      if inRange x && mem then firstAndLast (containedIn x s.physical) else [] := by
  unfold getAllChildrenFromPhysicalContainedIn
  split
  · rcases containedIn x s.physical with _ | ⟨z, _ | ⟨y, zs⟩⟩
    · rfl
    · rfl
    · rw [List.foldl_cons, List.foldl_cons, show addChild (addChild ([], 0) z) y = ([z, y], 1) from rfl,
        foldl_addChild]
      rfl
  · rfl

/-- The search for `target` down the reported children gets there. -/
inductive Descends (s : State) (mem : ListMemory) (target : Int) : CallPath → Int → Prop
  | here {path : CallPath} : Descends s mem target path target
  | recorded {path : CallPath} {x c : Int} (hx : inRange x) (hmem : (mem path).1 = true)
      (hc : c ∈ firstAndLast (containedIn x s.physical)) (h : Descends s mem target ((false, c) :: path) c) :
      Descends s mem target path x
  | pair {path : CallPath} {x c : Int} {r : MappingRow Int} (hx : (getPhysicalTableEntry x s).isSome)
      (hmem : (mem path).2 = true) (hr : findRow x s.contains = some r) (hc : c ∈ elements r) (h0 : 0 < c)
      (h : Descends s mem target ((true, c) :: path) c) : Descends s mem target path x

theorem anyChild_false {f : Int → Option Bool} {cs : List Int} (h : anyChild f cs = some false) :
    ∀ c ∈ cs, f c = some false := by
  induction cs with
  | nil => simp
  | cons z zs ih =>
      unfold anyChild at h
      split at h
      · cases h
      · cases h
      · rename_i hz
        intro c hc
        rcases List.mem_cons.mp hc with rfl | hc
        · exact hz
        · exact ih h c hc

theorem isRecursiveChild_false {mem : ListMemory} {target : Int} {path : CallPath}
    (hd : Descends s mem target path x) (fuel : Nat) :
    isRecursiveChild s mem target fuel path x ≠ some false := by
  induction hd generalizing fuel with
  | here =>
      cases fuel with
      | zero => simp [isRecursiveChild]
      | succ fuel => simp [isRecursiveChild]
  | @recorded path x c hx hmem hc _ ih =>
      cases fuel with
      | zero => simp [isRecursiveChild]
      | succ fuel =>
          intro h
          unfold isRecursiveChild at h
          split at h
          · cases h
          · split at h
            · cases h
            · cases h
            · rename_i hall
              refine ih fuel (anyChild_false hall c ?_)
              simpa [getAllChildren_eq, hx, hmem] using hc
  | @pair path x c r hx hmem hr hc h0 _ ih =>
      cases fuel with
      | zero => simp [isRecursiveChild]
      | succ fuel =>
          intro h
          unfold isRecursiveChild at h
          split at h
          · cases h
          · split at h
            · cases h
            · cases h
            · refine ih fuel (anyChild_false h c ?_)
              have hn : (getPhysicalTableEntry x s).isNone = false := by simpa using hx
              simp [getPhysicalContainsChildren, hn, hr, hmem, hc, h0]

end OiUserland.EntityMib.Containment

namespace OiUserland.EntityMib.CycleSearch

open Containment

variable {s : State} {mem : ListMemory} {p c x z : Int} {path : CallPath} {fuel : Nat} {V : List Int}

def Link (s : State) (p c : Int) (x z : Int) : Prop :=
  RecordedIn s x z ∨ ContainsPair s x z ∨ (x = p ∧ z = c)

def NoCycle (s : State) (p c : Int) : Prop :=
  ∀ x, ReflTransGen (Link s p c) c x → ¬ TransGen (Link s p c) x x

def listed (s : State) : List Int := s.physical.head.map Node.index ++ s.contains.flatMap elements

theorem length_listed (s : State) : depthBound s = (listed s).length + 2 := by
  simp [depthBound, listed, List.length_flatMap]

theorem anyChild_all {f : Int → Option Bool} {cs : List Int} (h : ∀ z ∈ cs, f z = some false) :
    anyChild f cs = some false := by
  induction cs with
  | nil => rfl
  | cons z zs ih =>
      rw [anyChild, h z List.mem_cons_self]
      exact ih fun y hy => h y (List.mem_cons_of_mem z hy)

theorem firstAndLast_subset {cs : List Int} (h : z ∈ firstAndLast cs) : z ∈ cs := by
  rcases cs with _ | ⟨a, _ | ⟨b, bs⟩⟩
  · exact h
  · exact h
  · rcases List.mem_cons.mp h with rfl | h
    · exact List.mem_cons_self
    · rw [List.mem_singleton.mp h]
      exact List.mem_cons_of_mem a List.getLastD_mem_cons

theorem recorded_child (h : z ∈ getAllChildrenFromPhysicalContainedIn x (mem path).1 s) :
    RecordedIn s x z ∧ z ∈ listed s := by
  rw [getAllChildren_eq] at h
  split at h
  · have hmem := firstAndLast_subset h
    obtain ⟨n, hn, rfl⟩ := List.mem_map.mp hmem
    obtain ⟨hn, hx⟩ := List.mem_filter.mp hn
    exact ⟨⟨n, hn, rfl, by simpa using hx⟩, List.mem_append_left _ (List.mem_map_of_mem hn)⟩
  · cases h

theorem pair_child (h : z ∈ getPhysicalContainsChildren x (mem path).2 s) :
    ContainsPair s x z ∧ z ∈ listed s := by
  unfold getPhysicalContainsChildren at h
  split at h
  · cases h
  · rename_i hlive
    split at h
    · rename_i r hr
      split at h
      · obtain ⟨hz, h0⟩ := List.mem_filter.mp h
        have hrow := List.mem_of_find?_eq_some hr
        have hrx : r.index = x := by simpa using List.find?_some hr
        have hx : 0 < x := by
          unfold getPhysicalTableEntry getTableEntry at hlive
          by_contra hneg
          have hout : inRange x = false := by simp [inRange, hneg]
          simp [hout] at hlive
        exact ⟨⟨hx, by simpa using h0, r, hrow, hrx, hz⟩,
          List.mem_append_right _ (List.mem_flatMap.mpr ⟨r, hrow, hz⟩)⟩
      · cases h
    · cases h

/-- Without a cycle the search comes to its end, and not at the parent. `V` are the
indices met on the way down: they differ, so that the way is not longer than all
there are. -/
theorem isRecursiveChild_noCycle (h : NoCycle s p c) (fuel : Nat) (path : CallPath)
    (hx : ReflTransGen (Link s p c) c x) (hV : V.Nodup) (hsub : V ⊆ listed s)
    (hup : ∀ v ∈ V, ReflTransGen (Link s p c) v x) (hfuel : (listed s).length < fuel + V.length) :
    isRecursiveChild s mem p fuel path x = some false := by
  induction fuel generalizing x path V with
  | zero =>
      have hle := (List.subperm_of_subset hV hsub).length_le
      omega
  | succ fuel ih =>
      have hne : x ≠ p := by
        rintro rfl
        exact h x hx (TransGen.head' (.inr (.inr ⟨rfl, rfl⟩)) hx)
      have hdown (z : Int) (path : CallPath) (hlink : Link s p c x z) (hz : z ∈ listed s) :
          isRecursiveChild s mem p fuel path z = some false := by
        have hnew : z ∉ V := fun hin => h x hx (TransGen.head' hlink (hup z hin))
        refine ih path (V := z :: V) (hx.tail hlink) (List.nodup_cons.mpr ⟨hnew, hV⟩)
          (List.cons_subset.mpr ⟨hz, hsub⟩) (fun v hv => ?_) ?_
        · rcases List.mem_cons.mp hv with rfl | hv
          · exact .refl
          · exact (hup v hv).tail hlink
        · rw [List.length_cons]
          omega
      have hrec : anyChild (fun z => isRecursiveChild s mem p fuel ((false, z) :: path) z)
          (getAllChildrenFromPhysicalContainedIn x (mem path).1 s) = some false :=
        anyChild_all fun z hz => hdown z _ (.inl (recorded_child hz).1) (recorded_child hz).2
      rw [isRecursiveChild, if_neg hne, hrec]
      exact anyChild_all fun z hz => hdown z _ (.inr (.inl (pair_child hz).1)) (pair_child hz).2

theorem search_noCycle (h : NoCycle s p c) (mem : ListMemory) :
    isRecursiveChild s mem p (depthBound s) [] c = some false := by
  apply isRecursiveChild_noCycle (V := []) h _ _ .refl .nil (List.nil_subset _)
  · simp
  · rw [length_listed]
    simp

end OiUserland.EntityMib.CycleSearch
