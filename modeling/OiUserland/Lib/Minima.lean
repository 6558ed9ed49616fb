import Mathlib.Order.Lattice

namespace OiUserland.Lib.Minima

variable {α ι β : Type} [LinearOrder β] {rank : α → β} {b w x y : α} {xs ys : List α}

def step (rank : α → β) (b x : α) : α := if rank x < rank b then x else b

def least (rank : α → β) (b : α) (xs : List α) : α := xs.foldl (step rank) b

def FirstLeast (rank : α → β) (xs : List α) (a : α) : Prop :=
  ∃ l r, xs = l ++ a :: r ∧ (∀ x ∈ l, rank a < rank x) ∧ ∀ x ∈ r, rank a ≤ rank x

theorem FirstLeast.mem (h : FirstLeast rank xs x) : x ∈ xs := by
  obtain ⟨l, r, rfl, -⟩ := h
  exact List.mem_append_right _ (List.mem_cons_self ..)

theorem FirstLeast.le (h : FirstLeast rank xs x) (hy : y ∈ xs) : rank x ≤ rank y := by
  obtain ⟨l, r, rfl, hl, hr⟩ := h
  rcases List.mem_append.mp hy with hy | hy
  · exact le_of_lt (hl y hy)
  · rcases List.mem_cons.mp hy with rfl | hy
    · exact le_refl _
    · exact hr y hy

theorem places {x y : α} {l r l' r' : List α} (h : l ++ x :: r = l' ++ y :: r') : x = y ∨ x ∈ l' ∨ y ∈ l := by
  rcases List.append_eq_append_iff.mp h with ⟨between, rfl, hr⟩ | ⟨between, rfl, hr⟩
  · cases between with
    | nil => exact .inl (List.cons.inj hr).1
    | cons z between =>
        obtain ⟨rfl, -⟩ := List.cons.inj hr
        exact .inr (.inl (List.mem_append_right _ (List.mem_cons_self ..)))
  · cases between with
    | nil => exact .inl (List.cons.inj hr).1.symm
    | cons z between =>
        obtain ⟨rfl, -⟩ := List.cons.inj hr
        exact .inr (.inr (List.mem_append_right _ (List.mem_cons_self ..)))

theorem FirstLeast.unique (hx : FirstLeast rank xs x) (hy : FirstLeast rank xs y) : x = y := by
  obtain ⟨l, r, rfl, hl, hr⟩ := id hx
  obtain ⟨l', r', heq, hl', hr'⟩ := id hy
  rcases places heq with h | h | h
  · exact h
  · exact absurd (hl' x h) (not_lt.mpr (hx.le hy.mem))
  · exact absurd (hl y h) (not_lt.mpr (hy.le hx.mem))

theorem FirstLeast.of_map {f : ι → α} {is : List ι} (h : FirstLeast rank (is.map f) x) :
    ∃ i, f i = x ∧ FirstLeast (rank ∘ f) is i := by
  obtain ⟨l, r, hmap, hl, hr⟩ := h
  obtain ⟨l', rest, rfl, rfl, hrest⟩ := List.map_eq_append_iff.mp hmap
  obtain ⟨i, r', rfl, rfl, rfl⟩ := List.map_eq_cons_iff.mp hrest
  exact ⟨i, rfl, l', r', rfl, fun j hj => hl _ (List.mem_map_of_mem hj), fun j hj => hr _ (List.mem_map_of_mem hj)⟩

theorem least_cons : least rank b (x :: xs) = least rank (step rank b x) xs := rfl

theorem least_append : least rank b (xs ++ ys) = least rank (least rank b xs) ys := List.foldl_append

theorem step_le : rank (step rank b x) ≤ rank b ∧ rank (step rank b x) ≤ rank x := by
  unfold step
  split
  · next h => exact ⟨le_of_lt h, le_refl _⟩
  · next h => exact ⟨le_refl _, not_lt.mp h⟩

theorem least_le : rank (least rank b xs) ≤ rank b := by
  induction xs generalizing b with
  | nil => exact le_refl _
  | cons x xs ih => exact le_trans ih step_le.1

theorem least_cases (rank : α → β) (b : α) (xs : List α) :
    (least rank b xs = b ∧ ∀ x ∈ xs, rank b ≤ rank x) ∨
      (FirstLeast rank xs (least rank b xs) ∧ rank (least rank b xs) < rank b) := by
  induction xs generalizing b with
  | nil => exact .inl ⟨rfl, by simp⟩
  | cons x xs ih =>
      rw [least_cons]
      by_cases hx : rank x < rank b
      · have hstep : step rank b x = x := if_pos hx
        rw [hstep]
        obtain ⟨heq, hle⟩ | ⟨⟨l, r, hxs, hl, hr⟩, hlt⟩ := ih x
        · rw [heq]
          exact .inr ⟨⟨[], xs, rfl, nofun, hle⟩, hx⟩
        · refine .inr ⟨⟨x :: l, r, congrArg (x :: ·) hxs, ?_, hr⟩, lt_trans hlt hx⟩
          exact List.forall_mem_cons.mpr ⟨hlt, hl⟩
      · have hstep : step rank b x = b := if_neg hx
        rw [hstep]
        obtain ⟨heq, hle⟩ | ⟨⟨l, r, hxs, hl, hr⟩, hlt⟩ := ih b
        · exact .inl ⟨heq, List.forall_mem_cons.mpr ⟨not_lt.mp hx, hle⟩⟩
        · refine .inr ⟨⟨x :: l, r, congrArg (x :: ·) hxs, ?_, hr⟩, hlt⟩
          exact List.forall_mem_cons.mpr ⟨lt_of_lt_of_le hlt (not_lt.mp hx), hl⟩

theorem step_least (h : rank b ≤ rank w) : step rank b (least rank w xs) = least rank b xs := by
  induction xs generalizing b w with
  | nil => exact if_neg (not_lt.mpr h)
  | cons x xs ih =>
      rw [least_cons, least_cons]
      by_cases hx : rank x < rank b
      · have hb : step rank b x = x := if_pos hx
        have hw : step rank w x = x := if_pos (lt_of_lt_of_le hx h)
        rw [hb, hw]
        exact if_pos (lt_of_le_of_lt least_le hx)
      · have hb : step rank b x = b := if_neg hx
        rw [hb]
        refine ih ?_
        unfold step
        split
        · exact not_lt.mp hx
        · exact h

section Scans

def scan (rank : α → β) (perfect : α → Bool) (b : α) (xs : List α) : Except α α :=
  xs.foldlM (fun b x => if perfect x then .error x else .ok (step rank b x)) b

variable {perfect : α → Bool}

theorem foldlM_flatMap {ε σ : Type} (f : ι → List α) (g : σ → α → Except ε σ) (is : List ι) (s : σ) :
    (is.flatMap f).foldlM g s = is.foldlM (fun s i => (f i).foldlM g s) s := by
  induction is generalizing s with
  | nil => rfl
  | cons i is ih =>
      rw [List.flatMap_cons, List.foldlM_append, List.foldlM_cons]
      exact bind_congr fun s => ih s

theorem scan_error (h : scan rank perfect b xs = .error x) : x ∈ xs ∧ perfect x = true := by
  induction xs generalizing b with
  | nil => cases h
  | cons y ys ih =>
      rw [scan, List.foldlM_cons] at h
      by_cases hy : perfect y = true
      · rw [if_pos hy] at h
        cases h
        exact ⟨List.mem_cons_self .., hy⟩
      · rw [if_neg hy] at h
        obtain ⟨hmem, hperfect⟩ := ih h
        exact ⟨List.mem_cons_of_mem _ hmem, hperfect⟩

theorem scan_ok (h : scan rank perfect b xs = .ok x) : x = least rank b xs ∧ ∀ y ∈ xs, perfect y ≠ true := by
  induction xs generalizing b with
  | nil =>
      cases h
      exact ⟨rfl, nofun⟩
  | cons y ys ih =>
      rw [scan, List.foldlM_cons] at h
      by_cases hy : perfect y = true
      · rw [if_pos hy] at h
        cases h
      · rw [if_neg hy] at h
        obtain ⟨hleast, hall⟩ := ih h
        exact ⟨hleast, List.forall_mem_cons.mpr ⟨hy, hall⟩⟩

end Scans

end OiUserland.Lib.Minima

namespace OiUserland.Lib.Degradation

open Minima

variable {α ι β : Type} [LinearOrder β]

inductive Outcome (α : Type)
  | perfect (x : α)
  | qualified (x : α)
  | unqualified (best : α)

def degrade (rank : α → β) (perfect qualified : α → Bool) (worst : α → α) (trials : ι → List α) :
    List ι → α → α → Outcome α
  | [], best, _ => .unqualified best
  | i :: is, best, better =>
      match scan rank perfect (worst better) (trials i) with
      | .error x => .perfect x
      | .ok better =>
          if qualified better then .qualified better
          else degrade rank perfect qualified worst trials is (step rank best better) better

structure Graded (rank : α → β) (perfect qualified : α → Bool) (worst : α → α) (trials : ι → List α) : Prop where
  qualified_of_perfect : ∀ i, ∀ x ∈ trials i, perfect x = true → qualified x = true
  qualified_of_le : ∀ i, ∀ x ∈ trials i, ∀ y ∈ trials i, rank x ≤ rank y → qualified y = true → qualified x = true
  worst_not : ∀ b, qualified (worst b) ≠ true
  lt_worst : ∀ i b, ∀ x ∈ trials i, qualified x = true → rank x < rank (worst b)

def FirstQualified (qualified : α → Bool) (trials : ι → List α) (is : List ι) (i : ι) : Prop :=
  (∃ l r, is = l ++ i :: r ∧ ∀ j ∈ l, ∀ x ∈ trials j, qualified x ≠ true) ∧ ∃ x ∈ trials i, qualified x = true

theorem FirstQualified.cons {qualified : α → Bool} {trials : ι → List α} {is : List ι} {i j : ι}
    (hj : ∀ x ∈ trials j, qualified x ≠ true) (h : FirstQualified qualified trials is i) :
    FirstQualified qualified trials (j :: is) i := by
  obtain ⟨⟨l, r, rfl, hl⟩, hex⟩ := h
  exact ⟨⟨j :: l, r, rfl, List.forall_mem_cons.mpr ⟨hj, hl⟩⟩, hex⟩

theorem FirstQualified.unique {qualified : α → Bool} {trials : ι → List α} {is : List ι} {i j : ι}
    (hi : FirstQualified qualified trials is i) (hj : FirstQualified qualified trials is j) : i = j := by
  obtain ⟨⟨l, r, rfl, hl⟩, x, hx, hqx⟩ := hi
  obtain ⟨⟨l', r', heq, hl'⟩, y, hy, hqy⟩ := hj
  rcases places heq with hij | hmem | hmem
  · exact hij
  · exact absurd hqx (hl' i hmem x hx)
  · exact absurd hqy (hl j hmem y hy)

variable {rank : α → β} {perfect qualified : α → Bool} {worst : α → α} {trials : ι → List α}

theorem scan_qualified (hg : Graded rank perfect qualified worst trials) {i : ι} {b y : α}
    (h : scan rank perfect (worst b) (trials i) = .ok y) :
    (∀ x ∈ trials i, perfect x ≠ true) ∧
      (qualified y = true → y ∈ trials i ∧ ∀ x ∈ trials i, rank y ≤ rank x) ∧
        (qualified y ≠ true → ∀ x ∈ trials i, qualified x ≠ true) := by
  obtain ⟨rfl, hnone⟩ := scan_ok h
  refine ⟨hnone, ?_⟩
  obtain ⟨heq, hle⟩ | ⟨hfirst, -⟩ := least_cases rank (worst b) (trials i)
  · rw [heq]
    refine ⟨fun hq => absurd hq (hg.worst_not b), fun _ x hx hq => ?_⟩
    exact absurd (hg.lt_worst i b x hx hq) (not_lt.mpr (hle x hx))
  · refine ⟨fun _ => ⟨hfirst.mem, fun x hx => hfirst.le hx⟩, fun hnot x hx hq => hnot ?_⟩
    exact hg.qualified_of_le i _ hfirst.mem x hx (hfirst.le hx) hq

theorem degrade_spec (hg : Graded rank perfect qualified worst trials) (is : List ι) {best : α} (better : α)
    (hbest : ∀ b, rank best ≤ rank (worst b)) :
    match degrade rank perfect qualified worst trials is best better with
    | .perfect x => ∃ i, FirstQualified qualified trials is i ∧ x ∈ trials i ∧ perfect x = true
    | .qualified x => ∃ i, FirstQualified qualified trials is i ∧ x ∈ trials i ∧ qualified x = true ∧
        (∀ y ∈ trials i, perfect y ≠ true) ∧ ∀ y ∈ trials i, rank x ≤ rank y
    | .unqualified x => (∀ i ∈ is, ∀ y ∈ trials i, qualified y ≠ true) ∧ x = least rank best (is.flatMap trials) := by
  induction is generalizing best better with
  | nil => exact ⟨nofun, rfl⟩
  | cons i is ih =>
      cases hscan : scan rank perfect (worst better) (trials i) with
      | error x =>
          have hrun : degrade rank perfect qualified worst trials (i :: is) best better = .perfect x := by
            rw [degrade, hscan]
          rw [hrun]
          obtain ⟨hmem, hperfect⟩ := scan_error hscan
          exact ⟨i, ⟨⟨[], is, rfl, nofun⟩, x, hmem, hg.qualified_of_perfect i x hmem hperfect⟩, hmem, hperfect⟩
      | ok y =>
          obtain ⟨hnone, hyes, hno⟩ := scan_qualified hg hscan
          by_cases hq : qualified y = true
          · have hrun : degrade rank perfect qualified worst trials (i :: is) best better = .qualified y := by
              rw [degrade, hscan]
              exact if_pos hq
            rw [hrun]
            obtain ⟨hmem, hle⟩ := hyes hq
            exact ⟨i, ⟨⟨[], is, rfl, nofun⟩, y, hmem, hq⟩, hmem, hq, hnone, hle⟩
          · have hrun : degrade rank perfect qualified worst trials (i :: is) best better =
                degrade rank perfect qualified worst trials is (step rank best y) y := by
              rw [degrade, hscan]
              exact if_neg hq
            have hfewer := hno hq
            have hstep : step rank best y = least rank best (trials i) := by
              rw [(scan_ok hscan).1]
              exact step_least (hbest better)
            rw [hrun]
            have hnext := @ih (step rank best y) y fun b => le_trans step_le.1 (hbest b)
            cases houtcome : degrade rank perfect qualified worst trials is (step rank best y) y with
            | perfect x =>
                rw [houtcome] at hnext
                obtain ⟨j, hfirst, hx⟩ := hnext
                exact ⟨j, hfirst.cons hfewer, hx⟩
            | qualified x =>
                rw [houtcome] at hnext
                obtain ⟨j, hfirst, hx⟩ := hnext
                exact ⟨j, hfirst.cons hfewer, hx⟩
            | unqualified x =>
                rw [houtcome] at hnext
                obtain ⟨hnot, hx⟩ := hnext
                refine ⟨List.forall_mem_cons.mpr ⟨hfewer, hnot⟩, ?_⟩
                rw [List.flatMap_cons, least_append, ← hstep]
                exact hx

end OiUserland.Lib.Degradation

namespace OiUserland.Lib.RunningBest

variable {α : Type} {score : α → Nat} {b x : α} {xs : List α}

def better (score : α → Nat) (b x : α) : α := if score b < score x then x else b

def best (score : α → Nat) (b : α) (xs : List α) : α := xs.foldl (better score) b

end OiUserland.Lib.RunningBest
