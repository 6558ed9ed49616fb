import Mathlib.Data.Nat.Bitwise

namespace OiUserland.Lib.Bitcounts

variable {α : Type} {m n i : Nat}

def clearLowest (mask : Nat) : Nat := mask &&& (mask - 1)

theorem clearLowest_lt (h : m ≠ 0) : clearLowest m < m :=
  Nat.lt_of_le_of_lt Nat.and_le_right (Nat.sub_lt (Nat.pos_of_ne_zero h) Nat.one_pos)

/-- How often the lowest bit can be cleared. -/
def count (mask : Nat) : Nat :=
  if _h : mask = 0 then 0 else count (clearLowest mask) + 1
termination_by mask
decreasing_by exact clearLowest_lt _h

theorem count_zero : count 0 = 0 := by rw [count, dif_pos rfl]

theorem clearLowest_odd (n : Nat) : clearLowest (2 * n + 1) = 2 * n := by
  unfold clearLowest
  rw [Nat.add_sub_cancel]
  apply Nat.eq_of_testBit_eq
  intro i
  rw [Nat.testBit_and]
  cases i with
  | zero => simp
  | succ i => simp [Nat.testBit_succ, show (2 * n + 1) / 2 = n by omega]

theorem clearLowest_even (n : Nat) : clearLowest (2 * n) = 2 * clearLowest n := by
  unfold clearLowest
  apply Nat.eq_of_testBit_eq
  intro i
  rw [Nat.testBit_and]
  cases i with
  | zero => simp
  | succ i => simp [Nat.testBit_succ, show (2 * n - 1) / 2 = n - 1 by omega]

theorem count_even (n : Nat) : count (2 * n) = count n := by
  induction n using Nat.strong_induction_on with
  | _ n ih =>
      by_cases hn : n = 0
      · rw [hn]
      · rw [count, dif_neg (by omega), clearLowest_even, ih _ (clearLowest_lt hn)]
        conv_rhs => rw [count, dif_neg hn]

theorem count_odd (n : Nat) : count (2 * n + 1) = count n + 1 := by
  rw [count, dif_neg (Nat.succ_ne_zero _), clearLowest_odd, count_even]

theorem count_or_two_pow (h : m.testBit i = false) : count (m ||| 2 ^ i) = count m + 1 := by
  induction i generalizing m with
  | zero =>
      have hm : m = 2 * (m / 2) := by
        rw [Nat.testBit_zero, decide_eq_false_iff_not] at h
        omega
      have hor : m ||| 2 ^ 0 = 2 * (m / 2) + 1 := by
        apply Nat.eq_of_testBit_eq
        intro j
        cases j with
        | zero => simp
        | succ j => simp [Nat.testBit_succ, show (2 * (m / 2) + 1) / 2 = m / 2 by omega, Nat.or_div_two]
      rw [hor, count_odd]
      conv_rhs => rw [hm, count_even]
  | succ i ih =>
      rw [Nat.testBit_succ] at h
      have hhalf : (m ||| 2 ^ (i + 1)) / 2 = m / 2 ||| 2 ^ i := by
        rw [Nat.or_div_two, Nat.pow_succ, Nat.mul_div_cancel _ Nat.two_pos]
      have hlow : (m ||| 2 ^ (i + 1)) % 2 = m % 2 := by
        have hbit : (m ||| 2 ^ (i + 1)).testBit 0 = m.testBit 0 := by
          rw [Nat.testBit_or, Nat.testBit_two_pow_of_ne (Nat.succ_ne_zero i), Bool.or_false]
        simp only [Nat.testBit_zero, decide_eq_decide] at hbit
        omega
      have hcount (k : Nat) : count k = count (k / 2) + k % 2 := by
        rcases Nat.mod_two_eq_zero_or_one k with hk | hk
        · have heven : k = 2 * (k / 2) := by omega
          conv_lhs => rw [heven, count_even]
          rw [hk, Nat.add_zero]
        · have hodd : k = 2 * (k / 2) + 1 := by omega
          conv_lhs => rw [hodd, count_odd]
          rw [hk]
      rw [hcount, hhalf, hlow, ih h, hcount m]
      omega

def lowest (mask : Nat) : Nat := mask - clearLowest mask

def seek (target mask pos : Nat) : Option Nat :=
  if _h : mask = 0 then none
  else if lowest mask = target then some pos
  else seek target (clearLowest mask) (pos + 1)
termination_by mask
decreasing_by exact clearLowest_lt _h

theorem lowest_odd (n : Nat) : lowest (2 * n + 1) = 1 := by
  rw [lowest, clearLowest_odd]
  omega

theorem lowest_even (n : Nat) : lowest (2 * n) = 2 * lowest n := by
  rw [lowest, lowest, clearLowest_even]
  omega

theorem seek_even (target n pos : Nat) : seek (2 * target) (2 * n) pos = seek target n pos := by
  induction n using Nat.strong_induction_on generalizing pos with
  | _ n ih =>
      by_cases hn : n = 0
      · rw [seek, dif_pos (by omega), seek, dif_pos hn]
      · conv_rhs => rw [seek, dif_neg hn, ← ih _ (clearLowest_lt hn)]
        rw [seek, dif_neg (by omega), lowest_even, clearLowest_even]
        by_cases ht : lowest n = target
        · rw [if_pos ht, if_pos (by omega)]
        · rw [if_neg ht, if_neg (by omega)]

theorem seek_two_pow (h : m.testBit i = true) (pos : Nat) : seek (2 ^ i) m pos = some (pos + count (m % 2 ^ i)) := by
  induction i generalizing m pos with
  | zero =>
      rw [Nat.testBit_zero, decide_eq_true_eq] at h
      have hm : m = 2 * (m / 2) + 1 := by omega
      rw [seek, dif_neg (by omega), Nat.pow_zero, Nat.mod_one, count_zero]
      conv_lhs => rw [hm, lowest_odd]
      rw [if_pos rfl, Nat.add_zero]
  | succ i ih =>
      rw [Nat.testBit_succ] at h
      have hpow : 2 ^ (i + 1) = 2 * 2 ^ i := by rw [Nat.pow_succ, Nat.mul_comm]
      have hmod : m % 2 ^ (i + 1) = m % 2 + 2 * (m / 2 % 2 ^ i) := by rw [hpow, Nat.mod_mul]
      rcases Nat.mod_two_eq_zero_or_one m with hlow | hlow
      · have hm : m = 2 * (m / 2) := by omega
        rw [hmod, hlow, Nat.zero_add, count_even, ← ih h pos, hpow]
        conv_lhs => rw [hm, seek_even]
      · have hm : m = 2 * (m / 2) + 1 := by omega
        have hne : ¬ 1 = 2 * 2 ^ i := by omega
        have hodd : seek (2 * 2 ^ i) (2 * (m / 2) + 1) pos = seek (2 ^ i) (m / 2) (pos + 1) := by
          rw [seek, dif_neg (Nat.succ_ne_zero _), lowest_odd, if_neg hne, clearLowest_odd, seek_even]
        rw [hmod, hlow, Nat.add_comm 1, count_odd, hpow]
        conv_lhs => rw [hm, hodd, ih h]
        rw [Nat.add_assoc, Nat.add_comm 1]

section Masks

variable (index : α → Nat) (p : α → Bool)

def maskFrom (m : Nat) (xs : List α) : Nat := xs.foldl (fun m x => if p x then m ||| 2 ^ index x else m) m

variable {index p} {xs : List α}

theorem testBit_maskFrom :
    (maskFrom index p m xs).testBit i = true ↔ m.testBit i = true ∨ ∃ x ∈ xs, p x = true ∧ index x = i := by
  induction xs generalizing m with
  | nil => simp [maskFrom]
  | cons x xs ih =>
      rw [maskFrom, List.foldl_cons]
      change (maskFrom index p _ xs).testBit i = true ↔ _
      rw [ih]
      by_cases hx : p x = true
      · simp only [hx, if_true, Nat.testBit_or, Bool.or_eq_true, Nat.testBit_two_pow, decide_eq_true_eq,
          List.mem_cons, exists_eq_or_imp, true_and, or_assoc]
      · simp [hx]

theorem count_maskFrom (hindex : Function.Injective index) (hnodup : xs.Nodup)
    (hm : ∀ x ∈ xs, m.testBit (index x) = false) : count (maskFrom index p m xs) = count m + xs.countP p := by
  induction xs generalizing m with
  | nil => rfl
  | cons x xs ih =>
      obtain ⟨hx, hxs⟩ := List.nodup_cons.mp hnodup
      obtain ⟨hmx, hmxs⟩ := List.forall_mem_cons.mp hm
      rw [maskFrom, List.foldl_cons]
      change count (maskFrom index p _ xs) = _
      by_cases hp : p x = true
      · rw [if_pos hp, List.countP_cons_of_pos hp, ih hxs, count_or_two_pow hmx]
        · omega
        · intro y hy
          have hne : index x ≠ index y := fun h => hx (hindex h ▸ hy)
          rw [Nat.testBit_or, hmxs y hy, Nat.testBit_two_pow_of_ne hne, Bool.or_false]
      · rw [if_neg hp, List.countP_cons_of_neg hp, ih hxs hmxs]

end Masks

end OiUserland.Lib.Bitcounts
