import Mathlib.Logic.Function.Basic
import Mathlib.Logic.Relation

namespace OiUserland.Lib.Claims

structure Board (ι κ : Type) where
  table : ι → Option κ
  holds : κ → Option (Option ι)

variable {ι κ : Type}

def Symmetric (b : Board ι κ) : Prop := ∀ i h, b.table i = some h ↔ b.holds h = some (some i)

variable [DecidableEq ι] [DecidableEq κ]

inductive Move : Board ι κ → Board ι κ → Prop
  | enter {b : Board ι κ} (h : κ) (hh : b.holds h = none) :
      Move b ⟨b.table, Function.update b.holds h (some none)⟩
  | leave {b : Board ι κ} (h : κ) (hh : b.holds h = some none) :
      Move b ⟨b.table, Function.update b.holds h none⟩
  | claim {b : Board ι κ} (h : κ) (i : ι) (hh : b.holds h = some none) (hi : b.table i = none) :
      Move b ⟨Function.update b.table i (some h), Function.update b.holds h (some (some i))⟩
  | release {b : Board ι κ} (h : κ) (i : ι) (hh : b.holds h = some (some i)) :
      Move b ⟨Function.update b.table i none, Function.update b.holds h (some none)⟩

def Moves : Board ι κ → Board ι κ → Prop := Relation.ReflTransGen Move

theorem Symmetric.move {b b' : Board ι κ} (hs : Symmetric b) (hm : Move b b') : Symmetric b' := by
  cases hm with
  | enter h hh =>
      intro j k
      show b.table j = some k ↔ Function.update b.holds h (some none) k = some (some j)
      by_cases hk : k = h
      · subst hk
        simp [hs j k, hh]
      · rw [Function.update_of_ne hk, hs j k]
  | leave h hh =>
      intro j k
      show b.table j = some k ↔ Function.update b.holds h none k = some (some j)
      by_cases hk : k = h
      · subst hk
        simp [hs j k, hh]
      · rw [Function.update_of_ne hk, hs j k]
  | claim h i hh hi =>
      intro j k
      show Function.update b.table i (some h) j = some k ↔
        Function.update b.holds h (some (some i)) k = some (some j)
      by_cases hk : k = h
      · subst hk
        by_cases hj : j = i
        · subst hj
          simp
        · rw [Function.update_of_ne hj, Function.update_self, hs j k, hh]
          simp [Ne.symm hj]
      · by_cases hj : j = i
        · subst hj
          rw [Function.update_self, Function.update_of_ne hk, ← hs j k, hi]
          simp [Ne.symm hk]
        · rw [Function.update_of_ne hj, Function.update_of_ne hk, hs j k]
  | release h i hh =>
      intro j k
      show Function.update b.table i none j = some k ↔ Function.update b.holds h (some none) k = some (some j)
      have hi : b.table i = some h := (hs i h).mpr hh
      by_cases hk : k = h
      · subst hk
        by_cases hj : j = i
        · subst hj
          simp
        · rw [Function.update_of_ne hj, Function.update_self, hs j k, hh]
          simp [Ne.symm hj]
      · by_cases hj : j = i
        · subst hj
          rw [Function.update_self, Function.update_of_ne hk, ← hs j k, hi]
          simp [Ne.symm hk]
        · rw [Function.update_of_ne hj, Function.update_of_ne hk, hs j k]

theorem Symmetric.moves {b b' : Board ι κ} (hs : Symmetric b) (hm : Moves b b') : Symmetric b' := by
  induction hm with
  | refl => exact hs
  | tail _ h ih => exact ih.move h

end OiUserland.Lib.Claims
