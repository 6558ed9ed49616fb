import Mathlib.Logic.Relation

namespace OiUserland.Lib.Cycles

open Relation

variable {α : Type} {R R' : α → α → Prop}

def Acyclic (R : α → α → Prop) : Prop := ∀ x, ¬ TransGen R x x

theorem Acyclic.mono (h : Acyclic R) (hsub : ∀ a b, R' a b → R a b) : Acyclic R' := fun x hx =>
  h x (TransGen.mono hsub _ _ hx)

theorem transGen_insert {p c : α} (hsub : ∀ a b, R' a b → R a b ∨ (a = p ∧ b = c)) {a b : α}
    (h : TransGen R' a b) : TransGen R a b ∨ (ReflTransGen R a p ∧ ReflTransGen R c b) := by
  induction h with
  | single hab =>
      rcases hsub _ _ hab with hab | ⟨rfl, rfl⟩
      · exact .inl (.single hab)
      · exact .inr ⟨.refl, .refl⟩
  | tail _ hbc ih =>
      rcases hsub _ _ hbc with hbc | ⟨rfl, rfl⟩
      · rcases ih with ih | ⟨hap, hcb⟩
        · exact .inl (ih.tail hbc)
        · exact .inr ⟨hap, hcb.tail hbc⟩
      · rcases ih with ih | ⟨hap, -⟩
        · exact .inr ⟨ih.to_reflTransGen, .refl⟩
        · exact .inr ⟨hap, .refl⟩

theorem Acyclic.insert {p c : α} (h : Acyclic R) (hsub : ∀ a b, R' a b → R a b ∨ (a = p ∧ b = c))
    (hnew : ¬ ReflTransGen R c p) : Acyclic R' := by
  intro x hx
  rcases transGen_insert hsub hx with hx | ⟨hxp, hcx⟩
  · exact h x hx
  · exact hnew (hcx.trans hxp)

theorem transGen_vertex {j : α} (hsub : ∀ a b, R' a b → a ≠ j → b ≠ j → R a b) {a b : α}
    (h : TransGen R' a b) : TransGen R a b ∨ (ReflTransGen R' a j ∧ ReflTransGen R' j b) := by
  induction h with
  | @single b hab =>
      by_cases ha : a = j
      · exact .inr ⟨ha ▸ .refl, ha ▸ .single hab⟩
      · by_cases hb : b = j
        · exact .inr ⟨hb ▸ .single hab, hb ▸ .refl⟩
        · exact .inl (.single (hsub a b hab ha hb))
  | @tail b c hab hbc ih =>
      by_cases hb : b = j
      · exact .inr ⟨hb ▸ hab.to_reflTransGen, hb ▸ .single hbc⟩
      · by_cases hc : c = j
        · exact .inr ⟨hc ▸ (hab.tail hbc).to_reflTransGen, hc ▸ .refl⟩
        · rcases ih with ih | ⟨haj, hjb⟩
          · exact .inl (ih.tail (hsub b c hbc hb hc))
          · exact .inr ⟨haj, hjb.tail hbc⟩

theorem Acyclic.vertex {j : α} (h : Acyclic R) (hsub : ∀ a b, R' a b → a ≠ j → b ≠ j → R a b)
    (hj : ¬ TransGen R' j j) : Acyclic R' := by
  intro x hx
  rcases transGen_vertex hsub hx with hx' | ⟨hxj, hjx⟩
  · exact h x hx'
  · rcases reflTransGen_iff_eq_or_transGen.mp hjx with rfl | hjx
    · exact hj hx
    · exact hj (hjx.trans_left hxj)

end OiUserland.Lib.Cycles
