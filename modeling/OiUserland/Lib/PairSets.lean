import Mathlib.Data.Set.Card

namespace OiUserland.Lib.PairSets

open Classical

variable {α β : Type} {q : α × β} {S : Set (α × β)} {P : α × β → Prop}

noncomputable def add (q : α × β) (S : Set (α × β)) : Set (α × β) × Int :=
  if q ∈ S then (S, 1) else (insert q S, 0)

noncomputable def remove (q : α × β) (S : Set (α × β)) : Set (α × β) × Int :=
  if q ∈ S then (S \ {q}, 0) else (S, -1)

noncomputable def removeAll (P : α × β → Prop) (S : Set (α × β)) : Set (α × β) × Int :=
  if ∃ q ∈ S, P q then (S \ {q | P q}, ({q ∈ S | P q}.ncard : Int)) else (S, -1)

theorem add_of_mem (h : q ∈ S) : add q S = (S, 1) := if_pos h

theorem add_of_notMem (h : q ∉ S) : add q S = (insert q S, 0) := if_neg h

theorem remove_of_mem (h : q ∈ S) : remove q S = (S \ {q}, 0) := if_pos h

theorem remove_of_notMem (h : q ∉ S) : remove q S = (S, -1) := if_neg h

theorem insert_ne (h : q ∉ S) : insert q S ≠ S := fun he => h (Set.insert_eq_self.mp he)

theorem sdiff_ne (h : q ∈ S) (hp : P q) : S \ {q | P q} ≠ S := by
  intro he
  rw [← he] at h
  exact h.2 hp

theorem ncard_list {γ : Type} {l : List γ} (h : l.Nodup) {T : Set γ} (hT : ∀ x, x ∈ T ↔ x ∈ l) :
    T.ncard = l.length := by
  have heq : T = ↑l.toFinset := by
    ext x
    rw [hT, Finset.mem_coe, List.mem_toFinset]
  rw [heq, Set.ncard_coe_finset, List.toFinset_card_of_nodup h]

theorem removeAll_list {l : List (α × β)} (h : l.Nodup) (hl : ∀ q, q ∈ l ↔ q ∈ S ∧ P q) :
    removeAll P S = (S \ {q | P q}, if l = [] then -1 else (l.length : Int)) := by
  have hcard : {q ∈ S | P q}.ncard = l.length := ncard_list h fun q => (hl q).symm
  by_cases hnil : l = []
  · have hnone : ¬ ∃ q ∈ S, P q := by
      intro ⟨q, hq, hp⟩
      have hmem := (hl q).mpr ⟨hq, hp⟩
      rw [hnil] at hmem
      cases hmem
    have hsdiff : S \ {q | P q} = S := by
      ext q
      exact ⟨fun hq => hq.1, fun hq => ⟨hq, fun hp => hnone ⟨q, hq, hp⟩⟩⟩
    rw [removeAll, if_neg hnone, if_pos hnil, hsdiff]
  · obtain ⟨q, hq⟩ := List.exists_mem_of_ne_nil l hnil
    rw [removeAll, if_pos ⟨q, (hl q).mp hq⟩, if_neg hnil, hcard]

end OiUserland.Lib.PairSets
