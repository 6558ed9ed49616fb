import Mathlib.Data.List.Nodup

namespace OiUserland.Lib.Partitions

variable {α β : Type} [DecidableEq α]

theorem perm_append_iff {f g f' g' : List α} (hf : f ⊆ f') (hg : g ⊆ g') (hnd : (f' ++ g').Nodup) :
    (f ++ g).Perm (f' ++ g') ↔ f.Perm f' ∧ g.Perm g' := by
  constructor
  · intro h
    have hcount (x : α) : f.count x + g.count x = f'.count x + g'.count x := by
      rw [← List.count_append, ← List.count_append]
      exact List.perm_iff_count.mp h x
    have hdisj := List.disjoint_of_nodup_append hnd
    have hzero {l l' : List α} (hsub : l ⊆ l') {x : α} (hx : x ∉ l') : l.count x = 0 ∧ l'.count x = 0 :=
      ⟨List.count_eq_zero.mpr fun hl => hx (hsub hl), List.count_eq_zero.mpr hx⟩
    refine ⟨List.perm_iff_count.mpr fun x => ?_, List.perm_iff_count.mpr fun x => ?_⟩
    · by_cases hx : x ∈ f'
      · have := hcount x
        have := hzero hg (hdisj hx)
        omega
      · rw [(hzero hf hx).1, (hzero hf hx).2]
    · by_cases hx : x ∈ g'
      · have := hcount x
        have := hzero hf fun hx' => hdisj hx' hx
        omega
      · rw [(hzero hg hx).1, (hzero hg hx).2]
  · exact fun h => h.1.append h.2

omit [DecidableEq α] in
theorem flatMap_subset {l : List β} {f g : β → List α} (hsub : ∀ a ∈ l, f a ⊆ g a) : l.flatMap f ⊆ l.flatMap g := by
  intro x hx
  obtain ⟨b, hb, hx⟩ := List.mem_flatMap.mp hx
  exact List.mem_flatMap.mpr ⟨b, hb, hsub b hb hx⟩

theorem perm_flatMap_iff {l : List β} {f g : β → List α} (hsub : ∀ a ∈ l, f a ⊆ g a) (hnd : (l.flatMap g).Nodup) :
    (l.flatMap f).Perm (l.flatMap g) ↔ ∀ a ∈ l, (f a).Perm (g a) := by
  induction l with
  | nil => simp
  | cons a l ih =>
      rw [List.flatMap_cons, List.flatMap_cons] at *
      have hsub' : ∀ a ∈ l, f a ⊆ g a := fun a ha => hsub a (List.mem_cons_of_mem _ ha)
      rw [perm_append_iff (hsub a List.mem_cons_self) (flatMap_subset hsub') hnd, ih hsub' hnd.of_append_right, List.forall_mem_cons]

theorem perm_parts_iff {l : List β} {f g : β → List α} {P : β → Prop} (hsub : ∀ a ∈ l, f a ⊆ g a)
    (hpart : ∀ a ∈ l, (g a).Nodup → ((f a).Perm (g a) ↔ P a)) (hnd : (l.flatMap g).Nodup) :
    (l.flatMap f).Perm (l.flatMap g) ↔ ∀ a ∈ l, P a := by
  rw [perm_flatMap_iff hsub hnd]
  refine forall₂_congr fun a ha => hpart a ha ?_
  exact hnd.sublist (List.sublist_flatten_of_mem (List.mem_map_of_mem ha))

omit [DecidableEq α] in
theorem perm_behind_iff {f g xs : List α} : (f ++ xs).Perm (xs ++ g) ↔ f.Perm g :=
  ⟨fun h => (List.perm_append_left_iff xs).mp (List.perm_append_comm.trans h),
    fun h => List.perm_append_comm.trans (h.append_left xs)⟩

omit [DecidableEq α] in
theorem flatMap_set {l : List β} {f : β → List α} {i : Nat} {a b : β} (hi : l[i]? = some a) (ha : f a = []) :
    ((l.set i b).flatMap f).Perm (f b ++ l.flatMap f) := by
  induction l generalizing i with
  | nil => cases hi
  | cons c l ih =>
      cases i with
      | zero =>
          obtain rfl : c = a := Option.some.inj hi
          rw [List.set_cons_zero, List.flatMap_cons, List.flatMap_cons, ha, List.nil_append]
      | succ i =>
          rw [List.set_cons_succ, List.flatMap_cons, List.flatMap_cons]
          have h := ih (i := i) (by simpa using hi)
          calc (f c ++ (l.set i b).flatMap f).Perm (f c ++ (f b ++ l.flatMap f)) := h.append_left (f c)
            _ = (f c ++ f b) ++ l.flatMap f := (List.append_assoc ..).symm
            List.Perm _ ((f b ++ f c) ++ l.flatMap f) := List.perm_append_comm.append_right _
            _ = f b ++ (f c ++ l.flatMap f) := List.append_assoc ..

end OiUserland.Lib.Partitions
