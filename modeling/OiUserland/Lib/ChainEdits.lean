import OiUserland.Lib.DoubleLinks

namespace OiUserland.Lib.Chains

open DoubleLinks

variable {link link' : Nat → Option Nat} {a c n : Nat} {l l₁ l₂ : List Nat}

/-- Walk along the links from `a` to the cell `c`. The result is the cell in front of it, or
what is given for the start, and `none` where the list ends without it. -/
def searchLink (link : Nat → Option Nat) (c : Nat) : Nat → Nat → Nat → Option (Option Nat)
  | 0, _, a => if a = 0 then some none else none
  | n + 1, before, a =>
      if a = 0 then some none
      else if a = c then some (some before)
      else (link a).bind (searchLink link c n a)

theorem IsChain.searchLink_notMem (h : IsChain link a l) (hc : c ∉ l) (hn : l.length ≤ n) (before : Nat) :
    searchLink link c n before a = some none := by
  induction h generalizing n before with
  | nil => cases n <;> rfl
  | @cons a b l ha hb _ ih =>
      obtain ⟨n, rfl⟩ := Nat.exists_eq_add_one_of_ne_zero (n := n) (by rw [List.length_cons] at hn; omega)
      rw [List.mem_cons, not_or] at hc
      rw [searchLink, if_neg ha, if_neg (Ne.symm hc.1), hb, Option.bind_some]
      exact ih hc.2 (by simpa using hn) a

theorem IsChain.searchLink_mem (h : IsChain link a (l₁ ++ c :: l₂)) (hn : l₁.length < n) (before : Nat) :
    searchLink link c n before a = some (some (l₁.getLast?.getD before)) := by
  induction l₁ generalizing a n before with
  | nil =>
      obtain ⟨n, rfl⟩ := Nat.exists_eq_add_one_of_ne_zero (Nat.ne_of_gt hn)
      cases h with
      | cons ha _ _ =>
          rw [searchLink, if_neg ha, if_pos rfl]
          rfl
  | cons x l₁ ih =>
      obtain ⟨n, rfl⟩ := Nat.exists_eq_add_one_of_ne_zero (Nat.ne_of_gt (Nat.zero_lt_of_lt hn))
      have hnodup := h.nodup
      cases h with
      | cons ha hb ht =>
          have hxc : x ≠ c := by
            rintro rfl
            exact (List.nodup_cons.mp hnodup).1 (List.mem_append_right _ (List.mem_cons_self ..))
          rw [searchLink, if_neg ha, if_neg hxc, hb, Option.bind_some, ih ht (by simpa using hn), List.getLast?_cons]
          rfl

namespace IsChains

variable {ι : Type} [DecidableEq ι] {head : ι → Nat} {lists : ι → List Nat} {i : ι}

theorem unlinked (h : IsChains link head lists) (hi : lists i = l₁ ++ c :: l₂)
    (hbefore : ∀ e ∈ l₁.getLast?, link' e = some (l₂.headD 0))
    (hothers : ∀ d, d ≠ c → d ∉ l₁.getLast? → link' d = link d) :
    IsChains link' (Function.update head i ((l₁ ++ l₂).headD 0)) (Function.update lists i (l₁ ++ l₂)) := by
  have hchain := h.chain i
  have hnodup := hchain.nodup
  rw [hi] at hchain hnodup
  obtain ⟨hc₁, hc₂⟩ : c ∉ l₁ ∧ c ∉ l₂ := by
    rw [List.nodup_append] at hnodup
    exact ⟨fun hc => hnodup.2.2 c hc c (List.mem_cons_self ..) rfl, (List.nodup_cons.mp hnodup.2.1).1⟩
  have hsub (j : ι) (d : Nat) (hd : d ∈ Function.update lists i (l₁ ++ l₂) j) : d ∈ lists j := by
    by_cases hj : j = i
    · subst hj
      rw [Function.update_self] at hd
      rw [hi]
      exact (List.mem_append.mp hd).elim (List.mem_append_left _) fun hd => List.mem_append_right _ (List.mem_cons_of_mem _ hd)
    · rwa [Function.update_of_ne hj] at hd
  refine ⟨fun j => ?_, fun j k d hj hk => h.apart j k d (hsub j d hj) (hsub k d hk)⟩
  by_cases hj : j = i
  · subst hj
    rw [Function.update_self, Function.update_self]
    refine isChain_unlink (headD_of_isChain hchain ▸ hchain) hbefore fun d hd hlast => hothers d ?_ hlast
    rintro rfl
    exact (List.mem_append.mp hd).elim hc₁ hc₂
  · rw [Function.update_of_ne hj, Function.update_of_ne hj]
    have hout {d : Nat} (hd : d ∈ lists j) (hd' : d ∈ lists i) : False := hj (h.apart j i d hd hd')
    rw [hi] at hout
    refine (h.chain j).congr fun d hd => hothers d ?_ fun hlast => ?_
    · rintro rfl
      exact hout hd (List.mem_append_right _ (List.mem_cons_self ..))
    · exact hout hd (List.mem_append_left _ (List.mem_of_getLast? hlast))

end IsChains

end OiUserland.Lib.Chains
