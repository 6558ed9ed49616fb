import Mathlib.Data.List.Basic

namespace OiUserland.Lib.Delimited

variable {α : Type} [DecidableEq α] {d : α} {p s t : List α}

def records (d : α) (p : List α) : List α → List (List α)
  | [] => []
  | x :: s => if x = d then p :: records d [] s else records d (p ++ [x]) s

def unfinished (d : α) (p : List α) : List α → List α
  | [] => p
  | x :: s => if x = d then unfinished d [] s else unfinished d (p ++ [x]) s

theorem records_append (p s t : List α) :
    records d p (s ++ t) = records d p s ++ records d (unfinished d p s) t := by
  induction s generalizing p with
  | nil => rfl
  | cons x s ih =>
      simp only [List.cons_append, records, unfinished]
      split
      · rw [ih, List.cons_append]
      · exact ih _

theorem unfinished_append (p s t : List α) : unfinished d p (s ++ t) = unfinished d (unfinished d p s) t := by
  induction s generalizing p with
  | nil => rfl
  | cons x s ih =>
      simp only [List.cons_append, unfinished]
      split
      · exact ih _
      · exact ih _

theorem flatMap_records (p s : List α) :
    ((records d p s).flatMap fun r => r ++ [d]) ++ unfinished d p s = p ++ s := by
  induction s generalizing p with
  | nil => simp [records, unfinished]
  | cons x s ih =>
      simp only [records, unfinished]
      split
      · rename_i hx
        rw [List.flatMap_cons, List.append_assoc, ih, hx]
        simp
      · rw [ih]
        simp

theorem not_mem_unfinished (hp : d ∉ p) (s : List α) : d ∉ unfinished d p s := by
  induction s generalizing p with
  | nil => exact hp
  | cons x s ih =>
      simp only [unfinished]
      split
      · exact ih (by simp)
      · rename_i hx
        refine ih fun hin => ?_
        rcases List.mem_append.mp hin with hin | hin
        · exact hp hin
        · exact hx (List.mem_singleton.mp hin).symm

theorem records_of_not_mem (hs : d ∉ s) : records d p s = [] ∧ unfinished d p s = p ++ s := by
  induction s generalizing p with
  | nil => simp [records, unfinished]
  | cons x s ih =>
      have hx : x ≠ d := fun hx => hs (hx ▸ List.mem_cons_self ..)
      have hs' : d ∉ s := fun hin => hs (List.mem_cons_of_mem _ hin)
      simp only [records, unfinished, if_neg hx]
      obtain ⟨hrecords, hrest⟩ := ih (p := p ++ [x]) hs'
      exact ⟨hrecords, by rw [hrest, List.append_assoc, List.singleton_append]⟩

theorem records_nil (hp : d ∉ p) (s : List α) :
    records d [] (p ++ s) = records d p s ∧ unfinished d [] (p ++ s) = unfinished d p s := by
  obtain ⟨hrecords, hrest⟩ := records_of_not_mem (p := []) hp
  rw [records_append, unfinished_append, hrecords, hrest]
  exact ⟨rfl, rfl⟩

theorem records_flatMap (rs : List (List α)) (h : ∀ r ∈ rs, d ∉ r) :
    records d [] (rs.flatMap fun r => r ++ [d]) = rs ∧ unfinished d [] (rs.flatMap fun r => r ++ [d]) = [] := by
  induction rs with
  | nil => exact ⟨rfl, rfl⟩
  | cons r rs ih =>
      obtain ⟨hrecords, hrest⟩ := ih fun r hr => h r (List.mem_cons_of_mem _ hr)
      obtain ⟨hr, hr'⟩ := records_nil (h r (List.mem_cons_self ..)) (d :: rs.flatMap fun r => r ++ [d])
      rw [List.flatMap_cons, List.append_assoc, List.singleton_append, hr, hr']
      simp only [records, unfinished, if_pos, hrecords, hrest, and_self]

end OiUserland.Lib.Delimited
