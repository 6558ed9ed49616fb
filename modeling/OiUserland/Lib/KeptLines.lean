
namespace OiUserland.Lib.KeptLines

variable {α : Type} {d : α} {s l : List α} {ls as bs : List (List α)}

def Ended (d : α) (l : List α) : Prop := l.getLast? = some d

instance [DecidableEq α] : Decidable (Ended d l) := inferInstanceAs (Decidable (_ = _))

def Kept (d : α) : List (List α) → Prop
  | [] => True
  | l :: ls => l ≠ [] ∧ d ∉ l.dropLast ∧ (ls ≠ [] → Ended d l) ∧ Kept d ls

theorem Kept.sublist (h : Kept d ls) (hs : as.Sublist ls) : Kept d as := by
  induction hs with
  | slnil => exact h
  | cons l hs ih => exact ih h.2.2.2
  | cons_cons l hs ih =>
      refine ⟨h.1, h.2.1, fun hne => h.2.2.1 fun hnil => hne ?_, ih h.2.2.2⟩
      subst hnil
      exact List.sublist_nil.mp hs

theorem Kept.append (ha : Kept d as) (hb : Kept d bs) (he : ∀ l ∈ as, Ended d l) : Kept d (as ++ bs) := by
  induction as with
  | nil => exact hb
  | cons l as ih =>
      exact ⟨ha.1, ha.2.1, fun _ => he l (List.mem_cons_self ..),
        ih ha.2.2.2 fun l' hl' => he l' (List.mem_cons_of_mem _ hl')⟩

theorem Kept.ended (h : Kept d (as ++ bs)) (hb : bs ≠ []) : ∀ l ∈ as, Ended d l := by
  induction as with
  | nil => simp
  | cons l as ih =>
      refine List.forall_mem_cons.mpr ⟨h.2.2.1 ?_, ih h.2.2.2⟩
      simp [hb]

section Reading

variable [DecidableEq α]

/-- The lines of a text, each with the delimiter that ends it. The last line may lack it. -/
def lines (d : α) : List α → List (List α)
  | [] => []
  | x :: s =>
    if x = d then [x] :: lines d s
    else match lines d s with
      | [] => [[x]]
      | l :: ls => (x :: l) :: ls

theorem lines_ended (hd : d ∉ l.dropLast) (he : Ended d l) (s : List α) :
    lines d (l ++ s) = l :: lines d s := by
  induction l with
  | nil => cases he
  | cons x l ih =>
      cases l with
      | nil =>
          have hx : x = d := by simpa [Ended] using he
          simp [lines, hx]
      | cons y l =>
          rw [List.dropLast_cons_of_ne_nil (by simp)] at hd
          simp only [List.mem_cons, not_or] at hd
          have he' : Ended d (y :: l) := by
            rw [Ended, ← List.getLast?_cons_of_ne_nil (x := x) (List.cons_ne_nil y l)]
            exact he
          rw [List.cons_append, lines, if_neg (Ne.symm hd.1), ih hd.2 he']

theorem lines_last (hl : l ≠ []) (hd : d ∉ l.dropLast) : lines d l = [l] := by
  induction l with
  | nil => exact absurd rfl hl
  | cons x l ih =>
      cases l with
      | nil => simp [lines]
      | cons y l =>
          rw [List.dropLast_cons_of_ne_nil (by simp)] at hd
          simp only [List.mem_cons, not_or] at hd
          rw [lines, if_neg (Ne.symm hd.1), ih (by simp) hd.2]

theorem lines_flatten (h : Kept d ls) : lines d ls.flatten = ls := by
  induction ls with
  | nil => rfl
  | cons l ls ih =>
      obtain ⟨hl, hd, hend, hls⟩ := h
      by_cases hne : ls = []
      · rw [hne]
        simpa using lines_last hl hd
      · rw [List.flatten_cons, lines_ended hd (hend hne), ih hls]

end Reading

end OiUserland.Lib.KeptLines
