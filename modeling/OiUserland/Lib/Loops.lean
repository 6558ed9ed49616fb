import Mathlib.Algebra.Group.Nat.Defs

namespace OiUserland.Lib.Halvings

variable {State : Type} {body : State → Nat → Option State} {fuel k : Nat} {s : State}

end OiUserland.Lib.Halvings

namespace OiUserland.Lib.Loops

variable {State Item Round : Type}

inductive Verdict (State : Type)
  | next (s : State)
  | stop (s : State)
  | raised
  deriving DecidableEq

/-- How a loop over some items ends: behind the last item, at a break or with an
exception. -/
inductive Ending (State : Type)
  | exhausted (s : State)
  | stopped (s : State)
  | raised
  deriving DecidableEq

def loop (body : State → Item → Round × Verdict State) : State → List Item → List Round × Ending State
  | s, [] => ([], .exhausted s)
  | s, a :: as =>
      match body s a with
      | (r, .next s') => (r :: (loop body s' as).1, (loop body s' as).2)
      | (r, .stop s') => ([r], .stopped s')
      | (r, .raised) => ([r], .raised)

section Rules

variable {body : State → Item → Round × Verdict State} {s s' : State} {a : Item} {l : List Item} {r : Round}

theorem loop_next (h : body s a = (r, .next s')) :
    loop body s (a :: l) = (r :: (loop body s' l).1, (loop body s' l).2) := by
  rw [loop, h]

theorem loop_stop (h : body s a = (r, .stop s')) : loop body s (a :: l) = ([r], .stopped s') := by
  rw [loop, h]

theorem loop_raised (h : body s a = (r, .raised)) : loop body s (a :: l) = ([r], .raised) := by
  rw [loop, h]

theorem getLast?_cons_of_some {α : Type} {x y : α} {l : List α} (h : l.getLast? = some y) :
    (x :: l).getLast? = some y := by
  rw [List.getLast?_cons, h]
  rfl

theorem loop_no_round (h : (loop body s l).1 = []) : (loop body s l).2 = .exhausted s ∧ l = [] := by
  cases l with
  | nil => exact ⟨rfl, rfl⟩
  | cons a l =>
      rcases hb : body s a with ⟨r, s' | s' | _⟩
      · rw [loop_next hb] at h
        cases h
      · rw [loop_stop hb] at h
        cases h
      · rw [loop_raised hb] at h
        cases h

theorem last_of_cons (hne : (loop body s l).1 ≠ []) {p q : Item × Round}
    (h : (p :: l.zip (loop body s l).1).getLast? = some q) : (l.zip (loop body s l).1).getLast? = some q := by
  rw [List.getLast?_cons] at h
  cases hz : (l.zip (loop body s l).1).getLast? with
  | none =>
      rw [List.getLast?_eq_none_iff, List.zip_eq_nil_iff] at hz
      rcases hz with hz | hz
      · rw [hz] at hne
        exact absurd rfl hne
      · exact absurd hz hne
  | some q' =>
      rw [hz] at h
      exact h

/-- The invariant rule for a break: it stands in the last round, which began with
the invariant. -/
theorem loop_stopped (Inv : State → Prop) (hnext : ∀ s a r s', Inv s → body s a = (r, .next s') → Inv s')
    (hs : Inv s) {t : State} (h : (loop body s l).2 = .stopped t) :
    ∃ a r s', (l.zip (loop body s l).1).getLast? = some (a, r) ∧ Inv s' ∧ body s' a = (r, .stop t) := by
  induction l generalizing s with
  | nil => cases h
  | cons a l ih =>
      rcases hb : body s a with ⟨r, s' | s' | _⟩
      · rw [loop_next hb] at h ⊢
        obtain ⟨b, r', t', hlast, hinv, hbody⟩ := ih (hnext _ _ _ _ hs hb) h
        exact ⟨b, r', t', getLast?_cons_of_some hlast, hinv, hbody⟩
      · rw [loop_stop hb] at h ⊢
        cases h
        exact ⟨a, r, s, by cases l <;> rfl, hs, hb⟩
      · rw [loop_raised hb] at h
        cases h

theorem loop_exhausted (Inv : State → Prop) (hnext : ∀ s a r s', Inv s → body s a = (r, .next s') → Inv s')
    (hs : Inv s) {t : State} (h : (loop body s l).2 = .exhausted t) : Inv t := by
  induction l generalizing s with
  | nil =>
      cases h
      exact hs
  | cons a l ih =>
      rcases hb : body s a with ⟨r, s' | s' | _⟩
      · rw [loop_next hb] at h
        exact ih (hnext _ _ _ _ hs hb) h
      · rw [loop_stop hb] at h
        cases h
      · rw [loop_raised hb] at h
        cases h

end Rules

end OiUserland.Lib.Loops
