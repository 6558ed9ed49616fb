
namespace OiUserland.Lib.Leftovers

variable {α : Type} {own own' : Nat → Bool} {i i' : Nat} {ls as bs : List α}

def leftovers (own : Nat → Bool) (i : Nat) : List α → List α
  | [] => []
  | l :: ls => if own i then leftovers own (i + 1) ls else l :: leftovers own (i + 1) ls

theorem leftovers_append : leftovers own i (as ++ bs) = leftovers own i as ++ leftovers own (i + as.length) bs := by
  induction as generalizing i with
  | nil => rfl
  | cons a as ih =>
      have hlength : i + (a :: as).length = i + 1 + as.length := by
        rw [List.length_cons]
        omega
      rw [List.cons_append, leftovers, leftovers, ih, hlength]
      split
      · rfl
      · rw [List.cons_append]

theorem leftovers_congr (h : ∀ p, p < ls.length → own (i + p) = own' (i' + p)) :
    leftovers own i ls = leftovers own' i' ls := by
  induction ls generalizing i i' with
  | nil => rfl
  | cons l ls ih =>
      have hfirst : own i = own' i' := h 0 (Nat.zero_lt_succ _)
      have hrest : ∀ p, p < ls.length → own (i + 1 + p) = own' (i' + 1 + p) := fun p hp => by
        have hnext := h (p + 1) (Nat.succ_lt_succ hp)
        rwa [Nat.add_assoc, Nat.add_assoc, Nat.add_comm 1 p]
      rw [leftovers, leftovers, hfirst, ih hrest]

theorem leftovers_owned (h : ∀ p, p < ls.length → own (i + p) = true) : leftovers own i ls = [] := by
  induction ls generalizing i with
  | nil => rfl
  | cons l ls ih =>
      have hfirst : own i = true := h 0 (Nat.zero_lt_succ _)
      rw [leftovers, if_pos hfirst]
      refine ih fun p hp => ?_
      rw [Nat.add_assoc, Nat.add_comm 1 p]
      exact h (p + 1) (Nat.succ_lt_succ hp)

theorem leftovers_replaced {above old new below : List α}
    (habove : ∀ p, p < above.length → own p = own' p)
    (hold : ∀ p, p < old.length → own (above.length + p) = true)
    (hnew : ∀ p, p < new.length → own' (above.length + p) = true)
    (hbelow : ∀ p, p < below.length → own (above.length + old.length + p) = own' (above.length + new.length + p)) :
    leftovers own 0 (above ++ (old ++ below)) = leftovers own' 0 (above ++ (new ++ below)) := by
  have hsame : leftovers own 0 above = leftovers own' 0 above := leftovers_congr fun p hp => by
    rw [Nat.zero_add]
    exact habove p hp
  rw [leftovers_append, leftovers_append, leftovers_append, leftovers_append, Nat.zero_add, hsame,
    leftovers_owned hold,
    leftovers_owned hnew, leftovers_congr hbelow]

end OiUserland.Lib.Leftovers
