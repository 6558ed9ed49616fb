import Mathlib.Data.ENat.Basic

namespace OiUserland.Lib.Episodes

variable {α : Type} [LinearOrder α] [OrderBot α] {r : Nat → α} {t : Nat → Option α} {N : ℕ∞} {m n : Nat}

def Bad (r : Nat → α) (m n : Nat) : Prop := ∀ k, m ≤ k → k < n → r k ≠ ⊥

/-- Reports of the first `N` samples: the first of an episode of bad samples, each that is
worse than all that is reported of its episode, and the first good one behind it. -/
structure Law (r : Nat → α) (t : Nat → Option α) (N : ℕ∞) : Prop where
  reports : ∀ n : Nat, n < N → r n ≠ ⊥ → (∀ m < n, Bad r m n → ∀ s, t m = some s → s < r n) → t n = some (r n)
  repeats : ∀ n : Nat, n < N → r n ≠ ⊥ → (∃ m < n, Bad r m n ∧ ∃ s, t m = some s ∧ r n ≤ s) → t n = none
  closes : ∀ n : Nat, (n + 1 : Nat) < N → r n ≠ ⊥ → r (n + 1) = ⊥ → t (n + 1) = some ⊥
  quiet : ∀ n : Nat, n < N → r n = ⊥ → (∀ m, n = m + 1 → r m = ⊥) → t n = none

def worst (r : Nat → α) : Nat → α
  | 0 => ⊥
  | n + 1 => if r n = ⊥ then ⊥ else max (worst r n) (r n)

structure Later (r : Nat → α) (n : Nat) : Prop where
  behind : worst r n ≠ ⊥
  bad : r n ≠ ⊥

def expected (r : Nat → α) (n : Nat) : Option α :=
  if r n = ⊥ then if worst r n = ⊥ then none else some ⊥
  else if worst r n < r n then some (r n) else none

theorem worst_eq_bot : worst r (n + 1) = ⊥ ↔ r n = ⊥ := by
  rw [worst]
  split
  · simp_all
  · simp_all

theorem reported (h : ∀ m < n, t m = expected r m) :
    (worst r n ≠ ⊥ → ∃ m < n, Bad r m n ∧ t m = some (worst r n)) ∧
      ∀ m < n, Bad r m n → ∀ s, t m = some s → s ≤ worst r n := by
  induction n with
  | zero => exact ⟨fun hne => absurd rfl hne, fun m hm => absurd hm (Nat.not_lt_zero m)⟩
  | succ n ih =>
      obtain ⟨hsome, hle⟩ := ih fun m hm => h m (Nat.lt_succ_of_lt hm)
      have hn := h n (Nat.lt_succ_self n)
      by_cases hr : r n = ⊥
      · refine ⟨fun hne => absurd (worst_eq_bot.mpr hr) hne, fun m hm hbad => ?_⟩
        exact absurd hr (hbad n (Nat.le_of_lt_succ hm) (Nat.lt_succ_self n))
      · have hw : worst r (n + 1) = max (worst r n) (r n) := if_neg hr
        have hlast : Bad r n (n + 1) := fun k hk hk' => by
          obtain rfl : k = n := by omega
          exact hr
        rw [expected, if_neg hr] at hn
        rw [hw]
        constructor
        · intro _
          by_cases hlt : worst r n < r n
          · rw [if_pos hlt] at hn
            rw [max_eq_right (le_of_lt hlt)]
            exact ⟨n, Nat.lt_succ_self n, hlast, hn⟩
          · have hge := not_lt.mp hlt
            rw [max_eq_left hge]
            have hne : worst r n ≠ ⊥ := fun hbot => hr (le_bot_iff.mp (hbot ▸ hge))
            obtain ⟨m, hm, hbad, hs⟩ := hsome hne
            refine ⟨m, Nat.lt_succ_of_lt hm, fun k hk hk' => ?_, hs⟩
            by_cases hkn : k = n
            · exact hkn ▸ hr
            · exact hbad k hk (by omega)
        · intro m hm hbad s hs
          by_cases hmn : m = n
          · subst hmn
            rw [hn] at hs
            by_cases hlt : worst r m < r m
            · rw [if_pos hlt] at hs
              exact Option.some.inj hs ▸ le_max_right ..
            · rw [if_neg hlt] at hs
              cases hs
          · have hmle := hle m (by omega) (fun k hk hk' => hbad k hk (Nat.lt_succ_of_lt hk')) s hs
            exact le_max_of_le_left hmle

theorem law_iff : Law r t N ↔ ∀ n : Nat, n < N → t n = expected r n := by
  constructor
  · intro h n
    induction n using Nat.strong_induction_on with
    | _ n ih =>
        intro hn
        have hbefore : ∀ m < n, t m = expected r m := fun m hm =>
          ih m hm (lt_trans (Nat.cast_lt.mpr hm) hn)
        obtain ⟨hsome, hle⟩ := reported hbefore
        by_cases hr : r n = ⊥
        · rw [expected, if_pos hr]
          cases n with
          | zero =>
              rw [if_pos (show worst r 0 = ⊥ from rfl)]
              exact h.quiet 0 hn hr fun m hm => nomatch hm
          | succ n =>
              by_cases hw : worst r (n + 1) = ⊥
              · rw [if_pos hw]
                refine h.quiet (n + 1) hn hr fun m hm => ?_
                obtain rfl := Nat.succ.inj hm
                exact worst_eq_bot.mp hw
              · rw [if_neg hw]
                exact h.closes n hn (fun hn => hw (worst_eq_bot.mpr hn)) hr
        · rw [expected, if_neg hr]
          by_cases hlt : worst r n < r n
          · rw [if_pos hlt]
            exact h.reports n hn hr fun m hm hbad s hs => lt_of_le_of_lt (hle m hm hbad s hs) hlt
          · rw [if_neg hlt]
            have hne : worst r n ≠ ⊥ := fun hbot => hr (le_bot_iff.mp (hbot ▸ not_lt.mp hlt))
            obtain ⟨m, hm, hbad, hs⟩ := hsome hne
            exact h.repeats n hn hr ⟨m, hm, hbad, _, hs, not_lt.mp hlt⟩
  · intro h
    have hbefore (n : Nat) (hn : (n : ℕ∞) < N) : ∀ m < n, t m = expected r m := fun m hm =>
      h m (lt_trans (Nat.cast_lt.mpr hm) hn)
    refine ⟨fun n hn hr hall => ?_, fun n hn hr hex => ?_, fun n hn hr hr' => ?_, fun n hn hr hall => ?_⟩
    · rw [h n hn, expected, if_neg hr, if_pos]
      by_cases hw : worst r n = ⊥
      · rw [hw]
        exact bot_lt_iff_ne_bot.mpr hr
      · obtain ⟨m, hm, hbad, hs⟩ := (reported (hbefore n hn)).1 hw
        exact hall m hm hbad _ hs
    · obtain ⟨m, hm, hbad, s, hs, hle⟩ := hex
      rw [h n hn, expected, if_neg hr, if_neg]
      exact not_lt.mpr (le_trans hle ((reported (hbefore n hn)).2 m hm hbad s hs))
    · rw [h _ hn, expected, if_pos hr', if_neg fun hw => hr (worst_eq_bot.mp hw)]
    · rw [h n hn, expected, if_pos hr, if_pos]
      cases n with
      | zero => rfl
      | succ n => exact worst_eq_bot.mpr (hall n rfl)

end OiUserland.Lib.Episodes
