import OiUserland.Lib.Episodes
import OiUserland.HealthMonitor.Rules

namespace OiUserland.HealthMonitor.Alarms

open Lib.Episodes Rules

variable {σ δ : Type} {rule : Rule σ δ} {d₀ : δ} {x : Nat → σ} {N : ℕ∞} {n : Nat}

theorem ok_eq_bot : AlarmState.ok = ⊥ := rfl

theorem trap_injective (rule : Rule σ δ) (x : σ) : Function.Injective (rule.trap x) := by
  intro a b h
  have hstatus : convAlarmState a = convAlarmState b := congrArg Trap.status h
  cases a <;> cases b <;> first | rfl | simp [convAlarmState] at hstatus

/-- What is kept before each sample. -/
def run (rule : Rule σ δ) (d₀ : δ) (x : Nat → σ) : Nat → RuleState × RuleVars δ
  | 0 => (.notInit, ⟨.ok, .ok, d₀⟩)
  | n + 1 => (hmHandleRule rule (x n) (run rule d₀ x n)).2

def sent (rule : Rule σ δ) (d₀ : δ) (x : Nat → σ) (n : Nat) : Option Trap :=
  (hmHandleRule rule (x n) (run rule d₀ x n)).1

def judged (rule : Rule σ δ) (d₀ : δ) (x : Nat → σ) (n : Nat) : AlarmState × AlarmState × δ :=
  rule.condition (x n) (startRule rule (x n) (run rule d₀ x n)).2.data

def stored (rule : Rule σ δ) (d₀ : δ) (x : Nat → σ) (n : Nat) : AlarmState := (judged rule d₀ x n).1

def returned (rule : Rule σ δ) (d₀ : δ) (x : Nat → σ) (n : Nat) : AlarmState := (judged rule d₀ x n).2.1

def prev (rule : Rule σ δ) (d₀ : δ) (x : Nat → σ) (n : Nat) : AlarmState := (run rule d₀ x n).2.prev

/-- An alarm is on. -/
def On (s : RuleState) : Prop := s = .opened ∨ s = .continued

theorem startRule_on (rule : Rule σ δ) (x : σ) (s : RuleState × RuleVars δ) : (On (startRule rule x s).1 ↔ On s.1) ∧
    (startRule rule x s).2.prev = s.2.prev ∧ (startRule rule x s).1 ≠ .notInit := by
  unfold startRule
  by_cases hs : s.1 = .notInit
  · rw [if_pos hs]
    exact ⟨iff_of_false (by simp [On]) (by simp [On, hs]), rfl, nofun⟩
  · rw [if_neg hs]
    exact ⟨Iff.rfl, rfl, hs⟩

/-- A call without an alarm: a bad sample opens one and is reported. -/
theorem hmHandleRule_off (rule : Rule σ δ) (x : σ) {s : RuleState × RuleVars δ} (hs : ¬ On s.1) :
    let c := rule.condition x (startRule rule x s).2.data
    (hmHandleRule rule x s).1 = (if c.2.1 = .ok then none else some (rule.trap x c.1)) ∧
      (On (hmHandleRule rule x s).2.1 ↔ c.2.1 ≠ .ok) ∧ (hmHandleRule rule x s).2.2.prev = s.2.prev := by
  obtain ⟨hon, hprev, hinit⟩ := startRule_on rule x s
  intro c
  have hlt : AlarmState.ok < c.2.1 ↔ c.2.1 ≠ .ok := bot_lt_iff_ne_bot
  have hoff : ¬ On (startRule rule x s).1 := fun h => hs (hon.mp h)
  unfold hmHandleRule
  rw [← hprev]
  cases hstate : (startRule rule x s).1 with
  | notInit => exact absurd hstate hinit
  | opened => exact absurd (.inl hstate) hoff
  | continued => exact absurd (.inr hstate) hoff
  | init =>
      by_cases hc : c.2.1 = .ok
      · have hnot : ¬ AlarmState.ok < c.2.1 := fun h => hlt.mp h hc
        simp only [hstate, Rule.call, c] at hnot hc ⊢
        simp [hnot, hc, On]
      · have hpos := hlt.mpr hc
        simp only [hstate, Rule.call, c] at hpos hc ⊢
        simp [hpos, hc, On]
  | closed =>
      by_cases hc : c.2.1 = .ok
      · have hnot : ¬ AlarmState.ok < c.2.1 := fun h => hlt.mp h hc
        simp only [hstate, Rule.call, c] at hnot hc ⊢
        simp [hnot, hc, On]
      · have hpos := hlt.mpr hc
        simp only [hstate, Rule.call, c] at hpos hc ⊢
        simp [hpos, hc, On]

theorem hmHandleRule_on (rule : Rule σ δ) (x : σ) {s : RuleState × RuleVars δ} (hs : On s.1) :
    let c := rule.condition x (startRule rule x s).2.data
    (hmHandleRule rule x s).1 = (if c.2.1 = .ok ∨ s.2.prev < c.1 then some (rule.trap x c.1) else none) ∧
      (On (hmHandleRule rule x s).2.1 ↔ c.2.1 ≠ .ok) ∧
        (hmHandleRule rule x s).2.2.prev = (if c.2.1 ≠ .ok ∧ s.2.prev < c.1 then c.1 else s.2.prev) := by
  obtain ⟨hon, hprev, -⟩ := startRule_on rule x s
  intro c
  have hkept := hon.mpr hs
  unfold hmHandleRule
  rw [← hprev]
  rcases hkept with hstate | hstate
  · by_cases hc : c.2.1 = .ok
    · simp only [hstate, Rule.call, c] at hc ⊢
      simp [hc, On]
    · by_cases hlt : (startRule rule x s).2.prev < c.1
      · simp only [hstate, Rule.call, c] at hc hlt ⊢
        simp [hc, hlt, On]
      · simp only [hstate, Rule.call, c] at hc hlt ⊢
        simp [hc, hlt, On]
  · by_cases hc : c.2.1 = .ok
    · simp only [hstate, Rule.call, c] at hc ⊢
      simp [hc, On]
    · by_cases hlt : (startRule rule x s).2.prev < c.1
      · simp only [hstate, Rule.call, c] at hc hlt ⊢
        simp [hc, hlt, On]
      · simp only [hstate, Rule.call, c] at hc hlt ⊢
        simp [hc, hlt, On]

theorem run_on : On (run rule d₀ x n).1 ↔ worst (returned rule d₀ x) n ≠ ⊥ := by
  induction n with
  | zero => exact iff_of_false (by simp [On, run]) (fun h => h rfl)
  | succ n ih =>
      rw [ne_eq, worst_eq_bot, run]
      by_cases hs : On (run rule d₀ x n).1
      · exact (hmHandleRule_on _ _ hs).2.1
      · exact (hmHandleRule_off _ _ hs).2.1

/-- What is kept is never reset: it bounds the later samples of all episodes so far. -/
theorem prev_lt (rule : Rule σ δ) (d₀ : δ) (x : Nat → σ) (n : Nat) {s : AlarmState} (hs : ⊥ < s) :
    prev rule d₀ x n < s ↔ ∀ k < n, Later (returned rule d₀ x) k → stored rule d₀ x k < s := by
  induction n with
  | zero => exact iff_of_true hs fun k hk => absurd hk (Nat.not_lt_zero k)
  | succ n ih =>
      have hall : (∀ k < n + 1, Later (returned rule d₀ x) k → stored rule d₀ x k < s) ↔
          prev rule d₀ x n < s ∧ (Later (returned rule d₀ x) n → stored rule d₀ x n < s) := by
        rw [Nat.forall_lt_succ_right, ih]
      rw [hall]
      by_cases hon : On (run rule d₀ x n).1
      · have hw := run_on.mp hon
        have hkept := (hmHandleRule_on rule (x n) hon).2.2
        change prev rule d₀ x (n + 1) = (if returned rule d₀ x n ≠ ⊥ ∧ prev rule d₀ x n < stored rule d₀ x n then
          stored rule d₀ x n else prev rule d₀ x n) at hkept
        rw [hkept]
        by_cases hr : returned rule d₀ x n = ⊥
        · rw [if_neg fun h => h.1 hr]
          exact (and_iff_left fun hlater => absurd hr hlater.bad).symm
        · have hlater : Later (returned rule d₀ x) n := ⟨hw, hr⟩
          by_cases hlt : prev rule d₀ x n < stored rule d₀ x n
          · rw [if_pos ⟨hr, hlt⟩]
            exact ⟨fun h => ⟨lt_trans hlt h, fun _ => h⟩, fun h => h.2 hlater⟩
          · rw [if_neg fun h => hlt h.2]
            exact (and_iff_left_of_imp fun h _ => lt_of_le_of_lt (not_lt.mp hlt) h).symm
      · have hkept := (hmHandleRule_off rule (x n) hon).2.2
        change prev rule d₀ x (n + 1) = prev rule d₀ x n at hkept
        rw [hkept]
        exact (and_iff_left fun hlater => absurd (run_on.mpr hlater.behind) hon).symm

def Honest (rule : Rule σ δ) : Prop := ∀ x d, (rule.condition x d).2.1 = .ok ↔ (rule.condition x d).1 = .ok

/-- A sample whose state is stored as it is returned when it is the worst of its episode. A later
one of an episode is then the worst of it just if it is the worst later one of all episodes. -/
structure InStep (rule : Rule σ δ) (d₀ : δ) (x : Nat → σ) (n : Nat) : Prop where
  same : worst (returned rule d₀ x) n < returned rule d₀ x n → stored rule d₀ x n = returned rule d₀ x n
  rise : Later (returned rule d₀ x) n →
    (worst (returned rule d₀ x) n < returned rule d₀ x n ↔
      ∀ k < n, Later (returned rule d₀ x) k → stored rule d₀ x k < stored rule d₀ x n)

theorem sent_iff (hrule : Honest rule) :
    sent rule d₀ x n = (expected (returned rule d₀ x) n).map (rule.trap (x n)) ↔ InStep rule d₀ x n := by
  have hstored : returned rule d₀ x n = ⊥ ↔ stored rule d₀ x n = ⊥ := hrule _ _
  by_cases hs : On (run rule d₀ x n).1
  · have hw := run_on.mp hs
    have hsent := (hmHandleRule_on rule (x n) hs).1
    change sent rule d₀ x n = (if returned rule d₀ x n = .ok ∨ prev rule d₀ x n < stored rule d₀ x n then
      some (rule.trap (x n) (stored rule d₀ x n)) else none) at hsent
    rw [hsent, expected, ok_eq_bot]
    by_cases hr : returned rule d₀ x n = ⊥
    · rw [if_pos (.inl hr), if_pos hr, if_neg hw, hstored.mp hr]
      exact iff_of_true rfl ⟨fun _ => (hstored.mp hr).trans hr.symm, fun hlater => absurd hr hlater.bad⟩
    · have hkept := prev_lt rule d₀ x n (bot_lt_iff_ne_bot.mpr fun h => hr (hstored.mpr h))
      simp only [hr, false_or, if_false]
      by_cases hlt : worst (returned rule d₀ x) n < returned rule d₀ x n
      · rw [if_pos hlt]
        by_cases hprev : prev rule d₀ x n < stored rule d₀ x n
        · rw [if_pos hprev, Option.map_some]
          constructor
          · intro h
            have hsame := trap_injective rule (x n) (Option.some.inj h)
            exact ⟨fun _ => hsame, fun _ => iff_of_true hlt (hkept.mp hprev)⟩
          · intro h
            rw [h.same hlt]
        · rw [if_neg hprev]
          exact iff_of_false (fun h => by cases h) fun h => hprev (hkept.mpr ((h.rise ⟨hw, hr⟩).mp hlt))
      · rw [if_neg hlt]
        by_cases hprev : prev rule d₀ x n < stored rule d₀ x n
        · rw [if_pos hprev]
          exact iff_of_false (fun h => by cases h) fun h => hlt ((h.rise ⟨hw, hr⟩).mpr (hkept.mp hprev))
        · rw [if_neg hprev]
          exact iff_of_true rfl ⟨fun h => absurd h hlt, fun _ => iff_of_false hlt fun h => hprev (hkept.mpr h)⟩
  · have hw : worst (returned rule d₀ x) n = ⊥ := not_not.mp fun h => hs (run_on.mpr h)
    have hsent := (hmHandleRule_off rule (x n) hs).1
    change sent rule d₀ x n = (if returned rule d₀ x n = .ok then none else
      some (rule.trap (x n) (stored rule d₀ x n))) at hsent
    rw [hsent, expected, ok_eq_bot, hw]
    by_cases hr : returned rule d₀ x n = ⊥
    · rw [if_pos hr, if_pos hr, if_pos rfl]
      exact iff_of_true rfl ⟨fun _ => (hstored.mp hr).trans hr.symm, fun hlater => absurd hw hlater.behind⟩
    · have hlt := bot_lt_iff_ne_bot.mpr hr
      rw [if_neg hr, if_neg hr, if_pos hlt, Option.map_some]
      constructor
      · intro h
        exact ⟨fun _ => trap_injective rule (x n) (Option.some.inj h), fun hlater => absurd hw hlater.behind⟩
      · intro h
        rw [h.same (hw ▸ hlt)]

theorem honest_node (θ : Thresholds) (node : Node) : Honest (node.rule θ) := by
  intro x d
  cases node <;> simp only [Node.rule, swapRule, kernelRule, nfsRule, cpuRule, ramRule, kmemRule, dnlcRule, plain] <;>
    split_ifs <;> simp

/-- The traps of the first `N` samples are those of lawful reports of the states that are
returned. -/
def Alarms (rule : Rule σ δ) (d₀ : δ) (x : Nat → σ) (N : ℕ∞) : Prop :=
  ∃ t, Law (returned rule d₀ x) t N ∧ ∀ n : Nat, n < N → sent rule d₀ x n = (t n).map (rule.trap (x n))

/-- Every rule raises its alarms as it should just if each sample is in step. -/
theorem alarms_iff (θ : Thresholds) (node : Node) (x : Nat → node.Sample) (N : ℕ∞) :
    Alarms (node.rule θ) node.data x N ↔ ∀ n : Nat, n < N → InStep (node.rule θ) node.data x n := by
  constructor
  · rintro ⟨t, hlaw, hsent⟩ n hn
    rw [← sent_iff (honest_node θ node), hsent n hn, law_iff.mp hlaw n hn]
  · intro h
    exact ⟨expected _, law_iff.mpr fun _ _ => rfl, fun n hn => (sent_iff (honest_node θ node)).mpr (h n hn)⟩

/-- Swap space that stays low: the second sample is reported again. -/
theorem swap_reported_twice :
    ¬∀ (θ : Thresholds) (node : Node) (x : Nat → node.Sample) (N : ℕ∞), Alarms (node.rule θ) node.data x N := by
  intro hall
  have hswap : Alarms (swapRule {}) () (fun _ => (400000 : Int)) ⊤ := hall {} .swap (fun _ => (400000 : Int)) ⊤
  obtain ⟨t, hlaw, hsent⟩ := hswap
  have hinfo (n : Nat) : returned (swapRule {}) () (fun _ => (400000 : Int)) n = .info := rfl
  have hbad (n : Nat) : returned (swapRule {}) () (fun _ => (400000 : Int)) n ≠ ⊥ := by
    rw [hinfo]
    exact nofun
  have hfirst := hlaw.reports 0 (ENat.natCast_lt_top 0) (hbad 0) fun m hm => absurd hm (Nat.not_lt_zero m)
  have hsecond : t 1 = none := by
    refine hlaw.repeats 1 (ENat.natCast_lt_top 1) (hbad 1) ?_
    exact ⟨0, Nat.one_pos, fun k _ _ => hbad k, _, hfirst, le_refl _⟩
  have hnone := hsent 1 (ENat.natCast_lt_top 1)
  have hsome : (sent (swapRule {}) () (fun _ => (400000 : Int)) 1).isSome = true := rfl
  rw [hnone, hsecond] at hsome
  cases hsome

end OiUserland.HealthMonitor.Alarms
