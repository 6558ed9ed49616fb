import Mathlib.Data.Int.ConditionallyCompleteOrder
import OiUserland.HealthMonitor.Alarms

namespace OiUserland.HealthMonitor.KmemErrors

open Rules Alarms

variable {σ δ : Type} {d₀ : KmemErrs} {x : Nat → Int} {s : RuleState × RuleVars KmemErrs} {m n : Nat}

theorem hmHandleRule_init (rule : Rule σ δ) (x : σ) {s : RuleState × RuleVars δ} (hs : (startRule rule x s).1 = .init) :
    let c := rule.condition x (startRule rule x s).2.data
    (hmHandleRule rule x s).2.1 = (if c.2.1 = .ok then .init else .opened) ∧
      (hmHandleRule rule x s).2.2.data = if c.2.1 = .ok then c.2.2 else rule.opened x c.2.2 := by
  intro c
  unfold hmHandleRule
  by_cases hc : c.2.1 = .ok
  · simp only [hs, Rule.call, c] at hc ⊢
    simp [hc]
  · have hpos : AlarmState.ok < c.2.1 := bot_lt_iff_ne_bot.mpr hc
    simp only [hs, Rule.call, c] at hpos hc ⊢
    simp [hpos, hc]

theorem startRule_of_on (rule : Rule σ δ) (x : σ) {s : RuleState × RuleVars δ} (hs : On s.1) : startRule rule x s = s := by
  refine if_neg fun hinit => ?_
  rw [hinit] at hs
  rcases hs with hs | hs <;> cases hs

theorem hmHandleRule_continued (rule : Rule σ δ) (x : σ) {s : RuleState × RuleVars δ} (hs : On s.1) :
    let c := rule.condition x s.2.data
    (hmHandleRule rule x s).2.1 = (if c.2.1 = .ok then .closed else .continued) ∧
      (hmHandleRule rule x s).2.2.data = c.2.2 := by
  intro c
  unfold hmHandleRule
  rw [startRule_of_on rule x hs]
  rcases hs with hstate | hstate
  · by_cases hc : c.2.1 = .ok
    · simp only [hstate, Rule.call, c] at hc ⊢
      simp [hc]
    · simp only [hstate, Rule.call, c] at hc ⊢
      by_cases hlt : s.2.prev < (rule.condition x s.2.data).1
      · simp [hc, hlt]
      · simp [hc, hlt]
  · by_cases hc : c.2.1 = .ok
    · simp only [hstate, Rule.call, c] at hc ⊢
      simp [hc]
    · simp only [hstate, Rule.call, c] at hc ⊢
      by_cases hlt : s.2.prev < (rule.condition x s.2.data).1
      · simp [hc, hlt]
      · simp [hc, hlt]

def before (x : Nat → Int) : Nat → Int
  | 0 => 0
  | n + 1 => x n

/-- The alarm is opened by a sample. -/
def OpenedAt (d₀ : KmemErrs) (x : Nat → Int) (m : Nat) : Prop := (run kmemRule d₀ x (m + 1)).1 = .opened

def FirstFailure (x : Nat → Int) (m : Nat) : Prop := x m ≠ 0 ∧ ∀ k < m, x k = 0

structure Quiet (x : Nat → Int) (n : Nat) (s : RuleState × RuleVars KmemErrs) : Prop where
  state : s.1 = .notInit ∨ s.1 = .init ∧ s.2.data = ⟨0, 0⟩
  none : ∀ k < n, x k = 0

structure Failing (x : Nat → Int) (m n : Nat) (s : RuleState × RuleVars KmemErrs) : Prop where
  state : On s.1
  fresh : s.1 = .opened ↔ n = m + 1
  behind : m < n
  first : FirstFailure x m
  errs : s.2.data = ⟨x m, before x n⟩

theorem FirstFailure.unique {m' : Nat} (h : FirstFailure x m) (h' : FirstFailure x m') : m = m' := by
  rcases lt_trichotomy m m' with hlt | rfl | hlt
  · exact absurd (h'.2 m hlt) h.1
  · rfl
  · exact absurd (h.2 m' hlt) h'.1

theorem Quiet.started (h : Quiet x n s) :
    (startRule kmemRule (x n) s).1 = .init ∧ (startRule kmemRule (x n) s).2.data = ⟨0, 0⟩ := by
  unfold startRule
  rcases h.state with hstate | ⟨hstate, hdata⟩
  · rw [if_pos hstate]
    exact ⟨rfl, rfl⟩
  · rw [if_neg (by rw [hstate]; exact nofun)]
    exact ⟨hstate, hdata⟩

theorem Quiet.before (h : Quiet x n s) : before x n = 0 := by
  cases n with
  | zero => rfl
  | succ n => exact h.none n (Nat.lt_succ_self n)

theorem condition_none (d : KmemErrs) (hd : d.first = 0) : kmemRule.condition 0 d = plain .ok d := by
  change (if (0 : Int) = d.first then _ else _) = _
  rw [hd, if_pos rfl, if_pos rfl]

theorem condition_same {a : Int} (d : KmemErrs) (hd : d.first = a) (ha : a ≠ 0) : kmemRule.condition a d = plain .info d := by
  change (if a = d.first then _ else _) = _
  rw [hd, if_pos rfl, if_neg ha]

theorem condition_kept {a : Int} (d : KmemErrs) (hfirst : a ≠ d.first) (hlast : d.last = a) :
    kmemRule.condition a d = plain .warning d := by
  change (if a = d.first then _ else _) = _
  rw [if_neg hfirst, if_pos hlast.symm]

theorem condition_grown {a : Int} (d : KmemErrs) (hfirst : a ≠ d.first) (hlast : a ≠ d.last) :
    kmemRule.condition a d = plain .error { d with last := a } := by
  change (if a = d.first then _ else _) = _
  rw [if_neg hfirst, if_neg hlast]

theorem Quiet.zero (h : Quiet x n s) (hn : x n = 0) : Quiet x (n + 1) (hmHandleRule kmemRule (x n) s).2 := by
  obtain ⟨hinit, hdata⟩ := h.started
  obtain ⟨hstate, hleft⟩ := hmHandleRule_init kmemRule (x n) hinit
  rw [hdata, hn, condition_none _ rfl] at hstate hleft
  rw [hn]
  refine ⟨.inr ⟨hstate, hleft⟩, ?_⟩
  intro k hk
  rcases Nat.lt_succ_iff_lt_or_eq.mp hk with hk | rfl
  · exact h.none k hk
  · exact hn

theorem Quiet.failure (h : Quiet x n s) (hn : x n ≠ 0) : Failing x n (n + 1) (hmHandleRule kmemRule (x n) s).2 := by
  obtain ⟨hinit, hdata⟩ := h.started
  obtain ⟨hstate, hleft⟩ := hmHandleRule_init kmemRule (x n) hinit
  rw [hdata, condition_grown ⟨0, 0⟩ hn hn] at hstate hleft
  exact ⟨.inl hstate, iff_of_true hstate rfl, Nat.lt_succ_self n, ⟨hn, h.none⟩, hleft⟩

theorem Failing.counted (h : Failing x m n s) (hx : Monotone x) (hpos : 0 ≤ x 0) : 0 < x m ∧ x m ≤ before x n ∧ before x n ≤ x n := by
  have hm : 0 ≤ x m := le_trans hpos (hx (Nat.zero_le m))
  refine ⟨lt_of_le_of_ne hm h.first.1.symm, ?_⟩
  cases n with
  | zero => exact absurd h.behind (Nat.not_lt_zero m)
  | succ n => exact ⟨hx (Nat.lt_succ_iff.mp h.behind), hx (Nat.le_succ n)⟩

theorem Failing.condition (h : Failing x m n s) (hx : Monotone x) (hpos : 0 ≤ x 0) :
    kmemRule.condition (x n) s.2.data =
      plain (if x n = x m then .info else if x n = before x n then .warning else .error) ⟨x m, x n⟩ := by
  obtain ⟨hm, hle, hle'⟩ := h.counted hx hpos
  rw [h.errs]
  by_cases hsame : x n = x m
  · have hlast : before x n = x n := le_antisymm hle' (hsame ▸ hle)
    rw [condition_same _ hsame.symm (hsame ▸ hm.ne'), if_pos hsame, hlast]
  · rw [if_neg hsame]
    by_cases hlast : x n = before x n
    · rw [condition_kept _ hsame hlast.symm, if_pos hlast, ← hlast]
    · rw [condition_grown _ hsame hlast, if_neg hlast]

theorem Quiet.judged (h : Quiet x n (run kmemRule d₀ x n)) :
    judged kmemRule d₀ x n = if x n = 0 then plain .ok ⟨0, 0⟩ else plain .error ⟨0, x n⟩ := by
  rw [Alarms.judged, h.started.2]
  by_cases hn : x n = 0
  · rw [if_pos hn, hn, condition_none _ rfl]
  · rw [if_neg hn, condition_grown ⟨0, 0⟩ hn hn]

theorem Failing.judged (h : Failing x m n (run kmemRule d₀ x n)) (hx : Monotone x) (hpos : 0 ≤ x 0) :
    judged kmemRule d₀ x n =
      plain (if x n = x m then .info else if x n = before x n then .warning else .error) ⟨x m, x n⟩ := by
  rw [Alarms.judged, startRule_of_on _ _ h.state, h.condition hx hpos]

theorem Failing.next (h : Failing x m n s) (hx : Monotone x) (hpos : 0 ≤ x 0) :
    Failing x m (n + 1) (hmHandleRule kmemRule (x n) s).2 := by
  obtain ⟨hstate, hleft⟩ := hmHandleRule_continued kmemRule (x n) h.state
  rw [h.condition hx hpos] at hstate hleft
  have hbad : (plain (if x n = x m then AlarmState.info else if x n = before x n then .warning else .error)
      (⟨x m, x n⟩ : KmemErrs)).2.1 ≠ .ok := by
    unfold plain
    split_ifs <;> exact nofun
  rw [if_neg hbad] at hstate
  refine ⟨.inr hstate, iff_of_false ?_ ?_, Nat.lt_succ_of_lt h.behind, h.first, hleft⟩
  · rw [hstate]
    exact nofun
  · exact (Nat.succ_lt_succ h.behind).ne'

theorem run_cases (d₀ : KmemErrs) (hx : Monotone x) (hpos : 0 ≤ x 0) (n : Nat) :
    Quiet x n (run kmemRule d₀ x n) ∨ ∃ m, Failing x m n (run kmemRule d₀ x n) := by
  induction n with
  | zero => exact .inl ⟨.inl rfl, fun k hk => absurd hk (Nat.not_lt_zero k)⟩
  | succ n ih =>
      rw [run]
      rcases ih with hquiet | ⟨m, hfailing⟩
      · by_cases hn : x n = 0
        · exact .inl (hquiet.zero hn)
        · exact .inr ⟨n, hquiet.failure hn⟩
      · exact .inr ⟨m, hfailing.next hx hpos⟩

theorem Quiet.not_on (h : Quiet x n s) : ¬ On s.1 := by
  rintro (hon | hon) <;> rcases h.state with hstate | ⟨hstate, -⟩ <;> rw [hon] at hstate <;> cases hstate

theorem Failing.opened_iff (h : Failing x m n (run kmemRule d₀ x n)) (hx : Monotone x) (hpos : 0 ≤ x 0) {k : Nat} :
    OpenedAt d₀ x k ↔ k = m := by
  rcases run_cases d₀ hx hpos (k + 1) with hquiet | ⟨m', hfailing⟩
  · refine iff_of_false (fun hopen => hquiet.not_on (.inl hopen)) ?_
    rintro rfl
    exact h.first.1 (hquiet.none k (Nat.lt_succ_self k))
  · obtain rfl := hfailing.first.unique h.first
    exact hfailing.fresh.trans Nat.succ_inj

/-- Each sample is judged by the counts alone, and no alarm ends. -/
theorem kmem_judged (d₀ : KmemErrs) (x : Nat → Int) (hpos : 0 ≤ x 0) (hx : Monotone x) (n : Nat) :
    stored kmemRule d₀ x n = returned kmemRule d₀ x n ∧
      (returned kmemRule d₀ x n = .ok ↔ ∀ k ≤ n, x k = 0) ∧
      (returned kmemRule d₀ x n = .error ↔ before x n < x n) ∧
      (returned kmemRule d₀ x n = .info ↔ ∃ m < n, OpenedAt d₀ x m ∧ x n = x m) ∧
      (returned kmemRule d₀ x n = .warning ↔ ∃ m < n, OpenedAt d₀ x m ∧ x m < x n ∧ x n = before x n) ∧
      (On (run kmemRule d₀ x n).1 → On (run kmemRule d₀ x (n + 1)).1) := by
  rcases run_cases d₀ hx hpos n with hquiet | ⟨m, hfailing⟩
  · have hclosed (P : Nat → Prop) : ¬ ∃ m < n, OpenedAt d₀ x m ∧ P m := by
      rintro ⟨m, hm, hopen, -⟩
      rcases run_cases d₀ hx hpos (m + 1) with hq | ⟨m', hf⟩
      · exact hq.not_on (.inl hopen)
      · exact hf.first.1 (hquiet.none m' (lt_of_lt_of_le hf.behind hm))
    have hj := hquiet.judged
    rw [hquiet.before]
    by_cases hn : x n = 0
    · rw [if_pos hn] at hj
      have hr : returned kmemRule d₀ x n = .ok := congrArg (fun c => c.2.1) hj
      have hs : stored kmemRule d₀ x n = .ok := congrArg Prod.fst hj
      rw [hs, hr]
      refine ⟨rfl, iff_of_true rfl ?_, iff_of_false nofun hn.not_gt, iff_of_false nofun (hclosed _),
        iff_of_false nofun (hclosed _), fun hon => absurd hon hquiet.not_on⟩
      intro k hk
      rcases lt_or_eq_of_le hk with hlt | rfl
      · exact hquiet.none k hlt
      · exact hn
    · rw [if_neg hn] at hj
      have hr : returned kmemRule d₀ x n = .error := congrArg (fun c => c.2.1) hj
      have hs : stored kmemRule d₀ x n = .error := congrArg Prod.fst hj
      have hpos' : 0 < x n := lt_of_le_of_ne (le_trans hpos (hx (Nat.zero_le n))) (Ne.symm hn)
      rw [hs, hr]
      exact ⟨rfl, iff_of_false nofun fun h => hn (h n le_rfl), iff_of_true rfl hpos', iff_of_false nofun (hclosed _),
        iff_of_false nofun (hclosed _), fun hon => absurd hon hquiet.not_on⟩
  · have hopened (P : Nat → Prop) : (∃ k < n, OpenedAt d₀ x k ∧ P k) ↔ P m := by
      constructor
      · rintro ⟨k, -, hopen, hk⟩
        exact (hfailing.opened_iff hx hpos).mp hopen ▸ hk
      · exact fun hm => ⟨m, hfailing.behind, (hfailing.opened_iff hx hpos).mpr rfl, hm⟩
    obtain ⟨hm, hle, hle'⟩ := hfailing.counted hx hpos
    have hbad : ¬ ∀ k ≤ n, x k = 0 := fun h => hfailing.first.1 (h m hfailing.behind.le)
    have hj := hfailing.judged hx hpos
    have hon := (hfailing.next hx hpos).state
    rw [hopened, hopened]
    by_cases hsame : x n = x m
    · rw [if_pos hsame] at hj
      have hr : returned kmemRule d₀ x n = .info := congrArg (fun c => c.2.1) hj
      have hs : stored kmemRule d₀ x n = .info := congrArg Prod.fst hj
      rw [hs, hr]
      exact ⟨rfl, iff_of_false nofun hbad, iff_of_false nofun (not_lt.mpr (hsame ▸ hle)), iff_of_true rfl hsame,
        iff_of_false nofun fun h => h.1.ne' hsame, fun _ => hon⟩
    · have hlt : x m < x n := lt_of_le_of_ne (le_trans hle hle') (Ne.symm hsame)
      rw [if_neg hsame] at hj
      by_cases hlast : x n = before x n
      · rw [if_pos hlast] at hj
        have hr : returned kmemRule d₀ x n = .warning := congrArg (fun c => c.2.1) hj
        have hs : stored kmemRule d₀ x n = .warning := congrArg Prod.fst hj
        rw [hs, hr]
        exact ⟨rfl, iff_of_false nofun hbad, iff_of_false nofun hlast.not_gt, iff_of_false nofun hsame,
          iff_of_true rfl ⟨hlt, hlast⟩, fun _ => hon⟩
      · rw [if_neg hlast] at hj
        have hr : returned kmemRule d₀ x n = .error := congrArg (fun c => c.2.1) hj
        have hs : stored kmemRule d₀ x n = .error := congrArg Prod.fst hj
        rw [hs, hr]
        exact ⟨rfl, iff_of_false nofun hbad, iff_of_true rfl (lt_of_le_of_ne hle' (Ne.symm hlast)),
          iff_of_false nofun hsame, iff_of_false nofun fun h => hlast h.2, fun _ => hon⟩

/-- Failures are counted twice, and none behind the second sample. -/
theorem kmem_judged_twice :
    let x : Nat → Int := fun n => min n 2
    (stored kmemRule ⟨0, 0⟩ x 3 = returned kmemRule ⟨0, 0⟩ x 3) ∧
      (returned kmemRule ⟨0, 0⟩ x 3 = .warning ↔ ∃ m < 3, OpenedAt ⟨0, 0⟩ x m ∧ x m < x 3 ∧ x 3 = before x 3) := by
  intro x
  have hx : Monotone x := fun a b hab => min_le_min_right 2 (Int.ofNat_le.mpr hab)
  obtain ⟨hsame, -, -, -, hwarning, -⟩ := kmem_judged ⟨0, 0⟩ x le_rfl hx 3
  exact ⟨hsame, hwarning⟩

end OiUserland.HealthMonitor.KmemErrors
