import OiUserland.Lib.Runs
import Mathlib.Data.List.Chain

namespace OiUserland.EntityMib.LastChangeTime

def trapThrottlePeriod : Nat := 5000

def trapThrottlePeriodSecs : Nat := trapThrottlePeriod / 1000

/-- What the manager can see: a call of configChanged, or a trap. -/
inductive Event
  | change
  | trap (sent : Nat)
  deriving DecidableEq

/-- The markers, in milliseconds since the epoch, and the pending alarms, each with the time
of its registration. `clock` has been read last, and `log` starts with the last event. -/
structure TrapState where
  clock : Nat
  entLastChangeTime : Nat
  trapLastIssued : Nat
  alarms : List Nat
  log : List Event
  deriving DecidableEq

structure Readings where
  now : Nat
  sent : Nat
  issued : Nat
  registered : Nat

def atimeReady (marker delta now : Nat) : Bool := marker + delta ≤ now

def atimeDiff (first second : Nat) : Int := second - first

/-- snmp_alarm_register, for an alarm that goes off once. -/
def alarmDue (registered : Nat) : Nat := registered + 1000 * trapThrottlePeriodSecs

def pollEntLastChangeTime (r : Readings) (s : TrapState) : TrapState :=
  if !atimeReady s.trapLastIssued trapThrottlePeriod r.now then { s with clock := r.now }
  else if atimeDiff s.entLastChangeTime s.trapLastIssued ≤ 0 then
    { s with clock := r.registered, trapLastIssued := r.issued, alarms := r.registered :: s.alarms,
             log := .trap r.sent :: s.log }
  else { s with clock := r.now }

def configChanged (stamp : Nat) (r : Readings) (s : TrapState) : TrapState :=
  pollEntLastChangeTime r { s with clock := stamp, entLastChangeTime := stamp, log := .change :: s.log }

def alarmEntLastChangeTime (alarm : Nat) (r : Readings) (s : TrapState) : Option TrapState :=
  if alarm ∈ s.alarms then some (pollEntLastChangeTime r { s with alarms := s.alarms.erase alarm }) else none

inductive Op
  | configChanged (stamp : Nat) (r : Readings)
  | alarm (alarm : Nat) (r : Readings)

def step : Op → TrapState → Option TrapState
  | .configChanged stamp r, s => some (LastChangeTime.configChanged stamp r s)
  | .alarm alarm r, s => alarmEntLastChangeTime alarm r s

/-- The clock does not go back, and no alarm goes off before its time. -/
def InOrder : Op → TrapState → Prop
  | .configChanged stamp r, s =>
      s.clock ≤ stamp ∧ stamp ≤ r.now ∧ r.now ≤ r.sent ∧ r.sent ≤ r.issued ∧ r.issued ≤ r.registered
  | .alarm alarm r, s =>
      s.clock ≤ r.now ∧ alarmDue alarm ≤ r.now ∧ r.now ≤ r.sent ∧ r.sent ≤ r.issued ∧ r.issued ≤ r.registered

instance : (o : Op) → (s : TrapState) → Decidable (InOrder o s)
  | .configChanged stamp r, s => inferInstanceAs
      (Decidable (s.clock ≤ stamp ∧ stamp ≤ r.now ∧ r.now ≤ r.sent ∧ r.sent ≤ r.issued ∧ r.issued ≤ r.registered))
  | .alarm alarm r, s => inferInstanceAs
      (Decidable (s.clock ≤ r.now ∧ alarmDue alarm ≤ r.now ∧ r.now ≤ r.sent ∧ r.sent ≤ r.issued ∧ r.issued ≤ r.registered))

/-- What init_entLastChangeTime leaves behind. The marker of the last trap is zero, which the
clock has read at the epoch, and longer ago than the throttle period. -/
structure Start (s : TrapState) : Prop where
  clock : trapThrottlePeriod ≤ s.clock
  entLastChangeTime : s.entLastChangeTime = s.clock
  trapLastIssued : s.trapLastIssued = 0
  alarms : s.alarms = []
  log : s.log = []

theorem alarmDue_eq (registered : Nat) : alarmDue registered = registered + trapThrottlePeriod := rfl

theorem poll_cases (r : Readings) (s : TrapState) :
    (r.now < s.trapLastIssued + trapThrottlePeriod ∨ s.entLastChangeTime < s.trapLastIssued) ∧
        pollEntLastChangeTime r s = { s with clock := r.now } ∨
      s.trapLastIssued + trapThrottlePeriod ≤ r.now ∧ s.trapLastIssued ≤ s.entLastChangeTime ∧
        pollEntLastChangeTime r s = { s with
          clock := r.registered, trapLastIssued := r.issued, alarms := r.registered :: s.alarms
          log := .trap r.sent :: s.log } := by
  rw [pollEntLastChangeTime, atimeReady, atimeDiff]
  by_cases hready : s.trapLastIssued + trapThrottlePeriod ≤ r.now
  · rw [decide_eq_true hready, Bool.not_true, if_neg Bool.false_ne_true]
    by_cases hchange : s.trapLastIssued ≤ s.entLastChangeTime
    · rw [if_pos (by omega)]
      exact .inr ⟨hready, hchange, rfl⟩
    · rw [if_neg (by omega)]
      exact .inl ⟨.inr (by omega), rfl⟩
  · rw [decide_eq_false hready, Bool.not_false, if_pos rfl]
    exact .inl ⟨.inl (by omega), rfl⟩

end OiUserland.EntityMib.LastChangeTime

namespace OiUserland.EntityMib.TrapRuns

open Lib.Runs LastChangeTime

variable {s s' : TrapState} {o : Op} {r : Readings}

def traps (s : TrapState) : List Nat := s.log.filterMap fun e => match e with
  | .change => none
  | .trap sent => some sent

def Spaced (later earlier : Nat) : Prop := earlier + trapThrottlePeriod ≤ later

def Unreported (s : TrapState) : Prop := s.log.head? = some .change

def Reported (s : TrapState) : Prop := ∃ sent, s.log.head? = some (.trap sent)

structure Throttled (s : TrapState) : Prop where
  change : s.entLastChangeTime ≤ s.clock
  issued : s.trapLastIssued ≤ s.clock
  spaced : (traps s).IsChain Spaced
  sent : ∀ t, (traps s).head? = some t → t ≤ s.trapLastIssued
  pending : s.clock < s.trapLastIssued + trapThrottlePeriod → ∃ a ∈ s.alarms, s.trapLastIssued ≤ a
  unreported : Unreported s → s.trapLastIssued ≤ s.entLastChangeTime ∧ ∃ a ∈ s.alarms, s.trapLastIssued ≤ a
  reported : Reported s → s.entLastChangeTime ≤ s.trapLastIssued

theorem throttled_start (h : Start s) : Throttled s := by
  obtain ⟨hclock, hchange, htrap, halarms, hlog⟩ := h
  refine ⟨by omega, by omega, ?_, ?_, fun hlt => by omega, ?_, ?_⟩
  · rw [traps, hlog]
    exact .nil
  · rw [traps, hlog]
    exact fun t ht => nomatch ht
  · rw [Unreported, hlog]
    exact fun ht => nomatch ht
  · rw [Reported, hlog]
    rintro ⟨t, ht⟩
    cases ht

theorem Throttled.trap (hchange : s.entLastChangeTime ≤ r.now) (hspaced : (traps s).IsChain Spaced)
    (hsent : ∀ t, (traps s).head? = some t → t ≤ s.trapLastIssued) (hready : s.trapLastIssued + trapThrottlePeriod ≤ r.now)
    (horder : r.now ≤ r.sent ∧ r.sent ≤ r.issued ∧ r.issued ≤ r.registered) :
    Throttled { s with clock := r.registered, trapLastIssued := r.issued, alarms := r.registered :: s.alarms
                       log := .trap r.sent :: s.log } := by
  obtain ⟨h1, h2, h3⟩ := horder
  refine ⟨by simp only; omega, h3, ?_, fun t ht => ?_, fun _ => ⟨r.registered, List.mem_cons_self .., h3⟩, ?_, ?_⟩
  · refine List.isChain_cons.mpr ⟨fun t ht => ?_, hspaced⟩
    have := hsent t ht
    rw [Spaced]
    omega
  · obtain rfl : r.sent = t := Option.some.inj ht
    exact h2
  · exact fun h => nomatch h
  · simp only
    omega

theorem Throttled.configChanged (h : Throttled s) {stamp : Nat} (horder : InOrder (.configChanged stamp r) s) :
    Throttled (LastChangeTime.configChanged stamp r s) := by
  obtain ⟨hclock, hnow, hlater⟩ := horder
  have hissued := h.issued
  rw [LastChangeTime.configChanged]
  rcases poll_cases r { s with clock := stamp, entLastChangeTime := stamp, log := .change :: s.log } with ⟨hquiet, heq⟩ | ⟨hready, -, heq⟩
  · rw [heq]
    simp only at hquiet
    -- a change is not older than the last trap, so it is only put off
    have hpending : ∃ a ∈ s.alarms, s.trapLastIssued ≤ a := h.pending (by omega)
    refine ⟨hnow, by simp only; omega, h.spaced, h.sent, fun _ => hpending, fun _ => ⟨?_, hpending⟩, ?_⟩
    · simp only
      omega
    · rintro ⟨t, ht⟩
      cases ht
  · rw [heq]
    exact Throttled.trap hnow h.spaced h.sent hready hlater

theorem Throttled.alarm (h : Throttled s) {a : Nat} (horder : InOrder (.alarm a r) s)
    (hs : alarmEntLastChangeTime a r s = some s') : Throttled s' := by
  obtain ⟨hclock, hdue, hlater⟩ := horder
  rw [alarmDue_eq] at hdue
  have hchange := h.change
  have hissued := h.issued
  rw [alarmEntLastChangeTime] at hs
  split at hs
  · obtain rfl := Option.some.inj hs
    -- an alarm that is due is older than the last trap as long as the period lasts
    have hothers (hlt : r.now < s.trapLastIssued + trapThrottlePeriod) (hex : ∃ b ∈ s.alarms, s.trapLastIssued ≤ b) :
        ∃ b ∈ s.alarms.erase a, s.trapLastIssued ≤ b := by
      obtain ⟨b, hb, hle⟩ := hex
      exact ⟨b, (List.mem_erase_of_ne (by omega)).mpr hb, hle⟩
    rcases poll_cases r { s with alarms := s.alarms.erase a } with ⟨hquiet, heq⟩ | ⟨hready, -, heq⟩
    · rw [heq]
      simp only at hquiet
      refine ⟨by simp only; omega, by simp only; omega, h.spaced, h.sent,
        fun hlt => hothers hlt (h.pending (Nat.lt_of_le_of_lt hclock hlt)), fun hun => ?_, h.reported⟩
      obtain ⟨hle, hex⟩ := h.unreported hun
      exact ⟨hle, hothers (hquiet.resolve_right (by omega)) hex⟩
    · rw [heq]
      exact Throttled.trap (hchange.trans hclock) h.spaced h.sent hready hlater
  · cases hs

theorem throttled_step (h : Throttled s) (horder : InOrder o s) (hs : step o s = some s') : Throttled s' := by
  cases o with
  | configChanged stamp r =>
      obtain rfl := Option.some.inj hs
      exact h.configChanged horder
  | alarm a r => exact h.alarm horder hs

theorem throttled_run (h : Reachable step InOrder Start s) : Throttled s :=
  h.invariant Throttled (fun _ => throttled_start) fun _ _ _ ht horder hs => throttled_step ht horder hs

/-- Traps keep to the throttle period, and for a change that has not been reported an alarm
is pending that will report it. -/
theorem changes_reported (h : Reachable step InOrder Start s) :
    (traps s).IsChain Spaced ∧ (Unreported s → ∃ a ∈ s.alarms, ∀ r, InOrder (.alarm a r) s →
      ∃ s', step (.alarm a r) s = some s' ∧ s'.log = .trap r.sent :: s.log) := by
  have ht := throttled_run h
  refine ⟨ht.spaced, fun hun => ?_⟩
  obtain ⟨hle, a, ha, hissued⟩ := ht.unreported hun
  refine ⟨a, ha, fun r horder => ?_⟩
  obtain ⟨-, hdue, -⟩ := horder
  rw [alarmDue_eq] at hdue
  refine ⟨_, if_pos ha, ?_⟩
  rcases poll_cases r { s with alarms := s.alarms.erase a } with ⟨hquiet, -⟩ | ⟨-, -, heq⟩
  · simp only at hquiet
    omega
  · rw [heq]

def still (now : Nat) : Readings := ⟨now, now, now, now⟩

def started : TrapState := ⟨trapThrottlePeriod, trapThrottlePeriod, 0, [], []⟩

theorem start_started : Start started := ⟨Nat.le_refl _, rfl, rfl, rfl, rfl⟩

/-- The second change falls into the throttle period of the first trap. -/
theorem changes_reported_two : ∃ s, s.log = [.change, .trap 5000, .change] ∧ (traps s).IsChain Spaced ∧
    ∃ a ∈ s.alarms, ∀ r, InOrder (.alarm a r) s → ∃ s', step (.alarm a r) s = some s' ∧ s'.log = .trap r.sent :: s.log := by
  have hfirst : Reachable step InOrder Start (LastChangeTime.configChanged 5000 (still 5000) started) :=
    .next (.configChanged 5000 (still 5000)) (.start start_started) (by decide) rfl
  have hsecond : Reachable step InOrder Start
      (LastChangeTime.configChanged 6000 (still 6000) (LastChangeTime.configChanged 5000 (still 5000) started)) :=
    .next (.configChanged 6000 (still 6000)) hfirst (by decide) rfl
  obtain ⟨hspaced, halarm⟩ := changes_reported hsecond
  exact ⟨_, rfl, hspaced, halarm rfl⟩

def Repeats (later earlier : Event) : Prop := later ≠ .change ∧ earlier ≠ .change

def Wanted (log : List Event) : Prop := log.IsChain fun later earlier => ¬ Repeats later earlier

def Renewed : Op → TrapState → Prop
  | .configChanged .., _ => True
  | .alarm _ r, s => Reported s → s.trapLastIssued + trapThrottlePeriod ≤ r.now → s.entLastChangeTime ≠ s.trapLastIssued

theorem wanted_change {log : List Event} (h : Wanted log) : Wanted (.change :: log) :=
  List.isChain_cons.mpr ⟨fun _ _ hr => hr.1 rfl, h⟩

theorem wanted_step (h : Throttled s) (hw : Wanted s.log) (hs : step o s = some s') : Wanted s'.log ↔ Renewed o s := by
  cases o with
  | configChanged stamp r =>
      obtain rfl := Option.some.inj hs
      refine iff_of_true ?_ trivial
      rw [LastChangeTime.configChanged]
      rcases poll_cases r { s with clock := stamp, entLastChangeTime := stamp, log := .change :: s.log } with
        ⟨-, heq⟩ | ⟨-, -, heq⟩
      · rw [heq]
        exact wanted_change hw
      · rw [heq]
        refine List.isChain_cons.mpr ⟨fun e he hr => hr.2 ?_, wanted_change hw⟩
        exact (Option.some.inj he).symm
  | alarm a r =>
      rw [step, alarmEntLastChangeTime] at hs
      split at hs
      · obtain rfl := Option.some.inj hs
        rcases poll_cases r { s with alarms := s.alarms.erase a } with ⟨hquiet, heq⟩ | ⟨hready, hle, heq⟩
        · rw [heq]
          refine iff_of_true hw fun _ hready => ?_
          simp only at hquiet
          omega
        · rw [heq]
          simp only at hready hle
          constructor
          · rintro hwanted ⟨t, ht⟩ -
            refine absurd ?_ ((List.isChain_cons.mp hwanted).1 (.trap t) ht)
            exact ⟨fun h => (nomatch h), fun h => (nomatch h)⟩
          · intro hrenewed
            refine List.isChain_cons.mpr ⟨fun e he hr => ?_, hw⟩
            obtain ⟨t, rfl⟩ : ∃ t, e = .trap t := by
              cases e with
              | change => exact absurd rfl hr.2
              | trap t => exact ⟨t, rfl⟩
            have hsame := h.reported ⟨t, he⟩
            exact hrenewed ⟨t, he⟩ hready (Nat.le_antisymm hsame hle)
      · cases hs

/-- In runs whose steps meet the condition every trap behind another one reports a change,
and the next step breaks this exactly when it does not meet it. -/
theorem traps_wanted (h : Reachable step (fun o s => InOrder o s ∧ Renewed o s) Start s) :
    Wanted s.log ∧ ∀ o s', InOrder o s → step o s = some s' → (Wanted s'.log ↔ Renewed o s) := by
  have hboth : Throttled s ∧ Wanted s.log := by
    refine h.invariant (fun s => Throttled s ∧ Wanted s.log) (fun s hs => ⟨throttled_start hs, ?_⟩) ?_
    · rw [hs.log]
      exact .nil
    · rintro o s s' ⟨ht, hw⟩ ⟨horder, hrenewed⟩ hs
      exact ⟨throttled_step ht horder hs, (wanted_step ht hw hs).mpr hrenewed⟩
  exact ⟨hboth.2, fun o s' _ hs => wanted_step hboth.1 hboth.2 hs⟩

def late : Readings := ⟨5000, 5000, 5001, 5001⟩

theorem traps_wanted_late : Wanted [.trap 5000, .change] := by
  have hfirst : step (.configChanged 5000 late) started = some ⟨5001, 5000, 5001, [5001], [.trap 5000, .change]⟩ := by
    decide +kernel
  have hsecond : step (.alarm 5001 (still 10001)) ⟨5001, 5000, 5001, [5001], [.trap 5000, .change]⟩ =
      some ⟨10001, 5000, 5001, [], [.trap 5000, .change]⟩ := by decide +kernel
  exact (traps_wanted (.next (.alarm 5001 (still 10001)) (.next (.configChanged 5000 late) (.start start_started)
    ⟨by decide, trivial⟩ hfirst) ⟨by decide, fun _ _ => by decide⟩ hsecond)).1

/-- The alarm of the trap for a change sends another one, for its stamps are equal. -/
theorem trap_repeated : ¬ ∀ s, Reachable step InOrder Start s → Wanted s.log := by
  intro hall
  have hfirst : step (.configChanged 5000 (still 5000)) started = some ⟨5000, 5000, 5000, [5000], [.trap 5000, .change]⟩ := by
    decide +kernel
  have hsecond : step (.alarm 5000 (still 10000)) ⟨5000, 5000, 5000, [5000], [.trap 5000, .change]⟩ =
      some ⟨10000, 5000, 10000, [10000], [.trap 10000, .trap 5000, .change]⟩ := by decide +kernel
  have hwanted : Wanted [.trap 10000, .trap 5000, .change] :=
    hall _ (.next (.alarm 5000 (still 10000)) (.next (.configChanged 5000 (still 5000)) (.start start_started) (by decide)
      hfirst) (by decide) hsecond)
  refine absurd ?_ ((List.isChain_cons.mp hwanted).1 (.trap 5000) rfl)
  exact ⟨fun h => (nomatch h), fun h => (nomatch h)⟩

end OiUserland.EntityMib.TrapRuns
