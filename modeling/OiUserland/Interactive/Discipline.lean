import OiUserland.Interactive.BoostRuns

namespace OiUserland.Interactive.Discipline

open Lib.Runs Clients Boosts ProcessLists BoostRuns

variable {s : IAState}

def unconnected (procs : Pid → Proc) : IAState := ⟨fun _ => none, fun _ => none, 0, none, procs⟩

/-- The states in which the server begins to serve clients. -/
def Init (s : IAState) : Prop :=
  ∃ serverPid procs, (∀ p, (procs p).interactive = true → p = serverPid ∧ (procs p).ia = true) ∧
    iaInitTimerCall serverPid (unconnected procs) = some s

theorem start_inv {serverPid : Pid} {procs : Pid → Proc}
    (hprocs : ∀ p, (procs p).interactive = true → p = serverPid ∧ (procs p).ia = true) :
    ∃ s, iaInitTimerCall serverPid (unconnected procs) = some s ∧ Inv s := by
  have hpriv : (iaInitClientPrivate serverClient (unconnected procs)).clients serverClient = some ⟨none, false⟩ := rfl
  have hnone (c : ClientId) : getConnectionPids (iaInitClientPrivate serverClient (unconnected procs)) c = none := by
    by_cases hc : c = serverClient
    · rw [hc]
      exact connection_self hpriv
    · have hclient : (iaInitClientPrivate serverClient (unconnected procs)).clients c = none := Function.update_of_ne hc ..
      rw [getConnectionPids, hclient]
      rfl
  have hkept (c : ClientId) : Kept (iaInitClientPrivate serverClient (unconnected procs)) c ↔ c = serverClient := by
    refine or_iff_left_of_imp fun hwmgr => by_contra fun hc => ?_
    have hclient : (iaInitClientPrivate serverClient (unconnected procs)).clients c = none := Function.update_of_ne hc ..
    rw [hclient] at hwmgr
    cases hwmgr
  have hlinked : Linked (iaInitClientPrivate serverClient (unconnected procs)) := by
    refine ⟨fun c a ha => ?_, fun c c' a ha => ?_, fun _ _ => rfl, fun _ h => by cases h⟩
    · rw [hnone c] at ha
      cases ha
    · rw [hnone c] at ha
      cases ha
  have hcons : Consistent (iaInitClientPrivate serverClient (unconnected procs)).procs := fun p hp => (hprocs p hp).2
  obtain ⟨s₁, hrun₁, hr⟩ := setClientPrivate_spec hlinked hcons hpriv [serverPid]
  have hfocus (c : ClientId) : ¬ Focused s₁ c := by
    rw [hr.focus c]
    rintro ⟨⟨a, ha, -⟩, -⟩
    rw [hnone c] at ha
    cases ha
  have hpids (c : ClientId) : pidsOf s₁ c = if c = serverClient then [serverPid] else [] := by
    rw [hr.pids c, pidsOf_none (hnone c)]
  have hflags (c : ClientId) : flagOf s₁ c = false := by
    rw [hr.flags c, flagOf, listOf, hnone c]
    exact ite_self _
  have hsame : ¬ Same s₁ serverClient := by
    rw [same_iff hr.linked]
    rintro ⟨-, c, hc, -⟩
    exact hfocus c hc
  obtain ⟨s₂, hrun₂, hch⟩ := changePriority_spec hr.linked hr.consistent hsame
  have hk : ∀ c, Kept s₂ c ↔ c = serverClient := fun c => hch.toAlike.kept.trans ((hr.kept c).trans (hkept c))
  have hno (c : ClientId) : ¬ Focused s₂ c := by
    rw [hch.focus c]
    rintro ⟨-, hserver, -⟩
    exact hserver ((hr.kept _).mpr ((hkept _).mpr rfl))
  refine ⟨s₂, ?_, hch.linked, hch.consistent, fun c => ?_, fun c hc => absurd hc (hno c), fun p => ?_⟩
  · simp only [iaInitTimerCall, hrun₁, Option.bind_eq_bind, Option.bind_some, hrun₂]
  · rw [hch.flags c, hflags c, hch.pids, hk c, or_iff_left (hno c)]
    constructor
    · rintro (⟨rfl, hne⟩ | ⟨hfalse, -⟩)
      · exact ⟨hne, rfl⟩
      · cases hfalse
    · rintro ⟨hne, rfl⟩
      exact .inl ⟨rfl, hne⟩
  · have hhas : ¬ FocusHas s₂ p := fun h => h.elim fun c hc => hno c hc.1
    have hheld : Held s₂ p ↔ p = serverPid := by
      unfold Held
      simp only [hk, hch.pids, exists_eq_left, hpids, if_true, List.mem_singleton]
    rw [hch.boosts p, hheld, or_iff_left hhas, hflags, hpids, if_pos rfl, List.mem_singleton, and_iff_left rfl, hr.boosts p]
    refine or_iff_right_of_imp fun hp => ?_
    exact (hprocs p hp.1).1

theorem step_inv {op : Op} (h : Inv s) (hlegal : Legal op s) (hsafe : Safe op s) :
    ∃ s', step op s = some s' ∧ Inv s' ∧ ∀ c, changed op s = some c → Exact s' c := by
  cases op with
  | connect client clientPid =>
      obtain ⟨s', hrun, hinv⟩ := h.connect hlegal.1 hlegal.2 clientPid
      exact ⟨s', hrun, hinv, nofun⟩
  | disconnect client =>
      obtain ⟨s', hrun, hinv⟩ := h.disconnect hlegal hsafe
      exact ⟨s', hrun, hinv, nofun⟩
  | setProcessInfo client stuff =>
      obtain ⟨priv, hpriv⟩ := Option.ne_none_iff_exists'.mp hlegal.2
      obtain ⟨s', hrun, hinv⟩ := h.setProcessInfo hpriv hsafe
      exact ⟨s', hrun, hinv, nofun⟩
  | setInputFocus requestee =>
      cases requestee with
      | none => exact ⟨s, rfl, h, nofun⟩
      | some requestee =>
          obtain ⟨s', hrun, hinv, hexact⟩ := h.changePriority (hsafe requestee rfl)
          refine ⟨s', hrun, hinv, fun c hc => ?_⟩
          exact Option.some.inj hc ▸ hexact
  | sendEvent client clientMessage requestee =>
      obtain ⟨priv, hpriv⟩ := Option.ne_none_iff_exists'.mp hlegal.2
      by_cases hmessage : priv.wmgr = true ∧ clientMessage = true
      · have hchanged : changed (.sendEvent client clientMessage requestee) s = some requestee := by
          rw [changed, hpriv, Option.map_some, hmessage.1, if_pos ⟨rfl, hmessage.2⟩]
        obtain ⟨s', hrun, hinv, hexact⟩ := h.changePriority (hsafe hchanged)
        refine ⟨s', ?_, hinv, fun c hc => ?_⟩
        · simp only [step, iaProcSendEvent, hpriv, Option.bind_eq_bind, Option.bind_some, if_pos hmessage, hrun]
        · exact Option.some.inj (hchanged.symm.trans hc) ▸ hexact
      · refine ⟨s, ?_, h, fun c hc => ?_⟩
        · simp only [step, iaProcSendEvent, hpriv, Option.bind_eq_bind, Option.bind_some, if_neg hmessage]
        · rw [changed, hpriv, Option.map_some, if_neg fun hm => hmessage ⟨Option.some.inj hm.1, hm.2⟩] at hc
          cases hc
  | changeWindowAttributes client redirects =>
      obtain ⟨priv, hpriv⟩ := Option.ne_none_iff_exists'.mp hlegal.2
      by_cases hdetect : priv.wmgr = false ∧ redirects = true
      · have hchanged : changed (.changeWindowAttributes client redirects) s = some client := by
          rw [changed, hpriv, Option.map_some, hdetect.1, if_pos ⟨rfl, hdetect.2⟩]
        have hkept : ¬ Kept s client := by
          rintro (hserver | hwmgr)
          · exact hlegal.1 hserver
          · rw [hpriv, Option.map_some, hdetect.1] at hwmgr
            cases hwmgr
        obtain ⟨s', hrun, hinv, hexact⟩ := h.promote hpriv hkept (hsafe hchanged)
        refine ⟨{ s' with lastPids := none }, ?_, hinv, fun c hc => ?_⟩
        · unfold marked at hrun
          simp only [step, iaProcChangeWindowAttributes, hpriv, Option.bind_eq_bind, Option.bind_some, if_pos hdetect, hrun]
        · exact Option.some.inj (hchanged.symm.trans hc) ▸ hexact
      · refine ⟨s, ?_, h, fun c hc => ?_⟩
        · simp only [step, iaProcChangeWindowAttributes, hpriv, Option.bind_eq_bind, Option.bind_some, if_neg hdetect]
        · rw [changed, hpriv, Option.map_some, if_neg fun hm => hdetect ⟨Option.some.inj hm.1, hm.2⟩] at hc
          cases hc

theorem reached_inv (h : Reachable step (fun op s => Legal op s ∧ Safe op s) Init s) : Inv s := by
  refine h.invariant Inv ?_ ?_
  · rintro s ⟨serverPid, procs, hprocs, hrun⟩
    obtain ⟨s₁, hrun₁, hinv⟩ := start_inv hprocs
    exact Option.some.inj (hrun₁.symm.trans hrun) ▸ hinv
  · rintro op s s' hinv ⟨hlegal, hsafe⟩ hrun
    obtain ⟨s₁, hrun₁, hinv₁, -⟩ := step_inv hinv hlegal hsafe
    exact Option.some.inj (hrun₁.symm.trans hrun) ▸ hinv₁

/-- In a run that keeps the discipline nothing goes wrong in any call, LastPids is as it has to be,
and each change boosts the processes of the client it is made for. -/
theorem boosts_follow (h : Reachable step (fun op s => Legal op s ∧ Safe op s) Init s) :
    LastOk s ∧ ∀ op, Legal op s → Safe op s → ∃ s', step op s = some s' ∧ ∀ c, changed op s = some c → Exact s' c := by
  have hinv := reached_inv h
  refine ⟨hinv.lastOk, fun op hlegal hsafe => ?_⟩
  obtain ⟨s', hrun, -, hexact⟩ := step_inv hinv hlegal hsafe
  exact ⟨s', hrun, hexact⟩

/-- A server with process 1 and a client with process 7, which gets the focus. -/
theorem boosts_follow_focus :
    ∃ s, (iaInitTimerCall 1 (unconnected fun _ => ⟨false, false⟩)).bind
        (exec step [.connect 1 (some 7), .setInputFocus (some 1)]) = some s ∧
      LastOk s ∧ ∀ op, Legal op s → Safe op s → ∃ s', step op s = some s' ∧ ∀ c, changed op s = some c → Exact s' c := by
  refine ⟨_, rfl, boosts_follow (.next (.setInputFocus (some 1)) (.next (.connect 1 (some 7)) (.start ⟨1, fun _ => ⟨false, false⟩,
    nofun, rfl⟩) ⟨⟨by decide, rfl⟩, trivial⟩ rfl) ⟨trivial, fun c _ => ?_⟩ rfl)⟩
  refine ⟨fun _ p hp => ?_, fun _ p hp => ?_⟩ <;>
  · obtain ⟨c', ⟨a, -, ha⟩, -⟩ := hp
    cases ha

/-- The process of a client that has replaced its list while it had the focus stays boosted. -/
theorem boosts_linger :
    ¬ ∀ s, Reachable step Legal Init s →
      LastOk s ∧ ∀ op, Legal op s → ∃ s', step op s = some s' ∧ ∀ c, changed op s = some c → Exact s' c := by
  intro h
  obtain ⟨s, hreach, hs⟩ : ∃ s, Reachable step Legal Init s ∧
      (iaInitTimerCall 1 (unconnected fun _ => ⟨false, false⟩)).bind
        (exec step [.connect 1 (some 7), .setInputFocus (some 1), .setProcessInfo 1 ⟨true, 0, 0, true, [8]⟩]) = some s := by
    refine ⟨_, .next (.setProcessInfo 1 ⟨true, 0, 0, true, [8]⟩) (.next (.setInputFocus (some 1)) (.next (.connect 1 (some 7))
      (.start ⟨1, fun _ => ⟨false, false⟩, nofun, rfl⟩) ⟨by decide, rfl⟩ rfl) trivial rfl) ⟨by decide, nofun⟩ rfl, rfl⟩
  obtain rfl := Option.some.inj hs
  obtain ⟨s', hrun, hexact⟩ := (h _ hreach).2 (.setInputFocus (some serverClient)) trivial
  obtain rfl := Option.some.inj hrun
  rcases (hexact serverClient rfl 7).mp rfl with ⟨c, -, hmem⟩ | hmem
  · match c with
    | 0 => exact absurd hmem (by decide)
    | 1 => exact absurd hmem (by decide)
    | c + 2 => cases hmem
  · exact absurd hmem (by decide)

end OiUserland.Interactive.Discipline
