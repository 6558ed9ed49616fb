import OiUserland.Interactive.Boosts

namespace OiUserland.Interactive.ProcessLists

open Clients Boosts

variable {s s' : IAState} {c : ClientId} {priv : ClientPrivate}

theorem listOf_congr (hc : getConnectionPids s' c = getConnectionPids s c)
    (hheap : ∀ a, getConnectionPids s c = some a → s'.heap a = s.heap a) : listOf s' c = listOf s c := by
  unfold listOf
  rw [hc]
  cases ha : getConnectionPids s c with
  | none => rfl
  | some a => exact hheap a ha

theorem connection_self {x : ClientPrivate} (h : s.clients c = some x) : getConnectionPids s c = x.process := by
  rw [getConnectionPids, h, Option.bind_some]

theorem connection_congr (h : s'.clients c = s.clients c) : getConnectionPids s' c = getConnectionPids s c := by
  rw [getConnectionPids, getConnectionPids, h]

structure Freed (s : IAState) (c : ClientId) (s' : IAState) : Prop where
  linked : Linked s'
  nothing : getConnectionPids s' c = none
  lists : ∀ c', c' ≠ c → listOf s' c' = listOf s c'
  focus : ∀ c', Focused s' c' ↔ Focused s c' ∧ c' ≠ c
  procs : s'.procs = s.procs

theorem freeProcessList_spec (hs : Linked s) (hpriv : s.clients c = some priv) :
    Freed s c (freeProcessList c priv s) ∧ (freeProcessList c priv s).clients c = some { priv with process := none } ∧
      ∀ c', c' ≠ c → (freeProcessList c priv s).clients c' = s.clients c' := by
  have hconn := connection_self hpriv
  cases hprocess : priv.process with
  | none =>
      have hfree : freeProcessList c priv s = s := by rw [freeProcessList, hprocess]
      rw [hprocess] at hconn
      have hpriv' : { priv with process := none } = priv := by rw [← hprocess]
      rw [hfree, hpriv']
      refine ⟨⟨hs, hconn, fun _ _ => rfl, fun c' => (and_iff_left_of_imp ?_).symm, rfl⟩, hpriv, fun _ _ => rfl⟩
      rintro ⟨a, ha, -⟩ rfl
      rw [hconn] at ha
      cases ha
  | some cpp =>
      rw [hprocess] at hconn
      have hfree : freeProcessList c priv s = { s with
          clients := Function.update s.clients c (some { priv with process := none })
          lastPids := if s.lastPids = some cpp then none else s.lastPids
          heap := Function.update s.heap cpp none } := by rw [freeProcessList, hprocess]
      rw [hfree]
      have hself : getConnectionPids { s with
          clients := Function.update s.clients c (some { priv with process := none })
          lastPids := if s.lastPids = some cpp then none else s.lastPids
          heap := Function.update s.heap cpp none } c = none :=
        connection_self (x := { priv with process := none }) (Function.update_self ..)
      have hother {c' : ClientId} (hcc : c' ≠ c) : getConnectionPids { s with
          clients := Function.update s.clients c (some { priv with process := none })
          lastPids := if s.lastPids = some cpp then none else s.lastPids
          heap := Function.update s.heap cpp none } c' = getConnectionPids s c' :=
        connection_congr (Function.update_of_ne hcc ..)
      have hne {c' : ClientId} {a : Addr} (hcc : c' ≠ c) (ha : getConnectionPids s c' = some a) : a ≠ cpp := by
        rintro rfl
        exact hcc (hs.sole c' c _ ha hconn)
      have hcases {c' : ClientId} {a : Addr} (ha : getConnectionPids { s with
          clients := Function.update s.clients c (some { priv with process := none })
          lastPids := if s.lastPids = some cpp then none else s.lastPids
          heap := Function.update s.heap cpp none } c' = some a) : c' ≠ c ∧ getConnectionPids s c' = some a := by
        by_cases hcc : c' = c
        · rw [hcc, hself] at ha
          cases ha
        · exact ⟨hcc, (hother hcc) ▸ ha⟩
      refine ⟨⟨⟨fun c' a ha => ?_, fun c₁ c₂ a h₁ h₂ => ?_, fun a ha => ?_, fun a ha => ?_⟩, hself, fun c' hcc => ?_,
        fun c' => ?_, rfl⟩, Function.update_self .., fun c' hcc => Function.update_of_ne hcc ..⟩
      · obtain ⟨hcc, ha'⟩ := hcases ha
        obtain ⟨list, hlist⟩ := hs.live c' a ha'
        exact ⟨list, (Function.update_of_ne (hne hcc ha') ..).trans hlist⟩
      · exact hs.sole c₁ c₂ a (hcases h₁).2 (hcases h₂).2
      · have hcpp : a ≠ cpp := Nat.ne_of_gt (Nat.lt_of_lt_of_le (hs.lt_next hconn) ha)
        exact (Function.update_of_ne hcpp ..).trans (hs.fresh a ha)
      · dsimp only at ha
        by_cases hlast : s.lastPids = some cpp
        · rw [if_pos hlast] at ha
          cases ha
        · rw [if_neg hlast] at ha
          obtain ⟨c', hc'⟩ := hs.owned a ha
          have hcc : c' ≠ c := by
            rintro rfl
            rw [hconn] at hc'
            exact hlast (ha.trans hc'.symm)
          exact ⟨c', (hother hcc).trans hc'⟩
      · exact listOf_congr (hother hcc) fun a ha => Function.update_of_ne (hne hcc ha) ..
      · constructor
        · rintro ⟨a, ha, hlasta⟩
          obtain ⟨hcc, ha'⟩ := hcases ha
          dsimp only at hlasta
          rw [if_neg (fun hlast => by rw [if_pos hlast] at hlasta; cases hlasta)] at hlasta
          exact ⟨⟨a, ha', hlasta⟩, hcc⟩
        · rintro ⟨⟨a, ha, hlasta⟩, hcc⟩
          refine ⟨a, (hother hcc).trans ha, ?_⟩
          dsimp only
          rw [hlasta, if_neg fun h => hne hcc ha (Option.some.inj h)]

structure Replaced (s : IAState) (c : ClientId) (stuff : List Pid) (s' : IAState) : Prop where
  linked : Linked s'
  consistent : Consistent s'.procs
  kept : ∀ c', Kept s' c' ↔ Kept s c'
  pids : ∀ c', pidsOf s' c' = if c' = c then stuff else pidsOf s c'
  flags : ∀ c', flagOf s' c' = if c' = c then false else flagOf s c'
  focus : ∀ c', Focused s' c' ↔ Focused s c' ∧ c' ≠ c
  boosts : ∀ p, Boosted s' p ↔ Boosted s p

theorem setClientPrivate_spec (hs : Linked s) (hp : Consistent s.procs) (hpriv : s.clients c = some priv) (stuff : List Pid) :
    ∃ s', setClientPrivate c stuff s = some s' ∧ Replaced s c stuff s' := by
  obtain ⟨hfreed, hself, hother⟩ := freeProcessList_spec hs hpriv
  rcases hs₁ : freeProcessList c priv s with ⟨clients, heap, next, lastPids, procs⟩
  rw [hs₁] at hfreed hself hother
  dsimp only at hself hother
  have hrun : setClientPrivate c stuff s = some { freeProcessList c priv s with
      clients := Function.update (freeProcessList c priv s).clients c (some { priv with process := some (freeProcessList c priv s).next })
      heap := Function.update (freeProcessList c priv s).heap (freeProcessList c priv s).next (some ⟨stuff, false⟩)
      next := (freeProcessList c priv s).next + 1 } := by
    simp only [setClientPrivate, hpriv]
  rw [hs₁] at hrun
  refine ⟨_, hrun, ?_⟩
  have hconnself : getConnectionPids ⟨Function.update clients c (some { priv with process := some next }),
      Function.update heap next (some ⟨stuff, false⟩), next + 1, lastPids, procs⟩ c = some next :=
    connection_self (x := { priv with process := some next }) (Function.update_self ..)
  have hconn {c' : ClientId} (hcc : c' ≠ c) : getConnectionPids ⟨Function.update clients c (some { priv with process := some next }),
      Function.update heap next (some ⟨stuff, false⟩), next + 1, lastPids, procs⟩ c' =
        getConnectionPids ⟨clients, heap, next, lastPids, procs⟩ c' :=
    connection_congr (Function.update_of_ne hcc ..)
  have hlt {c' : ClientId} {a : Addr} (ha : getConnectionPids ⟨clients, heap, next, lastPids, procs⟩ c' = some a) : a ≠ next :=
    Nat.ne_of_lt (hfreed.linked.lt_next ha)
  have hlist {c' : ClientId} (hcc : c' ≠ c) : listOf ⟨Function.update clients c (some { priv with process := some next }),
      Function.update heap next (some ⟨stuff, false⟩), next + 1, lastPids, procs⟩ c' = listOf s c' := by
    rw [← hfreed.lists c' hcc]
    exact listOf_congr (hconn hcc) fun a ha => Function.update_of_ne (hlt ha) ..
  have hnew : listOf ⟨Function.update clients c (some { priv with process := some next }),
      Function.update heap next (some ⟨stuff, false⟩), next + 1, lastPids, procs⟩ c = some ⟨stuff, false⟩ := by
    rw [listOf_eq hconnself]
    exact Function.update_self ..
  have hlast {a : Addr} (ha : lastPids = some a) : a ≠ next := by
    obtain ⟨c', hc'⟩ := hfreed.linked.owned a ha
    exact hlt hc'
  refine ⟨⟨fun c' a ha => ?_, fun c₁ c₂ a h₁ h₂ => ?_, fun a ha => ?_, fun a ha => ?_⟩, ?_, fun c' => ?_, fun c' => ?_, fun c' => ?_,
    fun c' => ?_, fun p => ?_⟩
  · by_cases hcc : c' = c
    · rw [hcc, hconnself] at ha
      obtain rfl := Option.some.inj ha
      exact ⟨_, Function.update_self ..⟩
    · rw [hconn hcc] at ha
      obtain ⟨list, hlist⟩ := hfreed.linked.live c' a ha
      exact ⟨list, (Function.update_of_ne (hlt ha) ..).trans hlist⟩
  · by_cases hc₁ : c₁ = c
    · by_cases hc₂ : c₂ = c
      · rw [hc₁, hc₂]
      · rw [hc₁, hconnself] at h₁
        rw [hconn hc₂] at h₂
        exact absurd (Option.some.inj h₁).symm (hlt h₂)
    · by_cases hc₂ : c₂ = c
      · rw [hc₂, hconnself] at h₂
        rw [hconn hc₁] at h₁
        exact absurd (Option.some.inj h₂).symm (hlt h₁)
      · rw [hconn hc₁] at h₁
        rw [hconn hc₂] at h₂
        exact hfreed.linked.sole c₁ c₂ a h₁ h₂
  · have hne : a ≠ next := Nat.ne_of_gt ha
    exact (Function.update_of_ne hne ..).trans (hfreed.linked.fresh a (Nat.le_of_succ_le ha))
  · obtain ⟨c', hc'⟩ := hfreed.linked.owned a ha
    have hcc : c' ≠ c := by
      rintro rfl
      rw [hfreed.nothing] at hc'
      cases hc'
    exact ⟨c', (hconn hcc).trans hc'⟩
  · exact hfreed.procs ▸ hp
  · unfold Kept
    by_cases hcc : c' = c
    · rw [hcc, hpriv]
      dsimp only
      rw [Function.update_self]
      rfl
    · dsimp only
      rw [Function.update_of_ne hcc, hother c' hcc]
  · by_cases hcc : c' = c
    · rw [if_pos hcc, hcc, pidsOf, hnew]
      rfl
    · rw [if_neg hcc, pidsOf, hlist hcc, pidsOf]
  · by_cases hcc : c' = c
    · rw [if_pos hcc, hcc, flagOf, hnew]
      rfl
    · rw [if_neg hcc, flagOf, hlist hcc, flagOf]
  · rw [← hfreed.focus c']
    by_cases hcc : c' = c
    · subst hcc
      refine iff_of_false ?_ ?_
      · rintro ⟨a, ha, hlasta⟩
        rw [hconnself] at ha
        exact hlast hlasta (Option.some.inj ha).symm
      · rintro ⟨a, ha, -⟩
        rw [hfreed.nothing] at ha
        cases ha
    · unfold Focused
      rw [hconn hcc]
  · have hprocs : procs = s.procs := hfreed.procs
    rw [Boosted, Boosted, hprocs]

theorem setProcess_spec (hs : Linked s) (hp : Consistent s.procs) (hpriv : s.clients c = some priv) (stuff : List Pid) :
    ∃ s', (do changeInteractive c (← setClientPrivate c stuff s)) = some s' ∧ Replaced s c stuff s' := by
  obtain ⟨s₁, hrun, hr⟩ := setClientPrivate_spec hs hp hpriv stuff
  rw [hrun, Option.bind_eq_bind, Option.bind_some, changeInteractive]
  cases hconn : getConnectionPids s₁ c with
  | none => exact ⟨s₁, rfl, hr⟩
  | some a =>
      obtain ⟨s₂, hrun₂, halike, hlast, hflag, hval⟩ := setPriority_spec hr.linked hr.consistent hconn .setInteractive
      refine ⟨s₂, hrun₂, halike.linked, halike.consistent, fun c' => halike.kept.trans (hr.kept c'), fun c' => ?_, fun c' => ?_,
        fun c' => (halike.focused hlast).trans (hr.focus c'), fun p => ?_⟩
      · rw [halike.pids, hr.pids]
      · rw [hflag c', ← hr.flags c']
        split
        · next h => exact congrArg (flagOf s₁) h.1.symm
        · rfl
      · rw [← hr.boosts p, Boosted, Boosted, hval p]
        exact iff_of_eq (congrArg (· = true) (ite_self _))

structure Dropped (s : IAState) (c : ClientId) (s' : IAState) : Prop where
  linked : Linked s'
  clients : s'.clients = Function.update s.clients c none
  lists : ∀ c', c' ≠ c → listOf s' c' = listOf s c'
  nothing : listOf s' c = none
  focus : ∀ c', Focused s' c' ↔ Focused s c' ∧ c' ≠ c
  procs : s'.procs = s.procs

theorem drop_spec (hs : Linked s) (hpriv : s.clients c = some priv) :
    Dropped s c { freeProcessList c priv s with clients := Function.update (freeProcessList c priv s).clients c none } := by
  obtain ⟨hfreed, hself, hother⟩ := freeProcessList_spec hs hpriv
  rcases hs₁ : freeProcessList c priv s with ⟨clients, heap, next, lastPids, procs⟩
  rw [hs₁] at hfreed hself hother
  dsimp only at hself hother ⊢
  have hconn (c' : ClientId) : getConnectionPids ⟨Function.update clients c none, heap, next, lastPids, procs⟩ c' =
      getConnectionPids ⟨clients, heap, next, lastPids, procs⟩ c' := by
    by_cases hcc : c' = c
    · rw [hcc, hfreed.nothing]
      change (Function.update clients c none c).bind ClientPrivate.process = none
      rw [Function.update_self]
      rfl
    · exact connection_congr (Function.update_of_ne hcc ..)
  have hlist (c' : ClientId) : listOf ⟨Function.update clients c none, heap, next, lastPids, procs⟩ c' =
      listOf ⟨clients, heap, next, lastPids, procs⟩ c' := listOf_congr (hconn c') fun _ _ => rfl
  refine ⟨⟨fun c' a ha => ?_, fun c₁ c₂ a h₁ h₂ => ?_, hfreed.linked.fresh, fun a ha => ?_⟩, ?_, fun c' hcc => ?_, ?_, fun c' => ?_,
    hfreed.procs⟩
  · exact hfreed.linked.live c' a (hconn c' ▸ ha)
  · exact hfreed.linked.sole c₁ c₂ a (hconn c₁ ▸ h₁) (hconn c₂ ▸ h₂)
  · obtain ⟨c', hc'⟩ := hfreed.linked.owned a ha
    exact ⟨c', (hconn c').trans hc'⟩
  · funext c'
    by_cases hcc : c' = c
    · rw [hcc]
      change Function.update clients c none c = Function.update s.clients c none c
      rw [Function.update_self, Function.update_self]
    · exact (Function.update_of_ne hcc ..).trans ((hother c' hcc).trans (Function.update_of_ne hcc ..).symm)
  · exact (hlist c').trans (hfreed.lists c' hcc)
  · rw [hlist, listOf, hfreed.nothing]
    rfl
  · rw [← hfreed.focus c']
    unfold Focused
    rw [hconn c']

end OiUserland.Interactive.ProcessLists
