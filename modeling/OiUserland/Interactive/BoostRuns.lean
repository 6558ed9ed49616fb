import OiUserland.Lib.Runs
import OiUserland.Interactive.ProcessLists

namespace OiUserland.Interactive.BoostRuns

open Clients Boosts ProcessLists

variable {s s' : IAState} {c c' : ClientId}

structure Inv (s : IAState) : Prop where
  linked : Linked s
  consistent : Consistent s.procs
  flags : ∀ c, flagOf s c = true ↔ pidsOf s c ≠ [] ∧ (Kept s c ∨ Focused s c)
  free : ∀ c, Focused s c → ¬ Kept s c ∧ pidsOf s c ≠ []
  boosts : ∀ p, Boosted s p ↔ Held s p ∨ FocusHas s p

/-- LastPids is NULL or the list of a connected client that is neither the server nor a window
manager, whose processes are boosted. -/
def LastOk (s : IAState) : Prop :=
  ∀ a, s.lastPids = some a → ∃ c list, getConnectionPids s c = some a ∧ ¬ Kept s c ∧ s.heap a = some list ∧
    ∀ p ∈ list.pids, Boosted s p

def Exact (s : IAState) (c : ClientId) : Prop := ∀ p, Boosted s p ↔ Held s p ∨ p ∈ pidsOf s c

structure Hands (s : IAState) (c : ClientId) : Prop where
  same : Same s c → ∀ p, FocusHas s p → p ∈ pidsOf s c ∨ Held s p
  other : ¬ Same s c → ∀ p, FocusHas s p → Held s p → p ∈ pidsOf s c ∧ ¬ Kept s c

structure Promotes (s : IAState) (c : ClientId) : Prop where
  same : Same s c → Focused s c
  other : ¬ Same s c → ∀ p, FocusHas s p → Held s p → p ∈ pidsOf s c

/-- A client that goes has the focus if its list is equal to the one that has it. If its list
is boosted it shares no process with the server, a window manager or another list with the
focus. -/
structure Leaves (s : IAState) (c : ClientId) : Prop where
  same : Same s c → Focused s c
  apart : Kept s c ∨ Focused s c → ∀ p ∈ pidsOf s c, ∀ c', c' ≠ c → Kept s c' ∨ Focused s c' → p ∉ pidsOf s c'

/-- A step that keeps the discipline. A list that is boosted is not replaced. -/
def Safe : Op → IAState → Prop
  | .connect _ _, _ => True
  | .disconnect client, s => s.clients client ≠ none → Leaves s client
  | .setProcessInfo client stuff, s => stuff.permitted → ¬ Kept s client ∧ ¬ Focused s client
  | .setInputFocus requestee, s => ∀ c, requestee = some c → Hands s c
  | .sendEvent client clientMessage requestee, s => changed (.sendEvent client clientMessage requestee) s = some requestee →
      Hands s requestee
  | .changeWindowAttributes client redirects, s => changed (.changeWindowAttributes client redirects) s = some client →
      Promotes s client

theorem Inv.lastOk (h : Inv s) : LastOk s := by
  intro a ha
  obtain ⟨c, hc⟩ := h.linked.owned a ha
  obtain ⟨list, hlist⟩ := h.linked.live c a hc
  have hfocus : Focused s c := ⟨a, hc, ha⟩
  refine ⟨c, list, hc, (h.free c hfocus).1, hlist, fun p hp => ?_⟩
  exact (h.boosts p).mpr (.inr ⟨c, hfocus, by rwa [pidsOf_eq hc hlist]⟩)

theorem Inv.changePriority (h : Inv s) (hands : Hands s c) : ∃ s', changePriority c s = some s' ∧ Inv s' ∧ Exact s' c := by
  by_cases hsame : Same s c
  · refine ⟨s, changePriority_same hsame, h, fun p => ?_⟩
    obtain ⟨-, c', hfocus, -, hsubset⟩ := (same_iff h.linked).mp hsame
    rw [h.boosts p]
    constructor
    · rintro (hheld | hhas)
      · exact .inl hheld
      · exact (hands.same hsame p hhas).symm
    · rintro (hheld | hmem)
      · exact .inl hheld
      · exact .inr ⟨c', hfocus, hsubset p hmem⟩
  · obtain ⟨s', hrun, hch⟩ := changePriority_spec h.linked h.consistent hsame
    have hheld (p : Pid) : Held s' p ↔ Held s p := hch.toAlike.held
    have hhas (p : Pid) : FocusHas s' p ↔ p ∈ pidsOf s c ∧ ¬ Kept s c := by
      unfold FocusHas
      simp only [hch.focus, hch.pids]
      constructor
      · rintro ⟨c', ⟨rfl, hk, -⟩, hmem⟩
        exact ⟨hmem, hk⟩
      · rintro ⟨hmem, hk⟩
        exact ⟨c, ⟨rfl, hk, List.ne_nil_of_mem hmem⟩, hmem⟩
    have hflag {p : Pid} (hmem : p ∈ pidsOf s c) : flagOf s c = false ↔ ¬ Kept s c := by
      rw [Bool.eq_false_iff, ne_eq, h.flags c, and_iff_right (List.ne_nil_of_mem hmem)]
      exact not_congr (or_iff_left fun hfocus => hsame (same_of_focused h.linked hfocus))
    have hboosts (p : Pid) : Boosted s' p ↔ Held s p ∨ p ∈ pidsOf s c ∧ ¬ Kept s c := by
      rw [hch.boosts p, h.boosts p]
      constructor
      · rintro (⟨hheld | hhas, hnot⟩ | ⟨hmem, hfalse⟩)
        · exact .inl hheld
        · exact absurd hhas hnot
        · exact .inr ⟨hmem, (hflag hmem).mp hfalse⟩
      · rintro (hheld | ⟨hmem, hk⟩)
        · by_cases hfoc : FocusHas s p
          · obtain ⟨hmem, hk⟩ := hands.other hsame p hfoc hheld
            exact .inr ⟨hmem, (hflag hmem).mpr hk⟩
          · exact .inl ⟨.inl hheld, hfoc⟩
        · exact .inr ⟨hmem, (hflag hmem).mpr hk⟩
    refine ⟨s', hrun, ⟨hch.linked, hch.consistent, fun c' => ?_, fun c' hfocus => ?_, fun p => ?_⟩, fun p => ?_⟩
    · rw [hch.flags c', hch.pids, hch.toAlike.kept, hch.focus c', h.flags c']
      by_cases hcc : c' = c
      · subst hcc
        constructor
        · rintro (⟨-, hne⟩ | ⟨⟨hne, -⟩, -⟩)
          · exact ⟨hne, or_iff_not_imp_left.mpr fun hk => ⟨rfl, hk, hne⟩⟩
          · exact ⟨hne, or_iff_not_imp_left.mpr fun hk => ⟨rfl, hk, hne⟩⟩
        · rintro ⟨hne, -⟩
          exact .inl ⟨rfl, hne⟩
      · constructor
        · rintro (⟨heq, -⟩ | ⟨⟨hne, hk | hfocus⟩, hnot⟩)
          · exact absurd heq hcc
          · exact ⟨hne, .inl hk⟩
          · exact absurd ⟨hfocus, hne⟩ hnot
        · rintro ⟨hne, hk | ⟨heq, -⟩⟩
          · exact .inr ⟨⟨hne, .inl hk⟩, fun hfocus => (h.free c' hfocus.1).1 hk⟩
          · exact absurd heq hcc
    · obtain ⟨rfl, hk, hne⟩ := (hch.focus c').mp hfocus
      rw [hch.toAlike.kept, hch.pids]
      exact ⟨hk, hne⟩
    · rw [hboosts p, hheld p, hhas p]
    · rw [hboosts p, hheld p, hch.pids]
      constructor
      · rintro (hheld | ⟨hmem, -⟩)
        · exact .inl hheld
        · exact .inr hmem
      · rintro (hheld | hmem)
        · exact .inl hheld
        · by_cases hk : Kept s c
          · exact .inl ⟨c, hk, hmem⟩
          · exact .inr ⟨hmem, hk⟩

section Managers

def marked (s : IAState) (c : ClientId) (priv : ClientPrivate) : IAState :=
  { s with clients := Function.update s.clients c (some { priv with wmgr := true }) }

variable {priv : ClientPrivate}

theorem linked_congr (hs : Linked s) (hconn : ∀ c, getConnectionPids s' c = getConnectionPids s c) (hheap : s'.heap = s.heap)
    (hnext : s'.next = s.next) (hlast : s'.lastPids = s.lastPids) : Linked s' := by
  refine ⟨fun c a ha => ?_, fun c₁ c₂ a h₁ h₂ => ?_, fun a ha => ?_, fun a ha => ?_⟩
  · rw [hheap]
    exact hs.live c a (hconn c ▸ ha)
  · exact hs.sole c₁ c₂ a (hconn c₁ ▸ h₁) (hconn c₂ ▸ h₂)
  · rw [hheap]
    exact hs.fresh a (hnext ▸ ha)
  · obtain ⟨c, hc⟩ := hs.owned a (hlast ▸ ha)
    exact ⟨c, (hconn c).trans hc⟩

theorem marked_connection (hpriv : s.clients c = some priv) (c' : ClientId) :
    getConnectionPids (marked s c priv) c' = getConnectionPids s c' := by
  by_cases hcc : c' = c
  · subst hcc
    rw [connection_self hpriv]
    exact connection_self (x := { priv with wmgr := true }) (Function.update_self ..)
  · exact connection_congr (Function.update_of_ne hcc ..)

theorem marked_linked (hs : Linked s) (hpriv : s.clients c = some priv) : Linked (marked s c priv) :=
  linked_congr hs (marked_connection hpriv) rfl rfl rfl

theorem marked_list (hpriv : s.clients c = some priv) : listOf (marked s c priv) = listOf s := by
  funext c'
  exact listOf_congr (marked_connection hpriv c') fun _ _ => rfl

theorem marked_focused (hpriv : s.clients c = some priv) : Focused (marked s c priv) c' ↔ Focused s c' := by
  unfold Focused
  rw [marked_connection hpriv]
  rfl

theorem marked_kept : Kept (marked s c priv) c' ↔ Kept s c' ∨ c' = c := by
  unfold Kept marked
  dsimp only
  by_cases hcc : c' = c
  · subst hcc
    rw [Function.update_self]
    exact iff_of_true (.inr rfl) (.inr rfl)
  · rw [Function.update_of_ne hcc]
    exact (or_iff_left hcc).symm

theorem Inv.promote (h : Inv s) (hpriv : s.clients c = some priv) (hk : ¬ Kept s c) (hp : Promotes s c) :
    ∃ s', Clients.changePriority c (marked s c priv) = some s' ∧ Inv { s' with lastPids := none } ∧
      Exact { s' with lastPids := none } c := by
  have hlinked := marked_linked h.linked hpriv
  have hpids : pidsOf (marked s c priv) = pidsOf s := by
    funext c'
    rw [pidsOf, pidsOf, marked_list hpriv]
  have hflags : flagOf (marked s c priv) = flagOf s := by
    funext c'
    rw [flagOf, flagOf, marked_list hpriv]
  have hhas (p : Pid) : FocusHas (marked s c priv) p ↔ FocusHas s p := by
    unfold FocusHas
    simp only [marked_focused hpriv, hpids]
  have hsame : Same (marked s c priv) c ↔ Same s c := by
    unfold Same
    rw [marked_connection hpriv]
    rfl
  -- what is left when nothing has the focus any more
  have hrest {t : IAState} (ht : Linked t) (hcons : Consistent t.procs) (hkept : ∀ c', Kept t c' ↔ Kept s c' ∨ c' = c)
      (hpidst : pidsOf t = pidsOf s)
      (hflagt : ∀ c', flagOf t c' = true ↔ pidsOf s c' ≠ [] ∧ (Kept s c' ∨ c' = c))
      (hboost : ∀ p, Boosted t p ↔ Held s p ∨ p ∈ pidsOf s c) :
      Inv { t with lastPids := none } ∧ Exact { t with lastPids := none } c := by
    have hno (c' : ClientId) : ¬ Focused { t with lastPids := none } c' := focused_of_none rfl
    have hheld (p : Pid) : Held { t with lastPids := none } p ↔ Held s p ∨ p ∈ pidsOf s c := by
      change (∃ c', Kept t c' ∧ p ∈ pidsOf t c') ↔ _
      simp only [hkept, hpidst]
      constructor
      · rintro ⟨c', hk | rfl, hmem⟩
        · exact .inl ⟨c', hk, hmem⟩
        · exact .inr hmem
      · rintro (⟨c', hk, hmem⟩ | hmem)
        · exact ⟨c', .inl hk, hmem⟩
        · exact ⟨c, .inr rfl, hmem⟩
    refine ⟨⟨⟨ht.live, ht.sole, ht.fresh, fun _ h => by cases h⟩, hcons, fun c' => ?_, fun c' hfocus => absurd hfocus (hno c'), fun p => ?_⟩,
      fun p => ?_⟩
    · rw [or_iff_left (hno c')]
      change flagOf t c' = true ↔ pidsOf t c' ≠ [] ∧ Kept t c'
      rw [hflagt c', hpidst, hkept c']
    · rw [hheld p, or_iff_left fun h => h.elim fun c' hc' => hno c' hc'.1]
      exact hboost p
    · change Boosted t p ↔ _ ∨ p ∈ pidsOf t c
      rw [hheld p, hpidst, or_assoc, or_self]
      exact hboost p
  by_cases hs : Same s c
  · have hfocus := hp.same hs
    have hunique {c' : ClientId} : Focused s c' ↔ c' = c :=
      ⟨fun hc' => h.linked.focused_unique hc' hfocus, fun heq => heq ▸ hfocus⟩
    refine ⟨marked s c priv, changePriority_same (hsame.mpr hs),
      hrest hlinked h.consistent (fun c' => marked_kept) hpids (fun c' => ?_) fun p => ?_⟩
    · rw [hflags, h.flags c', hunique]
    · change Boosted s p ↔ _
      rw [h.boosts p]
      refine or_congr_right ⟨?_, fun hmem => ⟨c, hfocus, hmem⟩⟩
      rintro ⟨c', hc', hmem⟩
      exact hunique.mp hc' ▸ hmem
  · obtain ⟨s', hrun, hch⟩ := changePriority_spec hlinked h.consistent fun hs' => hs (hsame.mp hs')
    refine ⟨s', hrun, hrest hch.linked hch.consistent (fun c' => hch.toAlike.kept.trans marked_kept)
      (hch.pids.trans hpids) (fun c' => ?_) fun p => ?_⟩
    · rw [hch.flags c', hpids, hflags, marked_focused hpriv, h.flags c']
      by_cases hcc : c' = c
      · subst hcc
        constructor
        · rintro (⟨-, hne⟩ | ⟨⟨hne, -⟩, -⟩)
          · exact ⟨hne, .inr rfl⟩
          · exact ⟨hne, .inr rfl⟩
        · rintro ⟨hne, -⟩
          exact .inl ⟨rfl, hne⟩
      · constructor
        · rintro (⟨heq, -⟩ | ⟨⟨hne, hk | hfocus⟩, hnot⟩)
          · exact absurd heq hcc
          · exact ⟨hne, .inl hk⟩
          · exact absurd ⟨hfocus, hne⟩ hnot
        · rintro ⟨hne, hk | heq⟩
          · exact .inr ⟨⟨hne, .inl hk⟩, fun hfocus => (h.free c' hfocus.1).1 hk⟩
          · exact absurd heq hcc
    · have hfocus : ¬ Focused s c := fun hfocus => hs (same_of_focused h.linked hfocus)
      have hflag : flagOf s c = false := by
        rw [Bool.eq_false_iff, ne_eq, h.flags c]
        rintro ⟨-, hk' | hfocus'⟩
        · exact hk hk'
        · exact hfocus hfocus'
      rw [hch.boosts p, hpids, hflags, hflag, hhas p]
      change (Boosted s p ∧ _) ∨ _ ↔ _
      rw [h.boosts p, and_iff_left rfl]
      constructor
      · rintro (⟨hheld | hhas, hnot⟩ | hmem)
        · exact .inl hheld
        · exact absurd hhas hnot
        · exact .inr hmem
      · rintro (hheld | hmem)
        · by_cases hfoc : FocusHas s p
          · exact .inr (hp.other hs p hfoc hheld)
          · exact .inl ⟨.inl hheld, hfoc⟩
        · exact .inr hmem

end Managers

section Lists

variable {priv : ClientPrivate} {stuff : List Pid}

theorem Inv.replace (h : Inv s) (hr : Replaced s c stuff s') (hk : ¬ Kept s c) (hfocus : ¬ Focused s c) : Inv s' := by
  have hfoc (c' : ClientId) : Focused s' c' ↔ Focused s c' := by
    rw [hr.focus c']
    exact and_iff_left_of_imp fun hc' heq => hfocus (heq ▸ hc')
  have hpids {c' : ClientId} (hc' : Kept s c' ∨ Focused s c') : pidsOf s' c' = pidsOf s c' := by
    rw [hr.pids c', if_neg]
    rintro rfl
    exact hc'.elim hk hfocus
  refine ⟨hr.linked, hr.consistent, fun c' => ?_, fun c' hc' => ?_, fun p => ?_⟩
  · rw [hr.flags c', hr.kept c', hfoc c']
    by_cases hcc : c' = c
    · subst hcc
      rw [if_pos rfl]
      exact iff_of_false Bool.false_ne_true fun hc' => hc'.2.elim hk hfocus
    · rw [if_neg hcc, hr.pids c', if_neg hcc]
      exact h.flags c'
  · rw [hr.kept c', hpids (.inr ((hfoc c').mp hc'))]
    exact h.free c' ((hfoc c').mp hc')
  · rw [hr.boosts p, h.boosts p]
    refine or_congr (exists_congr fun c' => ?_) (exists_congr fun c' => ?_)
    · rw [hr.kept c']
      exact and_congr_right fun hc' => by rw [hpids (.inl hc')]
    · rw [hfoc c']
      exact and_congr_right fun hc' => by rw [hpids (.inr hc')]

theorem enter_eq (hnone : s.clients c = none) :
    iaInitClientPrivate c s = { s with clients := Function.update s.clients c (some ⟨none, false⟩) } := by
  rw [iaInitClientPrivate, hnone]

theorem enter_connection (hnone : s.clients c = none) (c' : ClientId) :
    getConnectionPids (iaInitClientPrivate c s) c' = getConnectionPids s c' := by
  rw [enter_eq hnone]
  by_cases hcc : c' = c
  · subst hcc
    have hbefore : getConnectionPids s c' = none := by
      rw [getConnectionPids, hnone]
      rfl
    rw [hbefore]
    exact connection_self (x := ⟨none, false⟩) (Function.update_self ..)
  · exact connection_congr (Function.update_of_ne hcc ..)

theorem enter_self (hnone : s.clients c = none) : (iaInitClientPrivate c s).clients c = some ⟨none, false⟩ := by
  rw [enter_eq hnone]
  exact Function.update_self ..

theorem enter_linked (hs : Linked s) (hnone : s.clients c = none) : Linked (iaInitClientPrivate c s) := by
  refine linked_congr hs (enter_connection hnone) ?_ ?_ ?_
  all_goals rw [enter_eq hnone]

theorem Inv.enter (h : Inv s) (hnone : s.clients c = none) :
    Inv (iaInitClientPrivate c s) ∧ (iaInitClientPrivate c s).clients c = some ⟨none, false⟩ := by
  have hconn := enter_connection hnone
  have hlinked := enter_linked h.linked hnone
  have hself := enter_self hnone
  rw [enter_eq hnone] at hconn hlinked hself ⊢
  have hkept (c' : ClientId) : Kept { s with clients := Function.update s.clients c (some ⟨none, false⟩) } c' ↔ Kept s c' := by
    unfold Kept
    dsimp only
    by_cases hcc : c' = c
    · subst hcc
      rw [Function.update_self, hnone]
      simp
    · rw [Function.update_of_ne hcc]
  have hlist : listOf { s with clients := Function.update s.clients c (some ⟨none, false⟩) } = listOf s := by
    funext c'
    exact listOf_congr (hconn c') fun _ _ => rfl
  have hfoc (c' : ClientId) : Focused { s with clients := Function.update s.clients c (some ⟨none, false⟩) } c' ↔
      Focused s c' := by
    unfold Focused
    rw [hconn c']
  have hpids : pidsOf { s with clients := Function.update s.clients c (some ⟨none, false⟩) } = pidsOf s := by
    funext c'
    rw [pidsOf, pidsOf, hlist]
  refine ⟨⟨hlinked, h.consistent, fun c' => ?_, fun c' hc' => ?_, fun p => ?_⟩, hself⟩
  · rw [hpids, hkept c', hfoc c', flagOf, hlist]
    exact h.flags c'
  · rw [hkept c', hpids]
    exact h.free c' ((hfoc c').mp hc')
  · unfold Held FocusHas
    simp only [hkept, hfoc, hpids]
    exact h.boosts p

theorem Inv.connect (h : Inv s) (hc : c ≠ serverClient) (hnone : s.clients c = none) (clientPid : Option Pid) :
    ∃ s', clientInitial c clientPid s = some s' ∧ Inv s' := by
  obtain ⟨henter, hpriv⟩ := h.enter hnone
  cases clientPid with
  | none => exact ⟨_, rfl, henter⟩
  | some clientPid =>
      obtain ⟨s', hrun, hr⟩ := setProcess_spec henter.linked henter.consistent hpriv [clientPid]
      have hk : ¬ Kept (iaInitClientPrivate c s) c := by
        rintro (hserver | hwmgr)
        · exact hc hserver
        · rw [hpriv] at hwmgr
          cases hwmgr
      have hfocus : ¬ Focused (iaInitClientPrivate c s) c := by
        rintro ⟨a, ha, -⟩
        rw [connection_self hpriv] at ha
        cases ha
      exact ⟨s', hrun, henter.replace hr hk hfocus⟩

theorem Inv.setProcessInfo (h : Inv s) (hpriv : s.clients c = some priv) {stuff : SetProcessInfo}
    (hsafe : stuff.permitted → ¬ Kept s c ∧ ¬ Focused s c) : ∃ s', procIASetProcessInfo c stuff s = some s' ∧ Inv s' := by
  by_cases hpermitted : stuff.permitted
  · obtain ⟨s', hrun, hr⟩ := setProcess_spec h.linked h.consistent hpriv stuff.pids
    obtain ⟨hk, hfocus⟩ := hsafe hpermitted
    refine ⟨s', ?_, h.replace hr hk hfocus⟩
    rw [procIASetProcessInfo, if_pos hpermitted]
    exact hrun
  · refine ⟨s, ?_, h⟩
    rw [procIASetProcessInfo, if_neg hpermitted]

def dropGone (c : ClientId) (priv : ClientPrivate) (same : Bool) (s : IAState) : IAState :=
  let s := freeProcessList c priv (if same then { s with lastPids := none } else s)
  { s with clients := Function.update s.clients c none }

theorem unsetGone (hs : Linked s) (hp : Consistent s.procs) (hpriv : s.clients c = some priv) :
    ∃ s', (∀ same, sameAsLast priv.process s' = some same → clientGone c s = some (dropGone c priv same s')) ∧
      Alike s s' ∧ s'.lastPids = s.lastPids ∧ (∀ c', c' ≠ c → flagOf s' c' = flagOf s c') ∧
        ∀ p, Boosted s' p ↔ Boosted s p ∧ ¬ (flagOf s c = true ∧ p ∈ pidsOf s c) := by
  have hconn := connection_self hpriv
  cases hprocess : priv.process with
  | none =>
      rw [hprocess] at hconn
      refine ⟨s, fun same hsame => ?_, ⟨hs, hp, rfl, rfl⟩, rfl, fun _ _ => rfl, fun p => ?_⟩
      · simp only [clientGone, hpriv, hprocess, hsame, Option.bind_eq_bind, Option.bind_some]
        rfl
      · rw [pidsOf_none hconn]
        simp
  | some a =>
      rw [hprocess] at hconn
      obtain ⟨list, ha⟩ := hs.live c a hconn
      have hflag := flagOf_eq hconn ha
      by_cases hb : list.boosted = true
      · obtain ⟨s', hrun, halike, hlast, hflags, hval⟩ := setPriority_spec hs hp hconn .unsetPriority
        refine ⟨s', fun same hsame => ?_, halike, hlast, fun c' hcc => ?_, fun p => ?_⟩
        · simp only [clientGone, hpriv, hprocess, ha, Option.map_some, Option.bind_eq_bind, Option.bind_some, hb, if_true, hrun,
            hsame]
          rfl
        · rw [hflags c', if_neg fun hc' => hcc hc'.1]
        · rw [hflag, hb, Boosted, hval p]
          by_cases hmem : p ∈ pidsOf s c
          · rw [if_pos hmem]
            exact iff_of_false Bool.false_ne_true fun hb => hb.2 ⟨rfl, hmem⟩
          · rw [if_neg hmem]
            exact (and_iff_left fun hb => hmem hb.2).symm
      · refine ⟨s, fun same hsame => ?_, ⟨hs, hp, rfl, rfl⟩, rfl, fun _ _ => rfl, fun p => ?_⟩
        · simp only [clientGone, hpriv, hprocess, ha, Option.map_some, Option.bind_eq_bind, Option.bind_some, hb,
            Bool.false_eq_true, if_false, hsame]
          rfl
        · rw [hflag]
          exact (and_iff_left fun hflagged => hb hflagged.1).symm

theorem focus_released (hs : Linked s) (hsame : Same s c → Focused s c) {same : Bool}
    (hrun : sameAsLast (getConnectionPids s c) s = some same) :
    Linked (if same then { s with lastPids := none } else s) ∧ listOf (if same then { s with lastPids := none } else s) = listOf s ∧
      ∀ c', Focused (if same then { s with lastPids := none } else s) c' ∧ c' ≠ c ↔ Focused s c' ∧ c' ≠ c := by
  cases same with
  | false => exact ⟨hs, rfl, fun _ => Iff.rfl⟩
  | true =>
      have hfocus : Focused s c := hsame hrun
      refine ⟨⟨hs.live, hs.sole, hs.fresh, nofun⟩, rfl, fun c' => iff_of_false ?_ ?_⟩
      · rintro ⟨hc', -⟩
        exact focused_of_none rfl hc'
      · rintro ⟨hc', hcc⟩
        exact hcc (hs.focused_unique hc' hfocus)

structure Gone (s : IAState) (c : ClientId) (s' : IAState) : Prop where
  linked : Linked s'
  consistent : Consistent s'.procs
  kept : ∀ c', Kept s' c' ↔ Kept s c' ∧ c' ≠ c
  focus : ∀ c', Focused s' c' ↔ Focused s c' ∧ c' ≠ c
  nothing : pidsOf s' c = [] ∧ flagOf s' c = false
  pids : ∀ c', c' ≠ c → pidsOf s' c' = pidsOf s c'
  flags : ∀ c', c' ≠ c → flagOf s' c' = flagOf s c'
  boosts : ∀ p, Boosted s' p ↔ Boosted s p ∧ ¬ (flagOf s c = true ∧ p ∈ pidsOf s c)

theorem kept_gone (hc : c ≠ serverClient) (h : s'.clients = Function.update s.clients c none) : Kept s' c' ↔ Kept s c' ∧ c' ≠ c := by
  unfold Kept
  rw [h]
  by_cases hcc : c' = c
  · subst hcc
    rw [Function.update_self]
    exact iff_of_false (fun hk => hk.elim hc nofun) fun hk => hk.2 rfl
  · rw [Function.update_of_ne hcc]
    exact (and_iff_left hcc).symm

theorem Inv.leave (h : Inv s) (hg : Gone s c s') (hl : Leaves s c) : Inv s' := by
  refine ⟨hg.linked, hg.consistent, fun c' => ?_, fun c' hc' => ?_, fun p => ?_⟩
  · rw [hg.kept c', hg.focus c']
    by_cases hcc : c' = c
    · rw [hcc, hg.nothing.1, hg.nothing.2]
      exact iff_of_false Bool.false_ne_true fun hne => hne.1 rfl
    · rw [and_iff_left hcc, and_iff_left hcc, hg.pids c' hcc, hg.flags c' hcc]
      exact h.flags c'
  · obtain ⟨hfocus, hcc⟩ := (hg.focus c').mp hc'
    rw [hg.kept c', hg.pids c' hcc, and_iff_left hcc]
    exact h.free c' hfocus
  · rw [hg.boosts p, h.boosts p]
    constructor
    · rintro ⟨⟨c', hk, hmem⟩ | ⟨c', hfocus, hmem⟩, hnot⟩
      · have hcc : c' ≠ c := by
          rintro rfl
          exact hnot ⟨(h.flags c').mpr ⟨List.ne_nil_of_mem hmem, .inl hk⟩, hmem⟩
        exact .inl ⟨c', (hg.kept c').mpr ⟨hk, hcc⟩, (hg.pids c' hcc).symm ▸ hmem⟩
      · have hcc : c' ≠ c := by
          rintro rfl
          exact hnot ⟨(h.flags c').mpr ⟨List.ne_nil_of_mem hmem, .inr hfocus⟩, hmem⟩
        exact .inr ⟨c', (hg.focus c').mpr ⟨hfocus, hcc⟩, (hg.pids c' hcc).symm ▸ hmem⟩
    · rintro (⟨c', hk, hmem⟩ | ⟨c', hfocus, hmem⟩)
      · obtain ⟨hk, hcc⟩ := (hg.kept c').mp hk
        rw [hg.pids c' hcc] at hmem
        refine ⟨.inl ⟨c', hk, hmem⟩, fun hp => ?_⟩
        exact hl.apart ((h.flags c).mp hp.1).2 p hp.2 c' hcc (.inl hk) hmem
      · obtain ⟨hfocus, hcc⟩ := (hg.focus c').mp hfocus
        rw [hg.pids c' hcc] at hmem
        refine ⟨.inr ⟨c', hfocus, hmem⟩, fun hp => ?_⟩
        exact hl.apart ((h.flags c).mp hp.1).2 p hp.2 c' hcc (.inr hfocus) hmem

theorem Inv.disconnect (h : Inv s) (hc : c ≠ serverClient) (hleaves : s.clients c ≠ none → Leaves s c) :
    ∃ s', clientGone c s = some s' ∧ Inv s' := by
  cases hpriv : s.clients c with
  | none =>
      refine ⟨s, ?_, h⟩
      rw [clientGone, hpriv]
  | some priv =>
      have hl := hleaves (hpriv ▸ Option.some_ne_none priv)
      obtain ⟨s₁, hrun, halike, hlast, hflags, hboost⟩ := unsetGone h.linked h.consistent hpriv
      have hpriv₁ : s₁.clients c = some priv := halike.clients ▸ hpriv
      obtain ⟨same, hsame⟩ : ∃ same, sameAsLast (getConnectionPids s₁ c) s₁ = some same :=
        (sameAsLast_total halike.linked c).elim (fun h => ⟨_, h⟩) fun h => ⟨_, h⟩
      have hreleased : Same s₁ c → Focused s₁ c := fun h₁ =>
        (halike.focused hlast).mpr (hl.same ((halike.same h.linked hlast).mp h₁))
      obtain ⟨hlinked₂, hlists₂, hfocus₂⟩ := focus_released halike.linked hreleased hsame
      have hclients₂ : (if same then { s₁ with lastPids := none } else s₁).clients = s.clients := by
        cases same <;> exact halike.clients
      have hprocs₂ : (if same then { s₁ with lastPids := none } else s₁).procs = s₁.procs := by
        cases same <;> rfl
      have hd := drop_spec hlinked₂ ((congrFun hclients₂ c).trans hpriv)
      have hpids₁ (c' : ClientId) : ((listOf s₁ c').map ClientProcess.pids).getD [] = pidsOf s c' := congrFun halike.pids c'
      rw [connection_self hpriv₁] at hsame
      refine ⟨_, hrun same hsame, h.leave ⟨hd.linked, ?_, fun c' => ?_, fun c' => ?_, ?_, fun c' hcc => ?_, fun c' hcc => ?_,
        fun p => ?_⟩ hl⟩
      · have hprocs := hd.procs.trans hprocs₂
        exact hprocs.symm ▸ halike.consistent
      · exact kept_gone hc (hd.clients.trans (congrArg (Function.update · c none) hclients₂))
      · exact (hd.focus c').trans ((hfocus₂ c').trans (and_congr_left' (halike.focused hlast)))
      · rw [pidsOf, flagOf]
        exact ⟨congrArg (fun o => (Option.map _ o).getD []) hd.nothing, congrArg (fun o => (Option.map _ o).getD false) hd.nothing⟩
      · rw [← hpids₁ c', ← hlists₂, ← hd.lists c' hcc]
        rfl
      · rw [← hflags c' hcc, flagOf, flagOf, ← hlists₂, ← hd.lists c' hcc]
        rfl
      · rw [← hboost p, Boosted, Boosted, ← hprocs₂, ← hd.procs]
        rfl

end Lists

end OiUserland.Interactive.BoostRuns
