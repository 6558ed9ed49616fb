import OiUserland.Interactive.Clients

namespace OiUserland.Interactive.Boosts

open Clients

variable {s s' : IAState} {c c' : ClientId} {a : Addr} {p : Pid}

def listOf (s : IAState) (c : ClientId) : Option ClientProcess := (getConnectionPids s c).bind s.heap

def pidsOf (s : IAState) (c : ClientId) : List Pid := ((listOf s c).map ClientProcess.pids).getD []

def flagOf (s : IAState) (c : ClientId) : Bool := ((listOf s c).map ClientProcess.boosted).getD false

def Kept (s : IAState) (c : ClientId) : Prop := c = serverClient ∨ (s.clients c).map ClientPrivate.wmgr = some true

def Focused (s : IAState) (c : ClientId) : Prop := ∃ a, getConnectionPids s c = some a ∧ s.lastPids = some a

def Held (s : IAState) (p : Pid) : Prop := ∃ c, Kept s c ∧ p ∈ pidsOf s c

def FocusHas (s : IAState) (p : Pid) : Prop := ∃ c, Focused s c ∧ p ∈ pidsOf s c

def Boosted (s : IAState) (p : Pid) : Prop := (s.procs p).interactive = true

def Consistent (procs : Pid → Proc) : Prop := ∀ p, (procs p).interactive = true → (procs p).ia = true

structure Linked (s : IAState) : Prop where
  live : ∀ c a, getConnectionPids s c = some a → ∃ list, s.heap a = some list
  sole : ∀ c c' a, getConnectionPids s c = some a → getConnectionPids s c' = some a → c = c'
  fresh : ∀ a, s.next ≤ a → s.heap a = none
  owned : ∀ a, s.lastPids = some a → ∃ c, getConnectionPids s c = some a

theorem listOf_eq (hc : getConnectionPids s c = some a) : listOf s c = s.heap a := by
  rw [listOf, hc, Option.bind_some]

theorem pidsOf_eq (hc : getConnectionPids s c = some a) {list : ClientProcess} (ha : s.heap a = some list) :
    pidsOf s c = list.pids := by
  rw [pidsOf, listOf_eq hc, ha]
  rfl

theorem flagOf_eq (hc : getConnectionPids s c = some a) {list : ClientProcess} (ha : s.heap a = some list) :
    flagOf s c = list.boosted := by
  rw [flagOf, listOf_eq hc, ha]
  rfl

theorem pidsOf_none (hc : getConnectionPids s c = none) : pidsOf s c = [] := by
  rw [pidsOf, listOf, hc]
  rfl

theorem Linked.lt_next (hs : Linked s) (hc : getConnectionPids s c = some a) : a < s.next := by
  obtain ⟨list, ha⟩ := hs.live c a hc
  by_contra hge
  rw [hs.fresh a (Nat.not_lt.mp hge)] at ha
  cases ha

theorem Linked.focused_unique (hs : Linked s) (h : Focused s c) (h' : Focused s c') : c = c' := by
  obtain ⟨a, hc, ha⟩ := h
  obtain ⟨b, hc', hb⟩ := h'
  obtain rfl := Option.some.inj (ha.symm.trans hb)
  exact hs.sole c c' a hc hc'

theorem focused_of_none (h : s.lastPids = none) : ¬ Focused s c := by
  rintro ⟨a, -, ha⟩
  rw [h] at ha
  cases ha

theorem foldl_setParms (cmd : Cmd) (pids : List Pid) {procs : Pid → Proc} (h : Consistent procs) :
    Consistent (pids.foldl (setParms cmd) procs) ∧
      ∀ p, (pids.foldl (setParms cmd) procs p).interactive =
        if p ∈ pids then boostedBy cmd (procs p).interactive else (procs p).interactive := by
  induction pids generalizing procs with
  | nil => exact ⟨h, fun p => rfl⟩
  | cons pid pids ih =>
      have hstep : Consistent (setParms cmd procs pid) ∧
          ∀ p, (setParms cmd procs pid p).interactive =
            if p = pid then boostedBy cmd (procs p).interactive else (procs p).interactive := by
        have hupdate (x : Bool) (hx : x = boostedBy cmd (procs pid).interactive) :
            Consistent (Function.update procs pid ⟨true, x⟩) ∧
              ∀ p, (Function.update procs pid ⟨true, x⟩ p).interactive =
                if p = pid then boostedBy cmd (procs p).interactive else (procs p).interactive := by
          constructor
          · intro p hp
            by_cases hpid : p = pid
            · rw [hpid, Function.update_self]
            · rw [Function.update_of_ne hpid] at hp ⊢
              exact h p hp
          · intro p
            by_cases hpid : p = pid
            · rw [hpid, Function.update_self, if_pos rfl, hx]
            · rw [Function.update_of_ne hpid, if_neg hpid]
        cases cmd with
        | unsetPriority => exact hupdate false rfl
        | setPriority => exact hupdate true rfl
        | setInteractive =>
            by_cases hia : (procs pid).ia = true
            · have hsame : setParms .setInteractive procs pid = procs := if_pos hia
              rw [hsame]
              exact ⟨h, fun p => (ite_self _).symm⟩
            · have hnew : setParms .setInteractive procs pid = Function.update procs pid ⟨true, false⟩ := if_neg hia
              rw [hnew]
              exact hupdate false (Bool.eq_false_iff.mpr fun hi => hia (h pid hi)).symm
      obtain ⟨hcons, hval⟩ := ih hstep.1
      refine ⟨hcons, fun p => ?_⟩
      rw [List.foldl_cons, hval p, hstep.2 p]
      have htwice (x : Bool) : boostedBy cmd (boostedBy cmd x) = boostedBy cmd x := by cases cmd <;> rfl
      by_cases hpid : p = pid
      · simp [hpid, htwice]
      · by_cases hp : p ∈ pids <;> simp [hpid, hp]

structure Alike (s s' : IAState) : Prop where
  linked : Linked s'
  consistent : Consistent s'.procs
  clients : s'.clients = s.clients
  pids : pidsOf s' = pidsOf s

theorem Alike.connection (h : Alike s s') (c : ClientId) : getConnectionPids s' c = getConnectionPids s c := by
  rw [getConnectionPids, getConnectionPids, h.clients]

theorem Alike.kept (h : Alike s s') : Kept s' c ↔ Kept s c := by rw [Kept, Kept, h.clients]

theorem Alike.held (h : Alike s s') : Held s' p ↔ Held s p := by
  unfold Held
  simp only [h.kept, h.pids]

theorem Alike.focused (h : Alike s s') (hlast : s'.lastPids = s.lastPids) : Focused s' c ↔ Focused s c := by
  unfold Focused
  simp only [h.connection, hlast]

def store (s : IAState) (a : Addr) (list : ClientProcess) (procs : Pid → Proc) : IAState :=
  { s with heap := Function.update s.heap a (some list), procs := procs }

theorem listOf_store (hs : Linked s) (hc : getConnectionPids s c = some a) (list : ClientProcess) (procs : Pid → Proc) :
    listOf (store s a list procs) = Function.update (listOf s) c (some list) := by
  funext c'
  by_cases hcc : c' = c
  · subst hcc
    rw [Function.update_self, listOf_eq (s := store s a list procs) hc]
    exact Function.update_self ..
  · rw [Function.update_of_ne hcc]
    cases hc' : getConnectionPids s c' with
    | none =>
        have hstore : getConnectionPids (store s a list procs) c' = none := hc'
        rw [listOf, listOf, hc', hstore]
        rfl
    | some b =>
        have hba : b ≠ a := fun hba => hcc (hs.sole c' c a (hba ▸ hc') hc)
        rw [listOf_eq hc', listOf_eq (s := store s a list procs) hc']
        exact Function.update_of_ne hba ..

theorem linked_store (hs : Linked s) (hc : getConnectionPids s c = some a) (list : ClientProcess) (procs : Pid → Proc) :
    Linked (store s a list procs) := by
  refine ⟨fun c' b hb => ?_, hs.sole, fun b hb => ?_, hs.owned⟩
  · by_cases hba : b = a
    · exact ⟨list, hba ▸ Function.update_self ..⟩
    · obtain ⟨list', hlist'⟩ := hs.live c' b hb
      exact ⟨list', (Function.update_of_ne hba ..).trans hlist'⟩
  · have hba : b ≠ a := Nat.ne_of_gt (Nat.lt_of_lt_of_le (hs.lt_next hc) hb)
    exact (Function.update_of_ne hba ..).trans (hs.fresh b hb)

theorem setPriority_spec (hs : Linked s) (hp : Consistent s.procs) (hc : getConnectionPids s c = some a) (cmd : Cmd) :
    ∃ s', setPriority a cmd s = some s' ∧ Alike s s' ∧ s'.lastPids = s.lastPids ∧
      (∀ c', flagOf s' c' = if c' = c ∧ pidsOf s c ≠ [] then boostedBy cmd (flagOf s c) else flagOf s c') ∧
        ∀ p, (s'.procs p).interactive =
          if p ∈ pidsOf s c then boostedBy cmd (s.procs p).interactive else (s.procs p).interactive := by
  obtain ⟨list, ha⟩ := hs.live c a hc
  obtain ⟨hcons, hval⟩ := foldl_setParms cmd list.pids hp
  rw [pidsOf_eq hc ha, flagOf_eq hc ha]
  by_cases hempty : list.pids = []
  · refine ⟨s, ?_, ⟨hs, hp, rfl, rfl⟩, rfl, fun c' => ?_, fun p => ?_⟩
    · simp only [setPriority, ha, bind, Option.bind, if_pos hempty]
    · rw [if_neg fun h => h.2 hempty]
    · rw [hempty, if_neg List.not_mem_nil]
  · have hlist := listOf_store hs hc { list with boosted := boostedBy cmd list.boosted } (list.pids.foldl (setParms cmd) s.procs)
    refine ⟨store s a { list with boosted := boostedBy cmd list.boosted } (list.pids.foldl (setParms cmd) s.procs), ?_,
      ⟨linked_store hs hc _ _, hcons, rfl, ?_⟩, rfl, fun c' => ?_, hval⟩
    · simp only [setPriority, ha, bind, Option.bind, if_neg hempty]
      rfl
    · funext c'
      rw [pidsOf, pidsOf, hlist]
      by_cases hcc : c' = c
      · rw [hcc, Function.update_self, listOf_eq hc, ha]
        rfl
      · rw [Function.update_of_ne hcc]
    · rw [flagOf, hlist]
      by_cases hcc : c' = c
      · rw [hcc, Function.update_self, if_pos ⟨rfl, hempty⟩]
        rfl
      · rw [Function.update_of_ne hcc, if_neg fun h => hcc h.1, flagOf]

theorem unsetLast_spec (hs : Linked s) (hp : Consistent s.procs) :
    ∃ s', unsetLast s = some s' ∧ Alike s s' ∧ s'.lastPids = none ∧
      (∀ c, flagOf s' c = true ↔ flagOf s c = true ∧ ¬ (Focused s c ∧ pidsOf s c ≠ [])) ∧
        ∀ p, Boosted s' p ↔ Boosted s p ∧ ¬ FocusHas s p := by
  cases hlast : s.lastPids with
  | none =>
      have hno (c : ClientId) : ¬ Focused s c := focused_of_none hlast
      refine ⟨s, ?_, ⟨hs, hp, rfl, rfl⟩, hlast, fun c => ?_, fun p => ?_⟩
      · rw [unsetLast, hlast]
      · exact (and_iff_left fun h => hno c h.1).symm
      · exact (and_iff_left fun ⟨c, h, _⟩ => hno c h).symm
  | some a =>
      obtain ⟨c, hc⟩ := hs.owned a hlast
      have hfocus : Focused s c := ⟨a, hc, hlast⟩
      obtain ⟨s₁, hset, halike, -, hflag, hval⟩ := setPriority_spec hs hp hc .unsetPriority
      refine ⟨{ s₁ with lastPids := none }, ?_, ⟨⟨halike.linked.live, halike.linked.sole, halike.linked.fresh, nofun⟩,
        halike.consistent, halike.clients, halike.pids⟩, rfl, fun c' => ?_, fun p => ?_⟩
      · simp only [unsetLast, hlast, hset, bind, Option.bind]
      · change flagOf s₁ c' = true ↔ _
        rw [hflag c']
        by_cases hcc : c' = c
        · subst hcc
          by_cases hempty : pidsOf s c' = []
          · rw [if_neg fun h => h.2 hempty]
            exact (and_iff_left fun h => h.2 hempty).symm
          · rw [if_pos ⟨rfl, hempty⟩]
            exact iff_of_false Bool.false_ne_true fun h => h.2 ⟨hfocus, hempty⟩
        · rw [if_neg fun h => hcc h.1]
          exact (and_iff_left fun h => hcc (hs.focused_unique h.1 hfocus)).symm
      · change (s₁.procs p).interactive = true ↔ _
        rw [hval p]
        have hhas : FocusHas s p ↔ p ∈ pidsOf s c := by
          constructor
          · rintro ⟨c', hc', hmem⟩
            exact hs.focused_unique hc' hfocus ▸ hmem
          · exact fun hmem => ⟨c, hfocus, hmem⟩
        rw [hhas]
        by_cases hmem : p ∈ pidsOf s c
        · rw [if_pos hmem]
          exact iff_of_false Bool.false_ne_true fun h => h.2 hmem
        · rw [if_neg hmem]
          exact (and_iff_left hmem).symm

def Same (s : IAState) (c : ClientId) : Prop := sameAsLast (getConnectionPids s c) s = some true

theorem sameAsLast_total (hs : Linked s) (c : ClientId) :
    sameAsLast (getConnectionPids s c) s = some true ∨ sameAsLast (getConnectionPids s c) s = some false := by
  cases hc : getConnectionPids s c with
  | none => exact .inr rfl
  | some a =>
      cases hlast : s.lastPids with
      | none =>
          refine .inr ?_
          simp only [sameAsLast, hlast]
      | some b =>
          obtain ⟨list, ha⟩ := hs.live c a hc
          obtain ⟨c', hc'⟩ := hs.owned b hlast
          obtain ⟨list', hb⟩ := hs.live c' b hc'
          simp only [sameAsLast, hlast, ha, hb, bind, Option.bind]
          cases pidSetEqual list list'
          · exact .inr rfl
          · exact .inl rfl

theorem same_iff (hs : Linked s) : Same s c ↔ getConnectionPids s c ≠ none ∧
    ∃ c', Focused s c' ∧ (pidsOf s c).length = (pidsOf s c').length ∧ ∀ p ∈ pidsOf s c, p ∈ pidsOf s c' := by
  unfold Same
  cases hc : getConnectionPids s c with
  | none => exact iff_of_false nofun fun h => h.1 rfl
  | some a =>
      rw [and_iff_right (Option.some_ne_none a)]
      cases hlast : s.lastPids with
      | none =>
          simp only [sameAsLast, hlast]
          exact iff_of_false nofun fun ⟨c', h, _⟩ => focused_of_none hlast h
      | some b =>
          obtain ⟨list, ha⟩ := hs.live c a hc
          obtain ⟨c₁, hc₁⟩ := hs.owned b hlast
          obtain ⟨list', hb⟩ := hs.live c₁ b hc₁
          simp only [sameAsLast, hlast, ha, hb, Option.bind_eq_bind, Option.bind_some, Option.some.injEq, pidSetEqual,
            decide_eq_true_eq]
          rw [pidsOf_eq hc ha]
          constructor
          · intro h
            exact ⟨c₁, ⟨b, hc₁, hlast⟩, by rwa [pidsOf_eq hc₁ hb]⟩
          · rintro ⟨c', hfocus, h⟩
            obtain rfl := hs.focused_unique hfocus ⟨b, hc₁, hlast⟩
            rwa [pidsOf_eq hc₁ hb] at h

theorem same_of_focused (hs : Linked s) (h : Focused s c) : Same s c := by
  obtain ⟨a, hc, hlast⟩ := h
  refine (same_iff hs).mpr ⟨?_, c, ⟨a, hc, hlast⟩, rfl, fun _ h => h⟩
  rw [hc]
  exact Option.some_ne_none a

theorem Alike.same (hs : Linked s) (h : Alike s s') (hlast : s'.lastPids = s.lastPids) : Same s' c ↔ Same s c := by
  rw [same_iff hs, same_iff h.linked, h.connection, h.pids]
  simp only [h.focused hlast]

theorem changePriority_same (h : Same s c) : changePriority c s = some s := by
  have h' : sameAsLast ((s.clients c).bind ClientPrivate.process) s = some true := h
  simp only [changePriority, h', Option.bind_eq_bind, Option.bind_some, if_true]

structure Changed (s : IAState) (c : ClientId) (s' : IAState) : Prop extends Alike s s' where
  focus : ∀ c', Focused s' c' ↔ c' = c ∧ ¬ Kept s c ∧ pidsOf s c ≠ []
  flags : ∀ c', flagOf s' c' = true ↔
    c' = c ∧ pidsOf s c ≠ [] ∨ flagOf s c' = true ∧ ¬ (Focused s c' ∧ pidsOf s c' ≠ [])
  boosts : ∀ p, Boosted s' p ↔ Boosted s p ∧ ¬ FocusHas s p ∨ p ∈ pidsOf s c ∧ flagOf s c = false

theorem changePriority_spec (hs : Linked s) (hp : Consistent s.procs) (hsame : ¬ Same s c) :
    ∃ s', changePriority c s = some s' ∧ Changed s c s' := by
  have hfalse : sameAsLast ((s.clients c).bind ClientPrivate.process) s = some false :=
    (sameAsLast_total hs c).resolve_left hsame
  have hfocus : ¬ Focused s c := fun h => hsame (same_of_focused hs h)
  obtain ⟨s₁, hunset, halike, hlast, hflag, hboost⟩ := unsetLast_spec hs hp
  have hno (c' : ClientId) : ¬ Focused s₁ c' := focused_of_none hlast
  have hflagc : flagOf s₁ c = true ↔ flagOf s c = true := by
    rw [hflag c]
    exact and_iff_left fun h => hfocus h.1
  -- without processes nothing is boosted
  have hnothing (hempty : pidsOf s c = []) : Changed s c s₁ := by
    refine ⟨halike, fun c' => ?_, fun c' => ?_, fun p => ?_⟩
    · exact iff_of_false (hno c') fun h => h.2.2 hempty
    · rw [hflag c', hempty]
      simp
    · rw [hboost p, hempty]
      simp
  cases hc : getConnectionPids s c with
  | none =>
      refine ⟨s₁, ?_, hnothing (pidsOf_none hc)⟩
      have hprocess : (s.clients c).bind ClientPrivate.process = none := hc
      simp only [changePriority, hunset, hprocess, Option.bind_eq_bind, Option.bind_some]
      rfl
  | some a =>
      have hprocess : (s.clients c).bind ClientPrivate.process = some a := hc
      rw [hprocess] at hfalse
      have hc₁ : getConnectionPids s₁ c = some a := (halike.connection c).trans hc
      obtain ⟨list, ha⟩ := halike.linked.live c a hc₁
      have hpids : list.pids = pidsOf s c := by rw [← halike.pids, pidsOf_eq hc₁ ha]
      have hboosted : list.boosted = flagOf s₁ c := (flagOf_eq hc₁ ha).symm
      by_cases hempty : list.pids = []
      · refine ⟨s₁, ?_, hnothing (hpids ▸ hempty)⟩
        simp only [changePriority, hunset, hprocess, hfalse, ha, hempty, Option.bind_eq_bind, Option.bind_some]
        rfl
      · have hset : ∃ s₂, (if list.boosted then some s₁ else setPriority a .setPriority s₁) = some s₂ ∧ Alike s s₂ ∧
            s₂.lastPids = none ∧
              (∀ c', flagOf s₂ c' = true ↔ c' = c ∨ flagOf s c' = true ∧ ¬ (Focused s c' ∧ pidsOf s c' ≠ [])) ∧
                ∀ p, Boosted s₂ p ↔ Boosted s p ∧ ¬ FocusHas s p ∨ p ∈ pidsOf s c ∧ flagOf s c = false := by
          by_cases hb : list.boosted = true
          · have hflagged : flagOf s c = true := hflagc.mp (hboosted ▸ hb)
            refine ⟨s₁, if_pos hb, halike, hlast, fun c' => ?_, fun p => ?_⟩
            · rw [hflag c']
              refine (or_iff_right_of_imp ?_).symm
              rintro rfl
              exact ⟨hflagged, fun h => hfocus h.1⟩
            · rw [hboost p, hflagged]
              simp
          · obtain ⟨s₂, hrun, halike₂, hlast₂, hflag₂, hval₂⟩ :=
              setPriority_spec halike.linked halike.consistent hc₁ .setPriority
            have hunflagged : flagOf s c = false :=
              Bool.eq_false_iff.mpr fun h => hb (hboosted ▸ hflagc.mpr h)
            refine ⟨s₂, (if_neg hb).trans hrun, ⟨halike₂.linked, halike₂.consistent, halike₂.clients.trans halike.clients,
              halike₂.pids.trans halike.pids⟩, hlast₂.trans hlast, fun c' => ?_, fun p => ?_⟩
            · rw [hflag₂ c', halike.pids, ← hpids]
              by_cases hcc : c' = c
              · rw [if_pos ⟨hcc, hempty⟩]
                exact iff_of_true rfl (.inl hcc)
              · rw [if_neg fun h => hcc h.1, hflag c']
                exact (or_iff_right hcc).symm
            · rw [Boosted, hval₂ p, halike.pids, hunflagged]
              by_cases hmem : p ∈ pidsOf s c
              · rw [if_pos hmem]
                exact iff_of_true rfl (.inr ⟨hmem, rfl⟩)
              · rw [if_neg hmem]
                exact (hboost p).trans (or_iff_left fun h => hmem h.1).symm
        obtain ⟨s₂, hrun, halike₂, hlast₂, hflag₂, hboost₂⟩ := hset
        have hne : pidsOf s c ≠ [] := hpids ▸ hempty
        have hflags (c' : ClientId) : (c' = c ∨ flagOf s c' = true ∧ ¬ (Focused s c' ∧ pidsOf s c' ≠ [])) ↔
            (c' = c ∧ pidsOf s c ≠ [] ∨ flagOf s c' = true ∧ ¬ (Focused s c' ∧ pidsOf s c' ≠ [])) := by
          rw [and_iff_left hne]
        have hcall : changePriority c s = some (if c ≠ serverClient ∧ (s.clients c).map ClientPrivate.wmgr ≠ some true then
            { s₂ with lastPids := some a } else s₂) := by
          by_cases hb : list.boosted = true
          · rw [if_pos hb] at hrun
            obtain rfl := Option.some.inj hrun
            simp only [changePriority, hunset, hprocess, hfalse, ha, Option.bind_eq_bind, Option.bind_some, hempty, if_false,
              Bool.false_eq_true, hb, if_true]
            split <;> rfl
          · rw [if_neg hb] at hrun
            simp only [changePriority, hunset, hprocess, hfalse, ha, Option.bind_eq_bind, Option.bind_some, hempty, if_false,
              Bool.false_eq_true, hb, hrun]
            split <;> rfl
        have hkept : (c ≠ serverClient ∧ (s.clients c).map ClientPrivate.wmgr ≠ some true) ↔ ¬ Kept s c := not_or.symm
        by_cases hk : Kept s c
        · rw [if_neg fun h => hkept.mp h hk] at hcall
          refine ⟨s₂, hcall, halike₂, fun c' => ?_, fun c' => (hflag₂ c').trans (hflags c'), hboost₂⟩
          exact iff_of_false (focused_of_none hlast₂) fun h => h.2.1 hk
        · rw [if_pos (hkept.mpr hk)] at hcall
          have hc₂ : getConnectionPids s₂ c = some a := (halike₂.connection c).trans hc
          refine ⟨_, hcall, ⟨⟨halike₂.linked.live, halike₂.linked.sole, halike₂.linked.fresh, fun b hb => ?_⟩,
            halike₂.consistent, halike₂.clients, halike₂.pids⟩, fun c' => ?_, fun c' => (hflag₂ c').trans (hflags c'), hboost₂⟩
          · obtain rfl := Option.some.inj hb
            exact ⟨c, hc₂⟩
          · constructor
            · rintro ⟨b, hb, hlastb⟩
              obtain rfl := Option.some.inj hlastb
              exact ⟨halike₂.linked.sole c' c _ hb hc₂, hk, hne⟩
            · rintro ⟨rfl, -, -⟩
              exact ⟨a, hc₂, rfl⟩

end OiUserland.Interactive.Boosts
