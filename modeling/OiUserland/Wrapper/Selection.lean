import OiUserland.Wrapper.Routing

namespace OiUserland.Wrapper.Selection

open Plugins Startup

section Frames

structure Frame (s t : WrapperState) : Prop where
  own : t.own = s.own
  busses : t.busses = s.busses
  usbBusses : t.usbBusses = s.usbBusses
  headBusp : t.headBusp = s.headBusp
  busp : ∀ i, (t.pInfo i).busp = (s.pInfo i).busp
  devHandles : ∀ i, (t.pInfo i).devHandles = (s.pInfo i).devHandles

structure Local (k : Nat) (s t : WrapperState) : Prop where
  frame : Frame s t
  ploaded : t.ploaded = s.ploaded
  others : ∀ i, i ≠ k → t.pInfo i = s.pInfo i

variable {s t u : WrapperState} {k : Nat} {m : Module}

theorem Frame.refl (s : WrapperState) : Frame s s := ⟨rfl, rfl, rfl, rfl, fun _ => rfl, fun _ => rfl⟩

theorem Frame.trans (h : Frame s t) (h' : Frame t u) : Frame s u :=
  ⟨h'.own.trans h.own, h'.busses.trans h.busses, h'.usbBusses.trans h.usbBusses, h'.headBusp.trans h.headBusp,
    fun i => (h'.busp i).trans (h.busp i), fun i => (h'.devHandles i).trans (h.devHandles i)⟩

theorem Local.refl (k : Nat) (s : WrapperState) : Local k s s := ⟨.refl s, rfl, fun _ _ => rfl⟩

theorem Local.trans (h : Local k s t) (h' : Local k t u) : Local k s u :=
  ⟨h.frame.trans h'.frame, h'.ploaded.trans h.ploaded, fun i hi => (h'.others i hi).trans (h.others i hi)⟩

theorem putInfo_self (s : WrapperState) (k : Nat) (info : PluginInfo) : (s.putInfo k info).pInfo k = info :=
  Function.update_self ..

theorem putInfo_of_ne (s : WrapperState) (info : PluginInfo) {i : Nat} (hi : i ≠ k) : (s.putInfo k info).pInfo i = s.pInfo i :=
  Function.update_of_ne hi ..

theorem local_putInfo {info : PluginInfo} (hbusp : info.busp = (s.pInfo k).busp)
    (hdev : info.devHandles = (s.pInfo k).devHandles) : Local k s (s.putInfo k info) := by
  refine ⟨⟨rfl, rfl, rfl, rfl, fun i => ?_, fun i => ?_⟩, rfl, fun i hi => putInfo_of_ne s info hi⟩
  · by_cases hi : i = k
    · subst hi
      rw [putInfo_self, hbusp]
    · rw [putInfo_of_ne s info hi]
  · by_cases hi : i = k
    · subst hi
      rw [putInfo_self, hdev]
    · rw [putInfo_of_ne s info hi]

theorem local_unloadPlugin (k : Nat) (s : WrapperState) : Local k s (unloadPlugin k s) := by
  rw [unloadPlugin]
  split
  · exact local_putInfo rfl rfl
  · exact local_putInfo rfl rfl

theorem pHandle_unloadPlugin (k : Nat) (s : WrapperState) : ((unloadPlugin k s).pInfo k).pHandle = false := by
  rw [unloadPlugin]
  split
  · rw [putInfo_self]
  · rename_i h
    rw [putInfo_self]
    exact Bool.eq_false_iff.mpr h

theorem local_markActive (flag : Bool) (k : Nat) (s : WrapperState) : Local k s (markActive flag k s) :=
  local_putInfo rfl rfl

theorem local_loadPlugin (m : Module) (k : Nat) (s : WrapperState) : Local k s (loadPlugin m k s) := by
  rw [loadPlugin]
  split
  · exact local_putInfo rfl rfl
  · split
    · refine Local.trans ?_ (local_unloadPlugin k _)
      exact local_putInfo rfl rfl
    · exact local_putInfo rfl rfl

theorem local_takeAnswer (ret : Int) (k : Nat) (tally : Tally) (s : WrapperState) :
    Local k s (takeAnswer ret k tally s).2 := by
  have hset {t : WrapperState} {a e : Int} (h : Local k s t) : Local k s { t with activeIndex := a, exclusiveIndex := e } :=
    ⟨⟨h.frame.own, h.frame.busses, h.frame.usbBusses, h.frame.headBusp, h.frame.busp, h.frame.devHandles⟩, h.ploaded, h.others⟩
  rw [takeAnswer]
  split
  · exact hset (local_markActive false k s)
  · split
    · split
      · exact local_markActive _ k s
      · exact hset (local_markActive true k s)
    · exact .refl k s

def rejected (m : Module) : Bool := m.exports .libusbVersion && (m.version.bind mismatch = some true)

theorem checkVersion_cases (hm : checkSymHdl (s.pInfo k) .libusbVersion = m.exports .libusbVersion)
    (h : checkVersion m k s = some t) :
    rejected m = true ∧ t.pInfo = (unloadPlugin k s).pInfo ∧ Local k s t ∧ t.activeIndex = s.activeIndex ∨
      rejected m = false ∧ t.pInfo = s.pInfo ∧ Local k s t ∧ t.activeIndex = s.activeIndex := by
  have hlocal {t : WrapperState} (h : Local k s t) : Local k s { t with lastPindex := k } :=
    ⟨⟨h.frame.own, h.frame.busses, h.frame.usbBusses, h.frame.headBusp, h.frame.busp, h.frame.devHandles⟩, h.ploaded, h.others⟩
  rw [checkVersion, hm] at h
  cases hexp : m.exports .libusbVersion with
  | false =>
      rw [hexp] at h
      obtain rfl := Option.some.inj h
      refine .inr ⟨?_, rfl, .refl k s, rfl⟩
      rw [rejected, hexp, Bool.false_and]
  | true =>
      rw [hexp, if_pos rfl] at h
      cases hversion : m.version with
      | none =>
          rw [hversion] at h
          obtain rfl := Option.some.inj h
          refine .inr ⟨?_, rfl, hlocal (.refl k s), rfl⟩
          rw [rejected, hversion]
          exact Bool.and_false _
      | some version =>
          simp only [hversion, Option.bind_eq_bind, Option.bind_eq_some_iff] at h
          obtain ⟨differs, hdiffers, h⟩ := h
          obtain rfl := Option.some.inj h
          have hrej : rejected m = differs := by
            rw [rejected, hexp, hversion, Option.bind_some, hdiffers]
            cases differs <;> rfl
          cases differs with
          | true =>
              refine .inl ⟨hrej, rfl, hlocal (local_unloadPlugin k s), ?_⟩
              change (unloadPlugin k s).activeIndex = s.activeIndex
              rw [unloadPlugin]
              split
              · rfl
              · rfl
          | false => exact .inr ⟨hrej, rfl, hlocal (.refl k s), rfl⟩

end Frames

/-- What a plug-in answers to usb_init. -/
def quiet (m : Module) : Prop := m.exports .libusbInit = false

def answers (m : Module) : Prop := m.exports .libusbInit = true ∧ m.init ≠ failure

def succeeds (m : Module) : Prop := m.exports .libusbInit = true ∧ m.init = success

def exclusive (m : Module) : Prop := m.exports .libusbInit = true ∧ m.init = pluginExclusive

def counted (m : Module) : Prop := quiet m ∨ succeeds m ∨ exclusive m

def stays (m : Module) : Prop := quiet m ∨ answers m ∧ rejected m = false

theorem succeeds.answers {m : Module} (h : succeeds m) : answers m := ⟨h.1, by rw [h.2]; decide⟩

theorem exclusive.answers {m : Module} (h : exclusive m) : answers m := ⟨h.1, by rw [h.2]; decide⟩

theorem not_quiet {m : Module} (h : answers m) : ¬ quiet m := fun hq => nomatch hq.symm.trans h.1

section FirstLoop

def Loaded (dir : Directory) (s : WrapperState) (n : Nat) : Prop :=
  ∀ i, i < n → (s.pInfo i).pHandle = true → (s.pInfo i).symHdl = (dir.module i).exports

def Flagged (dir : Directory) (s : WrapperState) (i : Nat) : Prop :=
  answers (dir.module i) ∧ ¬ succeeds (dir.module i) ∧
    (exclusive (dir.module i) ∧ (∀ j, j < i → (s.pInfo j).pHandle = true → ¬ exclusive (dir.module j)) ∨
      (s.pInfo i).exclusiveFlag = true)

/-- The one plug-in that has been counted, and has succeeded. Others may only be counted
behind every plug-in that answers. -/
structure Fast (dir : Directory) (s : WrapperState) (k a : Nat) : Prop where
  lt : a < k
  loaded : (s.pInfo a).pHandle = true
  succeeded : succeeds (dir.module a)
  others : ∀ i, i < k → i ≠ a → (s.pInfo i).pHandle = true → counted (dir.module i) →
    quiet (dir.module i) ∧ ∀ j, i ≤ j → j < k → (s.pInfo j).pHandle = true → ¬ answers (dir.module j)

structure Counts (dir : Directory) (s : WrapperState) (k n : Nat) : Prop where
  none : n = 0 → ∀ i, i < k → (s.pInfo i).pHandle = true → ¬ counted (dir.module i)
  one : n = 1 → ∀ i j, i < k → j < k → (s.pInfo i).pHandle = true → (s.pInfo j).pHandle = true →
    counted (dir.module i) → counted (dir.module j) → i = j

structure Chosen (dir : Directory) (s : WrapperState) (k : Nat) (tally : Tally) (t : WrapperState) : Prop where
  frame : Frame s t
  ploaded : t.ploaded = s.ploaded
  rest : ∀ i, k ≤ i → t.pInfo i = s.pInfo i
  handles : ∀ i, i < k → ((t.pInfo i).pHandle = true ↔ (s.pInfo i).pHandle = true ∧ stays (dir.module i))
  flags : ∀ i, i < k → (t.pInfo i).pHandle = true → ((t.pInfo i).exclusiveFlag = true ↔ Flagged dir s i)
  anyExclusive : tally.exclusive = true ↔ ∃ i, i < k ∧ (s.pInfo i).pHandle = true ∧ exclusive (dir.module i)
  counts : Counts dir s k tally.activeCount
  active : t.activeIndex = -1 ∨ ∃ a : Nat, t.activeIndex = a ∧ Fast dir s k a

variable {dir : Directory} {s t t' : WrapperState} {k n n' a : Nat} {tally tally' : Tally}

theorem Counts.next (h : Counts dir s k n)
    (hn : (s.pInfo k).pHandle = true ∧ counted (dir.module k) ∧ n' = n + 1 ∨
      ¬ ((s.pInfo k).pHandle = true ∧ counted (dir.module k)) ∧ n' = n) : Counts dir s (k + 1) n' := by
  constructor
  · intro h0 i hi hl hc
    rcases hn with ⟨-, -, rfl⟩ | ⟨hk, rfl⟩
    · exact absurd h0 (Nat.succ_ne_zero n)
    · rcases Nat.lt_succ_iff_lt_or_eq.mp hi with hi | rfl
      · exact h.none h0 i hi hl hc
      · exact hk ⟨hl, hc⟩
  · intro h1 i j hi hj hli hlj hci hcj
    rcases hn with ⟨-, -, rfl⟩ | ⟨hk, rfl⟩
    · have h0 : n = 0 := Nat.succ.inj h1
      have heq {i : Nat} (hi : i < k + 1) (hl : (s.pInfo i).pHandle = true) (hc : counted (dir.module i)) : i = k := by
        by_contra hne
        exact h.none h0 i (by omega) hl hc
      rw [heq hi hli hci, heq hj hlj hcj]
    · have hlt {i : Nat} (hi : i < k + 1) (hl : (s.pInfo i).pHandle = true) (hc : counted (dir.module i)) : i < k := by
        rcases Nat.lt_succ_iff_lt_or_eq.mp hi with hi | rfl
        · exact hi
        · exact absurd ⟨hl, hc⟩ hk
      exact h.one h1 i j (hlt hi hli hci) (hlt hj hlj hcj) hli hlj hci hcj

theorem Fast.next (h : Fast dir s k a) (hk : (s.pInfo k).pHandle = true → ¬ answers (dir.module k)) : Fast dir s (k + 1) a := by
  refine ⟨Nat.lt_succ_of_lt h.lt, h.loaded, h.succeeded, fun i hi hia hl hc => ?_⟩
  have hbehind (j : Nat) (hj : j < k + 1) (hjk : ¬ j < k) (hlj : (s.pInfo j).pHandle = true) : ¬ answers (dir.module j) := by
    obtain rfl : j = k := by omega
    exact hk hlj
  by_cases hik : i < k
  · obtain ⟨hquiet, hlater⟩ := h.others i hik hia hl hc
    refine ⟨hquiet, fun j hij hj hlj => ?_⟩
    by_cases hjk : j < k
    · exact hlater j hij hjk hlj
    · exact hbehind j hj hjk hlj
  · have hanswers := hbehind i hi hik hl
    refine ⟨hc.resolve_right ?_, fun j hij hj hlj => hbehind j hj (by omega) hlj⟩
    rintro (hs | he)
    · exact hanswers hs.answers
    · exact hanswers he.answers

theorem Counts.fast (h : Counts dir s k n) (hn : n = 1) (ha : a < k) (hl : (s.pInfo a).pHandle = true)
    (hs : succeeds (dir.module a)) : Fast dir s k a := by
  refine ⟨ha, hl, hs, fun i hi hia hli hc => absurd ?_ hia⟩
  exact h.one hn i a hi ha hli hl hc (.inr (.inl hs))

theorem Chosen.next (h : Chosen dir s k tally t) (hl : Local k t t')
    (hhandle : (t'.pInfo k).pHandle = true ↔ (s.pInfo k).pHandle = true ∧ stays (dir.module k))
    (hflag : (t'.pInfo k).pHandle = true → ((t'.pInfo k).exclusiveFlag = true ↔ Flagged dir s k))
    (hexclusive : tally'.exclusive = true ↔
      tally.exclusive = true ∨ (s.pInfo k).pHandle = true ∧ exclusive (dir.module k))
    (hcounts : Counts dir s (k + 1) tally'.activeCount)
    (hactive : t'.activeIndex = -1 ∨ ∃ a : Nat, t'.activeIndex = a ∧ Fast dir s (k + 1) a) :
    Chosen dir s (k + 1) tally' t' := by
  refine ⟨h.frame.trans hl.frame, hl.ploaded.trans h.ploaded, fun i hi => ?_, fun i hi => ?_, fun i hi hli => ?_,
    hexclusive.trans ?_, hcounts, hactive⟩
  · rw [hl.others i (by omega), h.rest i (by omega)]
  · rcases Nat.lt_succ_iff_lt_or_eq.mp hi with hi | rfl
    · rw [hl.others i (by omega)]
      exact h.handles i hi
    · exact hhandle
  · rcases Nat.lt_succ_iff_lt_or_eq.mp hi with hi | rfl
    · rw [hl.others i (by omega)] at hli ⊢
      exact h.flags i hi hli
    · exact hflag hli
  · rw [h.anyExclusive]
    constructor
    · rintro (⟨i, hi, hrest⟩ | hk)
      · exact ⟨i, Nat.lt_succ_of_lt hi, hrest⟩
      · exact ⟨k, Nat.lt_succ_self k, hk⟩
    · rintro ⟨i, hi, hrest⟩
      rcases Nat.lt_succ_iff_lt_or_eq.mp hi with hi | rfl
      · exact .inl ⟨i, hi, hrest⟩
      · exact .inr hrest

theorem Chosen.active_next (h : Chosen dir s k tally t) (hk : (s.pInfo k).pHandle = true → ¬ answers (dir.module k)) :
    t.activeIndex = -1 ∨ ∃ a : Nat, t.activeIndex = a ∧ Fast dir s (k + 1) a :=
  h.active.imp_right fun ⟨a, ha, hfast⟩ => ⟨a, ha, hfast.next hk⟩

theorem chosen_zero (dir : Directory) (s : WrapperState) (hs : s.activeIndex = -1) : Chosen dir s 0 ⟨false, 0⟩ s := by
  refine ⟨.refl s, rfl, fun _ _ => rfl, fun i hi => absurd hi (Nat.not_lt_zero i), fun i hi => absurd hi (Nat.not_lt_zero i),
    ⟨fun h => (nomatch h), ?_⟩, ⟨fun _ i hi => absurd hi (Nat.not_lt_zero i), fun h => (nomatch h)⟩, .inl hs⟩
  rintro ⟨i, hi, -⟩
  exact absurd hi (Nat.not_lt_zero i)

theorem Chosen.skip (h : Chosen dir s k tally t) (hl : Local k t t') (hactive : t'.activeIndex = t.activeIndex)
    (hgone : (t'.pInfo k).pHandle = false) (hk : (s.pInfo k).pHandle = true → ¬ quiet (dir.module k) ∧ ¬ answers (dir.module k)) :
    Chosen dir s (k + 1) tally t' := by
  have hnot : ¬ (t'.pInfo k).pHandle = true := fun h => nomatch hgone.symm.trans h
  have hexcl : ¬ ((s.pInfo k).pHandle = true ∧ exclusive (dir.module k)) := fun ⟨hlk, he⟩ => (hk hlk).2 he.answers
  refine h.next hl (iff_of_false hnot ?_) (fun hlk => absurd hlk hnot) (by simp only [hexcl, or_false]) (h.counts.next (.inr ⟨?_, rfl⟩)) ?_
  · rintro ⟨hlk, hquiet | hanswers⟩
    · exact (hk hlk).1 hquiet
    · exact (hk hlk).2 hanswers.1
  · rintro ⟨hlk, hquiet | hs | he⟩
    · exact (hk hlk).1 hquiet
    · exact (hk hlk).2 hs.answers
    · exact (hk hlk).2 he.answers
  · rw [hactive]
    exact h.active_next fun hlk => (hk hlk).2

/-- A plug-in without a libusb_init. -/
theorem Chosen.markActive (h : Chosen dir s k tally t) (hlk : (s.pInfo k).pHandle = true) (hquiet : quiet (dir.module k)) :
    Chosen dir s (k + 1) { tally with activeCount := tally.activeCount + 1 } (markActive false k t) := by
  have hanswers : ¬ answers (dir.module k) := fun ha => not_quiet ha hquiet
  have hinfo : (Startup.markActive false k t).pInfo k = { t.pInfo k with exclusiveFlag := false, activeFlag := true } :=
    putInfo_self ..
  have hrest := h.rest k (Nat.le_refl k)
  refine h.next (local_markActive false k t) ?_ (fun _ => ?_) ?_ (h.counts.next (.inl ⟨hlk, .inl hquiet, rfl⟩)) ?_
  · rw [hinfo, hrest]
    exact iff_of_true hlk ⟨hlk, .inl hquiet⟩
  · rw [hinfo]
    exact iff_of_false Bool.false_ne_true fun hf => hanswers hf.1
  · have hexcl : ¬ ((s.pInfo k).pHandle = true ∧ exclusive (dir.module k)) := fun ⟨_, he⟩ => hanswers he.answers
    simp only [hexcl, or_false]
  · exact h.active_next fun _ => hanswers

theorem takeAnswer_cases (ret : Int) (k : Nat) (tally : Tally) (t : WrapperState) :
    ret = success ∧ (takeAnswer ret k tally t).1 = ⟨tally.exclusive, tally.activeCount + 1⟩ ∧
        (takeAnswer ret k tally t).2.pInfo k = { t.pInfo k with exclusiveFlag := false, activeFlag := true } ∧
        (takeAnswer ret k tally t).2.activeIndex = k ∨
      ret = pluginExclusive ∧ (takeAnswer ret k tally t).1 = ⟨true, tally.activeCount + 1⟩ ∧
        (takeAnswer ret k tally t).2.pInfo k =
          { t.pInfo k with exclusiveFlag := !tally.exclusive || (t.pInfo k).exclusiveFlag, activeFlag := true } ∧
        (takeAnswer ret k tally t).2.activeIndex = t.activeIndex ∨
      ret ≠ success ∧ ret ≠ pluginExclusive ∧ takeAnswer ret k tally t = (tally, t) := by
  rw [takeAnswer]
  split
  · rename_i hret
    exact .inl ⟨hret, rfl, putInfo_self .., rfl⟩
  · rename_i hsuccess
    split
    · rename_i hret
      refine .inr (.inl ⟨hret, ?_⟩)
      cases hexcl : tally.exclusive with
      | true => exact ⟨by rw [if_pos rfl], by rw [if_pos rfl]; exact putInfo_self .., by rw [if_pos rfl]; rfl⟩
      | false => exact ⟨rfl, putInfo_self .., rfl⟩
    · rename_i hret
      exact .inr (.inr ⟨hsuccess, hret, rfl⟩)

theorem flag_takeAnswer (h : Chosen dir s k tally t) (hans : answers (dir.module k)) :
    ((takeAnswer (dir.module k).init k tally t).2.pInfo k).exclusiveFlag = true ↔ Flagged dir s k := by
  have hrest := h.rest k (Nat.le_refl k)
  rcases takeAnswer_cases (dir.module k).init k tally t with ⟨hret, -, hinfo, -⟩ | ⟨hret, -, hinfo, -⟩ | ⟨hs, he, heq⟩
  · rw [hinfo]
    exact iff_of_false Bool.false_ne_true fun hf => hf.2.1 ⟨hans.1, hret⟩
  · have hsucc : ¬ succeeds (dir.module k) := fun hs => absurd (hret.symm.trans hs.2) (by decide)
    have hfirst : tally.exclusive = false ↔ ∀ j, j < k → (s.pInfo j).pHandle = true → ¬ exclusive (dir.module j) := by
      rw [← Bool.not_eq_true, h.anyExclusive]
      simp only [not_exists, not_and]
    rw [hinfo, Flagged, ← hfirst, hrest, Bool.or_eq_true, Bool.not_eq_true']
    constructor
    · exact fun hor => ⟨hans, hsucc, hor.imp_left fun hx => ⟨⟨hans.1, hret⟩, hx⟩⟩
    · exact fun hf => hf.2.2.imp_left fun hx => hx.2
  · rw [heq, hrest]
    refine ⟨fun hflag => ⟨hans, fun hx => hs hx.2, .inr hflag⟩, fun hf => hf.2.2.resolve_left fun hx => he hx.1.2⟩

theorem Chosen.answered (h : Chosen dir s k tally t) (hlk : (s.pInfo k).pHandle = true)
    (hsym : (s.pInfo k).symHdl = (dir.module k).exports) (hans : answers (dir.module k)) {u : WrapperState}
    (hcheck : checkVersion (dir.module k) k (takeAnswer (dir.module k).init k tally t).2 = some u) :
    Chosen dir s (k + 1) (takeAnswer (dir.module k).init k tally t).1
      (if (takeAnswer (dir.module k).init k tally t).1.activeCount ≠ 1 then { u with activeIndex := -1 } else u) := by
  have hrest := h.rest k (Nat.le_refl k)
  have hkept : ((takeAnswer (dir.module k).init k tally t).2.pInfo k).pHandle = true ∧
      ((takeAnswer (dir.module k).init k tally t).2.pInfo k).symHdl = (dir.module k).exports := by
    rcases takeAnswer_cases (dir.module k).init k tally t with ⟨-, -, hinfo, -⟩ | ⟨-, -, hinfo, -⟩ | ⟨-, -, heq⟩
    · rw [hinfo, hrest]
      exact ⟨hlk, hsym⟩
    · rw [hinfo, hrest]
      exact ⟨hlk, hsym⟩
    · rw [heq, hrest]
      exact ⟨hlk, hsym⟩
  have hlocal := local_takeAnswer (dir.module k).init k tally t
  have hversion : checkSymHdl ((takeAnswer (dir.module k).init k tally t).2.pInfo k) .libusbVersion =
      (dir.module k).exports .libusbVersion := by
    rw [checkSymHdl, hkept.1, hkept.2, Bool.true_and]
  -- the version decides whether the plug-in stays
  obtain ⟨hhandle, hflag, hlocal', hindex⟩ : ((u.pInfo k).pHandle = true ↔ stays (dir.module k)) ∧
      ((u.pInfo k).pHandle = true → ((u.pInfo k).exclusiveFlag = true ↔ Flagged dir s k)) ∧
      Local k (takeAnswer (dir.module k).init k tally t).2 u ∧
      u.activeIndex = (takeAnswer (dir.module k).init k tally t).2.activeIndex := by
    rcases checkVersion_cases hversion hcheck with ⟨hrej, hinfo, hl, hi⟩ | ⟨hrej, hinfo, hl, hi⟩
    · have hgone : (u.pInfo k).pHandle = false := by rw [hinfo, pHandle_unloadPlugin]
      have hnot : ¬ (u.pInfo k).pHandle = true := fun h => nomatch hgone.symm.trans h
      refine ⟨iff_of_false hnot ?_, fun h => absurd h hnot, hl, hi⟩
      rintro (hq | ⟨-, hr⟩)
      · exact not_quiet hans hq
      · exact nomatch hr.symm.trans hrej
    · rw [hinfo]
      exact ⟨iff_of_true hkept.1 (.inr ⟨hans, hrej⟩), fun _ => flag_takeAnswer h hans, hl, hi⟩
  -- and what is counted decides about the active index
  obtain ⟨hexclusive, hcounts, hactive⟩ : ((takeAnswer (dir.module k).init k tally t).1.exclusive = true ↔
        tally.exclusive = true ∨ (s.pInfo k).pHandle = true ∧ exclusive (dir.module k)) ∧
      Counts dir s (k + 1) (takeAnswer (dir.module k).init k tally t).1.activeCount ∧
      ((takeAnswer (dir.module k).init k tally t).1.activeCount = 1 → u.activeIndex = -1 ∨
        ∃ a : Nat, u.activeIndex = a ∧ Fast dir s (k + 1) a) := by
    have hfast {n : Nat} (hc : Counts dir s (k + 1) n) (hn : n = 1) (hi : u.activeIndex = t.activeIndex) :
        u.activeIndex = -1 ∨ ∃ a : Nat, u.activeIndex = a ∧ Fast dir s (k + 1) a := by
      rw [hi]
      exact h.active.imp_right fun ⟨a, ha, hf⟩ => ⟨a, ha, hc.fast hn (Nat.lt_succ_of_lt hf.lt) hf.loaded hf.succeeded⟩
    rcases takeAnswer_cases (dir.module k).init k tally t with ⟨hret, htally, -, hi⟩ | ⟨hret, htally, -, hi⟩ | ⟨hs, he, heq⟩
    · have hsucc : succeeds (dir.module k) := ⟨hans.1, hret⟩
      have hexcl : ¬ exclusive (dir.module k) := fun hx => absurd (hret.symm.trans hx.2) (by decide)
      have hcounts : Counts dir s (k + 1) (tally.activeCount + 1) := h.counts.next (.inl ⟨hlk, .inr (.inl hsucc), rfl⟩)
      rw [htally]
      refine ⟨by simp only [hexcl, and_false, or_false], hcounts, fun hn => .inr ⟨k, hindex.trans hi, ?_⟩⟩
      exact hcounts.fast hn (Nat.lt_succ_self k) hlk hsucc
    · have hexcl : exclusive (dir.module k) := ⟨hans.1, hret⟩
      have hcounts : Counts dir s (k + 1) (tally.activeCount + 1) := h.counts.next (.inl ⟨hlk, .inr (.inr hexcl), rfl⟩)
      rw [htally]
      exact ⟨iff_of_true rfl (.inr ⟨hlk, hexcl⟩), hcounts, fun hn => hfast hcounts hn (hindex.trans hi)⟩
    · have hexcl : ¬ exclusive (dir.module k) := fun hx => he hx.2
      have hcounts : Counts dir s (k + 1) tally.activeCount := by
        refine h.counts.next (.inr ⟨?_, rfl⟩)
        rintro ⟨-, hq | hsucc | hx⟩
        · exact not_quiet hans hq
        · exact hs hsucc.2
        · exact hexcl hx
      rw [heq] at hindex ⊢
      exact ⟨by simp only [hexcl, and_false, or_false], hcounts, fun hn => hfast hcounts hn hindex⟩
  by_cases hn : (takeAnswer (dir.module k).init k tally t).1.activeCount = 1
  · rw [if_neg (not_not_intro hn)]
    exact h.next (hlocal.trans hlocal') (hhandle.trans (by simp only [hlk, true_and])) hflag hexclusive hcounts (hactive hn)
  · rw [if_pos hn]
    have hl := hlocal.trans hlocal'
    refine h.next ⟨⟨hl.frame.own, hl.frame.busses, hl.frame.usbBusses, hl.frame.headBusp, hl.frame.busp, hl.frame.devHandles⟩,
      hl.ploaded, hl.others⟩ (hhandle.trans (by simp only [hlk, true_and])) hflag hexclusive hcounts (.inl rfl)

theorem initEach_chosen {m : Nat} (hsym : Loaded dir s (k + m)) (h : Chosen dir s k tally t)
    (hrun : initEach dir (List.range' k m) tally t = some (tally', t')) : Chosen dir s (k + m) tally' t' := by
  induction m generalizing k tally t with
  | zero =>
      obtain ⟨rfl, rfl⟩ := Prod.mk.inj (Option.some.inj hrun)
      exact h
  | succ m ih =>
      have hrest := h.rest k (Nat.le_refl k)
      rw [List.range'_succ, initEach, hrest] at hrun
      rw [Nat.add_comm m 1, ← Nat.add_assoc] at hsym ⊢
      have hk : k < k + 1 + m := by omega
      cases hl : (s.pInfo k).pHandle with
      | false =>
          rw [hl] at hrun
          refine ih hsym (h.skip (.refl k t) rfl (hrest ▸ hl) fun hlk => nomatch hl.symm.trans hlk) hrun
      | true =>
          have hcheck (sym : Sym) : checkSymHdl (s.pInfo k) sym = (dir.module k).exports sym := by
            rw [checkSymHdl, hl, hsym k hk hl, Bool.true_and]
          rw [hl, Bool.not_true, if_neg Bool.false_ne_true, hcheck] at hrun
          cases hexp : (dir.module k).exports .libusbInit with
          | false =>
              rw [hexp] at hrun
              exact ih hsym (h.markActive hl hexp) hrun
          | true =>
              rw [hexp, Bool.not_true, if_neg Bool.false_ne_true] at hrun
              by_cases hfail : (dir.module k).init = failure
              · rw [if_pos hfail] at hrun
                refine ih hsym (h.skip (local_unloadPlugin k t) ?_ (pHandle_unloadPlugin k t) fun _ => ⟨?_, ?_⟩) hrun
                · rw [unloadPlugin]
                  split
                  · rfl
                  · rfl
                · exact fun hq => nomatch hq.symm.trans hexp
                · exact fun ha => ha.2 hfail
              · rw [if_neg hfail] at hrun
                simp only [Option.bind_eq_bind, Option.bind_eq_some_iff] at hrun
                obtain ⟨u, hu, hrun⟩ := hrun
                exact ih hsym (h.answered hl (hsym k hk hl) ⟨hexp, hfail⟩ hu) hrun

end FirstLoop

section SecondLoop

variable {s t u : WrapperState} {k : Nat}

theorem startEach_false {is : List Nat} (h : startEach false is s = some t) : t = s := by
  induction is with
  | nil => exact (Option.some.inj h).symm
  | cons k is ih =>
      simp only [startEach, Bool.false_and, Bool.false_eq_true, if_false] at h
      split at h
      · exact ih h
      · split at h
        · cases h
        · exact ih h

structure Started (s : WrapperState) (k : Nat) (u : WrapperState) : Prop where
  frame : Frame s u
  ploaded : u.ploaded = s.ploaded
  rest : ∀ i, k ≤ i → u.pInfo i = s.pInfo i
  handles : ∀ i, i < k → (u.pInfo i).pHandle = true → (s.pInfo i).pHandle = true ∧ (s.pInfo i).exclusiveFlag = true
  active : (∃ i, i < k ∧ (u.pInfo i).pHandle = true) → ∃ a : Nat, a < k ∧ u.activeIndex = a ∧ (u.pInfo a).pHandle = true

theorem Started.next (h : Started s k u) (hl : Local k u t) (hk : (t.pInfo k).pHandle = true →
      (u.pInfo k).pHandle = true ∧ (u.pInfo k).exclusiveFlag = true ∧ t.activeIndex = k)
    (hindex : (t.pInfo k).pHandle = false → t.activeIndex = u.activeIndex) : Started s (k + 1) t := by
  have hrest := h.rest k (Nat.le_refl k)
  refine ⟨h.frame.trans hl.frame, hl.ploaded.trans h.ploaded, fun i hi => ?_, fun i hi hli => ?_, ?_⟩
  · rw [hl.others i (by omega), h.rest i (by omega)]
  · rcases Nat.lt_succ_iff_lt_or_eq.mp hi with hi | rfl
    · rw [hl.others i (by omega)] at hli
      exact h.handles i hi hli
    · rw [← hrest]
      exact ⟨(hk hli).1, (hk hli).2.1⟩
  · rintro ⟨i, hi, hli⟩
    cases hgone : (t.pInfo k).pHandle with
    | true => exact ⟨k, Nat.lt_succ_self k, (hk hgone).2.2, hgone⟩
    | false =>
        have hik : i ≠ k := by
          rintro rfl
          exact nomatch hgone.symm.trans hli
        rw [hl.others i hik] at hli
        obtain ⟨a, ha, hactive, hla⟩ := h.active ⟨i, by omega, hli⟩
        refine ⟨a, Nat.lt_succ_of_lt ha, (hindex hgone).trans hactive, ?_⟩
        rw [hl.others a (by omega)]
        exact hla

theorem activeIndex_unloadPlugin (k : Nat) (s : WrapperState) : (unloadPlugin k s).activeIndex = s.activeIndex := by
  rw [unloadPlugin]
  split
  · rfl
  · rfl

theorem startEach_started {m : Nat} (h : Started s k u) (hrun : startEach true (List.range' k m) u = some t) :
    Started s (k + m) t := by
  induction m generalizing k u with
  | zero => exact Option.some.inj hrun ▸ h
  | succ m ih =>
      rw [List.range'_succ, startEach] at hrun
      rw [Nat.add_comm m 1, ← Nat.add_assoc]
      cases hl : (u.pInfo k).pHandle with
      | false =>
          rw [hl] at hrun
          exact ih (h.next (.refl k u) (fun hlk => nomatch hl.symm.trans hlk) fun _ => rfl) hrun
      | true =>
          cases hflag : (u.pInfo k).exclusiveFlag with
          | true =>
              simp only [hl, hflag, Bool.not_true, Bool.and_false, Bool.and_true, Bool.false_eq_true,
                if_false, if_true] at hrun
              split at hrun
              · cases hrun
              · have hlocal : Local k u { u with exclusiveIndex := (k : Int), activeIndex := (k : Int) } :=
                  ⟨⟨rfl, rfl, rfl, rfl, fun _ => rfl, fun _ => rfl⟩, rfl, fun _ _ => rfl⟩
                exact ih (h.next hlocal (fun _ => ⟨hl, hflag, rfl⟩) fun hgone => nomatch hgone.symm.trans hl) hrun
          | false =>
              simp only [hl, hflag, Bool.not_true, Bool.not_false, Bool.and_false, Bool.and_true, Bool.false_eq_true,
                if_false, if_true] at hrun
              split at hrun
              · cases hrun
              · have hgone := pHandle_unloadPlugin k u
                exact ih (h.next (local_unloadPlugin k u) (fun hlk => nomatch hgone.symm.trans hlk)
                  fun _ => activeIndex_unloadPlugin k u) hrun

end SecondLoop

section Loading

variable {dir : Directory} {s t t' : WrapperState} {k k' n : Nat} {loaded loaded' : Bool}

/-- What load_plugins has done up to an index. -/
structure LoadedTo (dir : Directory) (s : WrapperState) (k : Nat) (t : WrapperState) : Prop where
  frame : Frame s t
  ploaded : t.ploaded = s.ploaded
  activeIndex : t.activeIndex = s.activeIndex
  rest : ∀ i, k ≤ i → t.pInfo i = s.pInfo i
  handles : ∀ i, i < k → ((t.pInfo i).pHandle = true ↔ (dir.module i).opens = true ∧ (dir.module i).memory = true)
  slots : ∀ i, i < k → (t.pInfo i).pHandle = true →
    (t.pInfo i).symHdl = (dir.module i).exports ∧ (t.pInfo i).exclusiveFlag = (s.pInfo i).exclusiveFlag

theorem loadPlugin_slot (m : Module) (k : Nat) (s : WrapperState) :
    (((loadPlugin m k s).pInfo k).pHandle = true ↔ m.opens = true ∧ m.memory = true) ∧
      (((loadPlugin m k s).pInfo k).pHandle = true → ((loadPlugin m k s).pInfo k).symHdl = m.exports ∧
        ((loadPlugin m k s).pInfo k).exclusiveFlag = (s.pInfo k).exclusiveFlag) ∧
      (loadPlugin m k s).activeIndex = s.activeIndex := by
  rw [loadPlugin]
  cases hopens : m.opens with
  | false =>
      rw [Bool.not_false, if_pos rfl, putInfo_self]
      exact ⟨by simp, fun h => (nomatch h), rfl⟩
  | true =>
      cases hmemory : m.memory with
      | false =>
          simp only [Bool.not_true, Bool.not_false, Bool.false_eq_true, if_false, if_true, pHandle_unloadPlugin,
            activeIndex_unloadPlugin]
          exact ⟨by simp, fun h => (nomatch h), rfl⟩
      | true =>
          simp only [Bool.not_true, Bool.false_eq_true, if_false, putInfo_self]
          exact ⟨by simp, fun _ => ⟨trivial, trivial⟩, rfl⟩

theorem LoadedTo.next (h : LoadedTo dir s k t) : LoadedTo dir s (k + 1) (loadPlugin (dir.module k) k t) := by
  have hl := local_loadPlugin (dir.module k) k t
  obtain ⟨hhandle, hslot, hactive⟩ := loadPlugin_slot (dir.module k) k t
  refine ⟨h.frame.trans hl.frame, hl.ploaded.trans h.ploaded, hactive.trans h.activeIndex, fun i hi => ?_, fun i hi => ?_,
    fun i hi hli => ?_⟩
  · rw [hl.others i (by omega), h.rest i (by omega)]
  · rcases Nat.lt_succ_iff_lt_or_eq.mp hi with hi | rfl
    · rw [hl.others i (by omega)]
      exact h.handles i hi
    · exact hhandle
  · rcases Nat.lt_succ_iff_lt_or_eq.mp hi with hi | rfl
    · rw [hl.others i (by omega)] at hli ⊢
      exact h.slots i hi hli
    · rw [← h.rest i (Nat.le_refl i)]
      exact hslot hli

theorem loadFrom_loaded (h : LoadedTo dir s k t) (hrun : loadFrom dir n k loaded t = (k', loaded', t')) :
    LoadedTo dir s k' t' ∧ (k ≤ k' ∧ k' ≤ k + n) ∧ (k' = k + n ∨ (s.pInfo k').pName = false) ∧
      (∀ i, k ≤ i → i < k' → (s.pInfo i).pName = true) ∧
      (loaded' = false → loaded = false ∧ ∀ i, k ≤ i → i < k' → ((dir.module i).opens && (dir.module i).memory) = false) := by
  induction n generalizing k loaded t with
  | zero =>
      cases hrun
      exact ⟨h, ⟨Nat.le_refl _, Nat.le_refl _⟩, .inl rfl, fun i _ _ => by omega, fun hl => ⟨hl, fun i _ _ => by omega⟩⟩
  | succ n ih =>
      rw [loadFrom, h.rest k (Nat.le_refl k)] at hrun
      cases hname : (s.pInfo k).pName with
      | false =>
          rw [hname] at hrun
          cases hrun
          exact ⟨h, ⟨Nat.le_refl _, by omega⟩, .inr hname, fun i _ _ => by omega, fun hl => ⟨hl, fun i _ _ => by omega⟩⟩
      | true =>
          rw [hname, if_pos rfl] at hrun
          obtain ⟨hload, hle, hend, hnames, hnone⟩ := ih h.next hrun
          refine ⟨hload, ⟨by omega, by omega⟩, ?_, fun i hi hik => ?_, fun hl => ?_⟩
          · exact hend.imp_left fun heq => by omega
          · rcases Nat.eq_or_lt_of_le hi with rfl | hi
            · exact hname
            · exact hnames i hi hik
          · obtain ⟨hor, hlater⟩ := hnone hl
            rw [Bool.or_eq_false_iff] at hor
            refine ⟨hor.1, fun i hi hik => ?_⟩
            rcases Nat.eq_or_lt_of_le hi with rfl | hi
            · exact hor.2
            · exact hlater i hi hik

end Loading

end OiUserland.Wrapper.Selection
