import OiUserland.Wrapper.Selection

namespace OiUserland.Wrapper.FastPath

open Plugins Startup Selection

variable {dir : Directory} {s t : WrapperState} {i : Nat}

/-- The plug-ins that load_plugins leaves loaded. -/
def Loads (dir : Directory) (s : WrapperState) (i : Nat) : Prop :=
  dir.readable = true ∧ dir.entries ≠ 0 ∧ i < maxPlugins ∧ (∀ j, j ≤ i → j < dir.entries ∨ (s.pInfo j).pName = true) ∧
    (dir.module i).opens = true ∧ (dir.module i).memory = true

/-- A success after which nothing is counted but plug-ins without a libusb_init that come
behind every plug-in that answers: usb_init ends with it as the active index. -/
structure FastChosen (dir : Directory) (s : WrapperState) (a : Nat) : Prop where
  loads : Loads dir s a
  succeeded : succeeds (dir.module a)
  others : ∀ i, i ≠ a → Loads dir s i → counted (dir.module i) →
    quiet (dir.module i) ∧ ∀ j, i ≤ j → Loads dir s j → ¬ answers (dir.module j)

def StaysExclusive (dir : Directory) (s : WrapperState) (i : Nat) : Prop :=
  Loads dir s i ∧ stays (dir.module i) ∧ answers (dir.module i) ∧ ¬ succeeds (dir.module i) ∧
    (exclusive (dir.module i) ∧ (∀ j, j < i → Loads dir s j → ¬ exclusive (dir.module j)) ∨
      (s.pInfo i).exclusiveFlag = true)

/-- The answers of the plug-ins to usb_init fit each other: the one that is chosen as the
only active plug-in stays loaded, and no other one does. -/
structure Settled (dir : Directory) (s : WrapperState) : Prop where
  fast : (∀ i, Loads dir s i → ¬ exclusive (dir.module i)) → ∀ a, FastChosen dir s a →
    stays (dir.module a) ∧ ∀ i, i ≠ a → Loads dir s i → ¬ stays (dir.module i)
  exclusive : (∃ e, Loads dir s e ∧ exclusive (dir.module e)) →
    ∀ i j, StaysExclusive dir s i → StaysExclusive dir s j → i = j

def Routes (s : WrapperState) : Prop :=
  ∀ i, i < s.ploaded → (s.pInfo i).pHandle = true → s.activeIndex = -1 ∨ s.activeIndex = i

theorem readPluginEntries_info (dir : Directory) (s : WrapperState) (i : Nat) :
    ((readPluginEntries dir s).pInfo i).pName = true ↔ i < dir.entries ∨ (s.pInfo i).pName = true := by
  rw [readPluginEntries]
  simp only
  split
  · rename_i h
    exact iff_of_true rfl (.inl h)
  · rename_i h
    simp only [h, false_or]

theorem frame_readPluginEntries (dir : Directory) (s : WrapperState) : Frame s (readPluginEntries dir s) := by
  refine ⟨rfl, rfl, rfl, rfl, fun i => ?_, fun i => ?_⟩
  · rw [readPluginEntries]
    simp only
    split
    · rfl
    · rfl
  · rw [readPluginEntries]
    simp only
    split
    · rfl
    · rfl

theorem readPluginEntries_flags (dir : Directory) (s : WrapperState) (i : Nat) :
    ((readPluginEntries dir s).pInfo i).pHandle = (s.pInfo i).pHandle ∧
      ((readPluginEntries dir s).pInfo i).exclusiveFlag = (s.pInfo i).exclusiveFlag := by
  rw [readPluginEntries]
  simp only
  split
  · exact ⟨rfl, rfl⟩
  · exact ⟨rfl, rfl⟩

theorem loadPlugins_cases (dir : Directory) (s : WrapperState) :
    Frame s (loadPlugins dir s).2 ∧
      ((loadPlugins dir s).1 = false ∧ (loadPlugins dir s).2.ploaded = s.ploaded ∧
          (loadPlugins dir s).2.activeIndex = s.activeIndex ∧
          (∀ i, ((loadPlugins dir s).2.pInfo i).pHandle = true → (s.pInfo i).pHandle = true) ∨
        (loadPlugins dir s).1 = true ∧ ∀ i, (i < (loadPlugins dir s).2.ploaded ∧
            ((loadPlugins dir s).2.pInfo i).pHandle = true ↔ Loads dir s i) ∧
          (Loads dir s i → ((loadPlugins dir s).2.pInfo i).symHdl = (dir.module i).exports ∧
            ((loadPlugins dir s).2.pInfo i).exclusiveFlag = (s.pInfo i).exclusiveFlag)) := by
  have hread := frame_readPluginEntries dir s
  rw [loadPlugins]
  by_cases hfail : (!dir.readable || decide (dir.entries = 0)) = true
  · simp only [hfail, if_true]
    exact ⟨hread, .inl ⟨trivial, rfl, rfl, fun i hi => (readPluginEntries_flags dir s i).1 ▸ hi⟩⟩
  · rcases hrun : loadFrom dir maxPlugins 0 false (readPluginEntries dir s) with ⟨k', loaded, t⟩
    have hstart : LoadedTo dir (readPluginEntries dir s) 0 (readPluginEntries dir s) :=
      ⟨.refl _, rfl, rfl, fun _ _ => rfl, fun i hi => absurd hi (Nat.not_lt_zero i), fun i hi => absurd hi (Nat.not_lt_zero i)⟩
    obtain ⟨hload, hle, hend, hnames, hnone⟩ := loadFrom_loaded hstart hrun
    simp only [hfail, Bool.false_eq_true, if_false]
    cases loaded with
    | false =>
        simp only [Bool.false_eq_true, if_false]
        refine ⟨hread.trans hload.frame, .inl ⟨trivial, hload.ploaded, hload.activeIndex, fun i hi => ?_⟩⟩
        by_cases hik : i < k'
        · have hgone := (hnone rfl).2 i (Nat.zero_le i) hik
          have hboth := (hload.handles i hik).mp hi
          rw [hboth.1, hboth.2] at hgone
          cases hgone
        · rw [hload.rest i (by omega), (readPluginEntries_flags dir s i).1] at hi
          exact hi
    | true =>
        simp only [if_true]
        simp only [Bool.or_eq_true, Bool.not_eq_true', decide_eq_true_eq, not_or, Bool.not_eq_false] at hfail
        have hloads (i : Nat) : i < k' ∧ (t.pInfo i).pHandle = true ↔ Loads dir s i := by
          constructor
          · rintro ⟨hi, hl⟩
            refine ⟨hfail.1, hfail.2, by omega, fun j hj => ?_, (hload.handles i hi).mp hl⟩
            exact (readPluginEntries_info dir s j).mp (hnames j (Nat.zero_le j) (by omega))
          · rintro ⟨-, -, hi, hnamed, hboth⟩
            have hlt : i < k' := by
              by_contra hge
              rcases hend with heq | hend
              · omega
              · exact nomatch hend.symm.trans ((readPluginEntries_info dir s k').mpr (hnamed k' (by omega)))
            exact ⟨hlt, (hload.handles i hlt).mpr hboth⟩
        refine ⟨⟨(hread.trans hload.frame).own, (hread.trans hload.frame).busses, (hread.trans hload.frame).usbBusses,
          (hread.trans hload.frame).headBusp, (hread.trans hload.frame).busp, (hread.trans hload.frame).devHandles⟩,
          .inr ⟨trivial, fun i => ⟨hloads i, fun hi => ?_⟩⟩⟩
        obtain ⟨hik, hl⟩ := (hloads i).mpr hi
        obtain ⟨hsym, hflag⟩ := hload.slots i hik hl
        exact ⟨hsym, hflag.trans (readPluginEntries_flags dir s i).2⟩

theorem routes_of_loops {n : Nat} {tally : Tally} {u : WrapperState} (hloaded : Loaded dir s n) (hactive : s.activeIndex = -1)
    (hploaded : s.ploaded = n) (hsettled : (∀ i, i < n → (s.pInfo i).pHandle = true → ¬ exclusive (dir.module i)) →
      ∀ a, Fast dir s n a → stays (dir.module a) ∧
        ∀ i, i < n → i ≠ a → (s.pInfo i).pHandle = true → ¬ stays (dir.module i))
    (hexclusive : (∃ e, e < n ∧ (s.pInfo e).pHandle = true ∧ exclusive (dir.module e)) → ∀ i j, i < n → j < n →
      (s.pInfo i).pHandle = true → (s.pInfo j).pHandle = true → stays (dir.module i) → stays (dir.module j) →
      Flagged dir s i → Flagged dir s j → i = j)
    (hinit : initEach dir (List.range n) ⟨false, 0⟩ s = some (tally, u))
    (hstart : startEach tally.exclusive (List.range u.ploaded) u = some t) : Frame s t ∧ Routes t := by
  rw [List.range_eq_range'] at hinit
  have hchosen := initEach_chosen (by rwa [Nat.zero_add]) (chosen_zero dir s hactive) hinit
  rw [Nat.zero_add] at hchosen
  rw [hchosen.ploaded, hploaded, List.range_eq_range'] at hstart
  cases hexcl : tally.exclusive with
  | false =>
      rw [hexcl] at hstart
      obtain rfl := startEach_false hstart
      refine ⟨hchosen.frame, fun i hi hl => ?_⟩
      rw [hchosen.ploaded, hploaded] at hi
      have hnone (i : Nat) (hi : i < n) (hl : (s.pInfo i).pHandle = true) : ¬ exclusive (dir.module i) := fun he =>
        nomatch hexcl.symm.trans (hchosen.anyExclusive.mpr ⟨i, hi, hl, he⟩)
      refine hchosen.active.imp_right fun ⟨a, ha, hfast⟩ => ?_
      obtain ⟨-, hothers⟩ := hsettled hnone a hfast
      by_cases hia : i = a
      · rw [ha, hia]
      · obtain ⟨hli, hstays⟩ := (hchosen.handles i hi).mp hl
        exact absurd hstays (hothers i hi hia hli)
  | true =>
      rw [hexcl] at hstart
      have hstarted := startEach_started ⟨.refl u, rfl, fun _ _ => rfl, fun i hi => absurd hi (Nat.not_lt_zero i),
        fun ⟨i, hi, _⟩ => absurd hi (Nat.not_lt_zero i)⟩ hstart
      rw [Nat.zero_add] at hstarted
      refine ⟨hchosen.frame.trans hstarted.frame, fun i hi hl => .inr ?_⟩
      rw [hstarted.ploaded, hchosen.ploaded, hploaded] at hi
      have hflagged {i : Nat} (hi : i < n) (hl : (t.pInfo i).pHandle = true) :
          (s.pInfo i).pHandle = true ∧ stays (dir.module i) ∧ Flagged dir s i := by
        obtain ⟨hlu, hflag⟩ := hstarted.handles i hi hl
        obtain ⟨hls, hstays⟩ := (hchosen.handles i hi).mp hlu
        exact ⟨hls, hstays, (hchosen.flags i hi hlu).mp hflag⟩
      obtain ⟨a, ha, hindex, hla⟩ := hstarted.active ⟨i, hi, hl⟩
      obtain ⟨hli, hsi, hfi⟩ := hflagged hi hl
      obtain ⟨hla, hsa, hfa⟩ := hflagged ha hla
      rw [hindex, hexclusive (hchosen.anyExclusive.mp hexcl) i a hi ha hli hla hsi hsa hfi hfa]

theorem usbInit_routes (h : usbInit dir s = some t) (hr : Routes s) (hsettled : s.headBusp = 0 → Settled dir s) :
    s.headBusp ≠ 0 ∧ t = s ∨ s.headBusp = 0 ∧ Frame s t ∧ Routes t := by
  rw [usbInit] at h
  by_cases hhead : s.headBusp = 0
  · rw [if_neg (not_not_intro hhead)] at h
    refine .inr ⟨hhead, ?_⟩
    obtain ⟨hframe, hcases⟩ := loadPlugins_cases dir s
    rcases hcases with ⟨hok, hploaded, hactive, hfewer⟩ | ⟨hok, hslots⟩
    · simp only [hok, Bool.not_false, if_true, Option.some_inj] at h
      subst h
      refine ⟨hframe, fun i hi hl => ?_⟩
      rw [hploaded] at hi
      rw [hactive]
      exact hr i hi (hfewer i hl)
    · simp only [hok, Bool.not_true, Bool.false_eq_true, if_false, Option.bind_eq_bind, Option.bind_eq_some_iff] at h
      obtain ⟨⟨tally, u⟩, hinit, hstart⟩ := h
      have hs := hsettled hhead
      have hloads {i : Nat} (hi : i < (loadPlugins dir s).2.ploaded)
          (hl : ((loadPlugins dir s).2.pInfo i).pHandle = true) : Loads dir s i := (hslots i).1.mp ⟨hi, hl⟩
      have hloaded {i : Nat} (hl : Loads dir s i) := (hslots i).1.mpr hl
      have hafter : Frame { (loadPlugins dir s).2 with exclusiveIndex := -1, activeIndex := -1, headBusp := 0 } t ∧
          Routes t := by
        refine routes_of_loops (fun i hi hl => ((hslots i).2 (hloads hi hl)).1) rfl rfl (fun hnone a hfast => ?_)
          (fun hexcl i j hi hj hli hlj hsi hsj hfi hfj => ?_) hinit hstart
        · obtain ⟨hstays, hothers⟩ := hs.fast (fun i hi => hnone i (hloaded hi).1 (hloaded hi).2) a
            ⟨hloads hfast.lt hfast.loaded, hfast.succeeded, fun i hia hi hc => by
              obtain ⟨hquiet, hlater⟩ := hfast.others i (hloaded hi).1 hia (hloaded hi).2 hc
              exact ⟨hquiet, fun j hij hj => hlater j hij (hloaded hj).1 (hloaded hj).2⟩⟩
          exact ⟨hstays, fun i hi hia hl => hothers i hia (hloads hi hl)⟩
        · have hstays {i : Nat} (hi : i < (loadPlugins dir s).2.ploaded)
              (hl : ((loadPlugins dir s).2.pInfo i).pHandle = true) (hst : stays (dir.module i))
              (hf : answers (dir.module i) ∧ ¬ succeeds (dir.module i) ∧ (exclusive (dir.module i) ∧
                (∀ j, j < i → ((loadPlugins dir s).2.pInfo j).pHandle = true → ¬ exclusive (dir.module j)) ∨
                  ((loadPlugins dir s).2.pInfo i).exclusiveFlag = true)) : StaysExclusive dir s i := by
            refine ⟨hloads hi hl, hst, hf.1, hf.2.1, ?_⟩
            rw [← ((hslots i).2 (hloads hi hl)).2]
            exact hf.2.2.imp_left fun ⟨hx, hfirst⟩ => ⟨hx, fun j hj hlj => hfirst j hj (hloaded hlj).2⟩
          obtain ⟨e, he, hle, hxe⟩ := hexcl
          exact hs.exclusive ⟨e, hloads he hle, hxe⟩ i j (hstays hi hli hsi hfi) (hstays hj hlj hsj hfj)
      obtain ⟨hframe', hroutes⟩ := hafter
      have hhead' : t.headBusp = (loadPlugins dir s).2.headBusp := hframe'.headBusp.trans (hframe.headBusp.trans hhead).symm
      exact ⟨hframe.trans ⟨hframe'.own, hframe'.busses, hframe'.usbBusses, hhead', hframe'.busp, hframe'.devHandles⟩, hroutes⟩
  · rw [if_pos hhead] at h
    exact .inl ⟨hhead, (Option.some.inj h).symm⟩

end OiUserland.Wrapper.FastPath
