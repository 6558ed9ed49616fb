import OiUserland.Libusb.InterfaceClaims

namespace OiUserland.Libusb.SharedEp0

open Lib.Runs Configs Handles HandleSteps

variable {s s' t : UsbState} {base : List Fd} {hs : List Nat} {hdl : Nat} {info info' : UsbDevHandleInfo} {fd stat : Fd}
  {answers : OpenAnswers} {r : Int}

/-- The descriptors that are opened are positive: 0 would read as "not open". -/
def Positive (answers : OpenAnswers) : Prop :=
  (∀ n, answers.ep0 = .opened n → 0 < n) ∧ ∀ n, answers.ep0Stat = .opened n → 0 < n

/-- The first handle opens the control node, and its status node does not open. -/
def StatusRefused (answers : OpenAnswers) (s : UsbState) : Prop :=
  s.ep0Fd.num = 0 ∧ answers.hdl.isSome ∧ answers.info = true ∧ answers.malloc = true ∧
    (∃ n, answers.ep0 = .opened n) ∧ ∃ errno, answers.ep0Stat = .failed errno

structure Pair (base : List Fd) (fd stat : Fd) : Prop where
  fd_pos : 0 < fd.num
  stat_pos : 0 < stat.num
  ne : fd.num ≠ stat.num
  unused : ∀ f ∈ base, f.num ≠ fd.num ∧ f.num ≠ stat.num

theorem openNode_cases {node : List Char} {answer : OpenAnswer} {x : Fd ⊕ Errno} (h : openNode node answer s = some (x, s')) :
    (∃ errno, answer = .failed errno ∧ x = .inr errno ∧ s' = s) ∨
      ∃ n : Nat, answer = .opened n ∧ (∀ f ∈ s.files, f.num ≠ n) ∧ x = .inl ⟨n, node⟩ ∧
        s' = { s with files := ⟨n, node⟩ :: s.files } := by
  cases answer with
  | failed errno =>
      obtain ⟨rfl, rfl⟩ := Prod.mk.inj (Option.some.inj h)
      exact .inl ⟨errno, rfl, rfl, rfl⟩
  | opened n =>
      simp only [openNode] at h
      split at h
      · cases h
      · rename_i hany
        obtain ⟨rfl, rfl⟩ := Prod.mk.inj (Option.some.inj h)
        refine .inr ⟨n, rfl, fun f hf heq => hany ?_, rfl, rfl⟩
        exact List.any_eq_true.mpr ⟨f, hf, by simpa using heq⟩

theorem openEp0_shared (h0 : s.ep0Fd.num ≠ 0) :
    usbOpenEp0 answers info s =
      some (0, info.setEp0 s.ep0Fd s.ep0FdStat, { s with refCount := s.refCount + 1 }) := by
  rw [usbOpenEp0, if_pos h0]

theorem openEp0_first (h0 : s.ep0Fd.num = 0) (hpos : Positive answers) (h : usbOpenEp0 answers info s = some (r, info', t)) :
    (r ≠ 0 ∧ t = s ∧ ¬(answers.malloc = true ∧ ∃ n, answers.ep0 = .opened n)) ∨
    (r ≠ 0 ∧ (∃ fd, t = { s with files := fd :: s.files }) ∧ answers.malloc = true ∧ (∃ n, answers.ep0 = .opened n) ∧
      ∃ errno, answers.ep0Stat = .failed errno) ∨
    (r = 0 ∧ ∃ fd stat, Pair s.files fd stat ∧ info' = info.setEp0 fd stat ∧ (∃ n, answers.ep0Stat = .opened n) ∧
      t = { s with files := stat :: fd :: s.files, ep0Fd := fd, ep0FdStat := stat, refCount := s.refCount + 1 }) := by
  have herr (errno : Errno) : (errno.val : Int) ≠ 0 := Int.ofNat_ne_zero.mpr (Nat.ne_of_gt errno.property)
  rw [usbOpenEp0, if_neg (not_not.mpr h0)] at h
  by_cases hm : answers.malloc = true
  · rw [if_neg (by simp [hm])] at h
    obtain ⟨⟨x, u⟩, hx, hrest⟩ := Option.bind_eq_some_iff.mp h
    obtain ⟨errno, ha, rfl, rfl⟩ | ⟨m, ha, hfresh, rfl, rfl⟩ := openNode_cases hx
    · obtain ⟨rfl, rfl, rfl⟩ := Prod.mk.inj (Option.some.inj hrest) |>.imp_right Prod.mk.inj
      refine .inl ⟨herr errno, rfl, ?_⟩
      rintro ⟨_, n, hn⟩
      cases ha.symm.trans hn
    · obtain ⟨⟨y, v⟩, hy, hlast⟩ := Option.bind_eq_some_iff.mp hrest
      obtain ⟨errno, ha', rfl, rfl⟩ | ⟨n, ha', hfresh', rfl, rfl⟩ := openNode_cases hy
      · obtain ⟨rfl, -, rfl⟩ := Prod.mk.inj (Option.some.inj hlast) |>.imp_right Prod.mk.inj
        exact .inr (.inl ⟨herr errno, ⟨_, rfl⟩, hm, ⟨m, ha⟩, errno, ha'⟩)
      · obtain ⟨rfl, rfl, rfl⟩ := Prod.mk.inj (Option.some.inj hlast) |>.imp_right Prod.mk.inj
        refine .inr (.inr ⟨rfl, _, _, ⟨?_, ?_, ?_, ?_⟩, rfl, ⟨n, ha'⟩, rfl⟩)
        · exact Int.natCast_pos.mpr (hpos.1 m ha)
        · exact Int.natCast_pos.mpr (hpos.2 n ha')
        · exact hfresh' _ (List.mem_cons_self ..)
        · exact fun f hf => ⟨hfresh f hf, hfresh' f (List.mem_cons_of_mem _ hf)⟩
  · rw [if_pos (by simp [hm])] at h
    obtain ⟨rfl, rfl, rfl⟩ : enomem = r ∧ info = info' ∧ s = t := by simpa using h
    exact .inl ⟨by decide, rfl, fun h => hm h.1⟩

theorem setEp0_noFd (i : Nat) (hi : i ≠ 0) : (newInfo.setEp0 fd stat).epFd i = noFd ∧
    (newInfo.setEp0 fd stat).epStatusFd i = noFd := by
  constructor
  · exact Function.update_of_ne hi fd newInfo.epFd
  · exact Function.update_of_ne hi stat newInfo.epStatusFd

theorem filter_unused (hp : Pair base fd stat) :
    (base.filter fun f => f.num ≠ fd.num).filter (fun f => f.num ≠ stat.num) = base := by
  rw [List.filter_filter, List.filter_eq_self]
  intro f hf
  simp [hp.unused f hf]

theorem closeIfOpen_pos (h : 0 < fd.num) :
    closeIfOpen fd s = { s with files := s.files.filter fun f => f.num ≠ fd.num } :=
  if_pos (by omega)

theorem closeEp0_last (hp : Pair base (info.epFd 0) (info.epStatusFd 0))
    (hfiles : s.files = info.epStatusFd 0 :: info.epFd 0 :: base) (h0 : s.ep0Fd.num ≠ 0) (hcount : s.refCount = 1) :
    usbCloseEp0 info s = { s with files := base, refCount := 0, ep0Fd := ⟨0, []⟩, ep0FdStat := ⟨0, []⟩ } := by
  have hlist : (s.files.filter fun f => f.num ≠ (info.epFd 0).num).filter
      (fun f => f.num ≠ (info.epStatusFd 0).num) = base := by
    rw [hfiles, List.filter_cons_of_pos (by simpa using Ne.symm hp.ne), List.filter_cons_of_neg (by simp),
      List.filter_cons_of_neg (by simp)]
    exact filter_unused hp
  simp only [usbCloseEp0, h0, hcount, ne_eq, not_false_eq_true, if_true, true_and, Int.sub_self, Int.lt_irrefl, if_false]
  rw [closeIfOpen_pos hp.fd_pos, closeIfOpen_pos hp.stat_pos]
  simp only [hlist]

theorem closeEp0_shared (h0 : s.ep0Fd.num ≠ 0) (hcount : 1 < s.refCount) :
    usbCloseEp0 info s = { s with refCount := s.refCount - 1 } := by
  have hpos : 0 < s.refCount - 1 := by omega
  simp only [usbCloseEp0, h0, hpos, ne_eq, not_false_eq_true, if_true, and_self]

theorem closeIfOpen_noFd : closeIfOpen noFd s = s := if_neg (by decide)

theorem closeAllEps_closed (h : ∀ i, i ≠ 0 → info.epFd i = noFd ∧ info.epStatusFd i = noFd) :
    (usbCloseAllEps info s).2 = s := by
  have hrange : ∀ i ∈ (List.range usbMaxendpoints).tail, i ≠ 0 := by decide
  show (List.range usbMaxendpoints).tail.foldl
    (fun s i => closeIfOpen (info.epStatusFd i) (closeIfOpen (info.epFd i) s)) s = s
  revert hrange
  generalize (List.range usbMaxendpoints).tail = is
  intro hrange
  induction is with
  | nil => rfl
  | cons i is ih =>
      obtain ⟨hfd, hstat⟩ := h i (hrange i (List.mem_cons_self ..))
      rw [List.foldl_cons, hfd, hstat, closeIfOpen_noFd, closeIfOpen_noFd]
      exact ih fun j hj => hrange j (List.mem_cons_of_mem _ hj)

structure Idle (s : UsbState) (info : UsbDevHandleInfo) : Prop where
  fd : info.epFd 0 = s.ep0Fd
  stat : info.epStatusFd 0 = s.ep0FdStat
  others : ∀ i, i ≠ 0 → info.epFd i = noFd ∧ info.epStatusFd i = noFd
  unclaimed : info.claimedInterface = -1

structure Sharing (base : List Fd) (hs : List Nat) (s : UsbState) : Prop where
  nodup : hs.Nodup
  handles : ∀ hdl, hdl ∈ hs ↔ (s.handles hdl).isSome
  refCount : s.refCount = hs.length
  closed : hs = [] → s.ep0Fd.num = 0 ∧ s.files = base
  opened : hs ≠ [] → Pair base s.ep0Fd s.ep0FdStat ∧ s.files = s.ep0FdStat :: s.ep0Fd :: base
  idle : ∀ hdl info, s.handles hdl = some info → Idle s info

theorem Sharing.ep0Fd_ne (h : Sharing base hs s) (hne : hs ≠ []) : s.ep0Fd.num ≠ 0 := by
  have := (h.opened hne).1.fd_pos
  omega

theorem Sharing.eq_nil (h : Sharing base hs s) (h0 : s.ep0Fd.num = 0) : hs = [] := by
  by_contra hne
  exact h.ep0Fd_ne hne h0

theorem Sharing.enter (h : Sharing base hs s) {dev : UsbDevice} (hnone : s.handles hdl = none) (hp : Pair base fd stat)
    (hsame : hs ≠ [] → s.ep0Fd = fd ∧ s.ep0FdStat = stat)
    (hc : info.claimedInterface = -1)
    (hinfo : info.epFd = (newInfo.setEp0 fd stat).epFd ∧ info.epStatusFd = (newInfo.setEp0 fd stat).epStatusFd) :
    Sharing base (hdl :: hs) (UsbState.putInfo { s with
      files := stat :: fd :: base, ep0Fd := fd, ep0FdStat := stat, refCount := s.refCount + 1, device := dev } hdl info) := by
  have hidle : Idle { s with ep0Fd := fd, ep0FdStat := stat } info := by
    refine ⟨?_, ?_, fun i hi => ?_, hc⟩
    · rw [hinfo.1]
      rfl
    · rw [hinfo.2]
      rfl
    · rw [hinfo.1, hinfo.2]
      exact setEp0_noFd i hi
  have hnot : hdl ∉ hs := fun hin => by
    have := (h.handles hdl).mp hin
    rw [hnone] at this
    cases this
  refine ⟨List.nodup_cons.mpr ⟨hnot, h.nodup⟩, fun x => ?_, ?_, fun hnil => absurd hnil (by simp),
    fun _ => ⟨hp, rfl⟩, fun x info' hx => ?_⟩
  · by_cases hx : x = hdl
    · subst hx
      simp [UsbState.putInfo]
    · rw [putInfo_of_ne _ _ hx, List.mem_cons, or_iff_right hx]
      exact h.handles x
  · show s.refCount + 1 = _
    rw [h.refCount, List.length_cons]
    omega
  · by_cases hxh : x = hdl
    · subst hxh
      rw [putInfo_self] at hx
      obtain rfl := Option.some.inj hx
      exact ⟨hidle.fd, hidle.stat, hidle.others, hidle.unclaimed⟩
    · rw [putInfo_of_ne _ _ hxh] at hx
      have hold := h.idle x info' hx
      have hne : hs ≠ [] := List.ne_nil_of_mem ((h.handles x).mpr (by
        show (s.handles x).isSome
        rw [show s.handles x = some info' from hx]
        rfl))
      obtain ⟨hfd, hstat⟩ := hsame hne
      exact ⟨hold.fd.trans hfd, hold.stat.trans hstat, hold.others, hold.unclaimed⟩

theorem Sharing.leave (h : Sharing base hs s) (hinfo : s.handles hdl = some info)
    (hlast : hs.erase hdl = [] → t.ep0Fd.num = 0 ∧ t.files = base)
    (hmore : hs.erase hdl ≠ [] → t.ep0Fd = s.ep0Fd ∧ t.ep0FdStat = s.ep0FdStat ∧ t.files = s.files)
    (hcount : t.refCount = s.refCount - 1) (hhandles : t.handles = s.handles) :
    Sharing base (hs.erase hdl) { t with handles := Function.update t.handles hdl none } := by
  have hin : hdl ∈ hs := (h.handles hdl).mpr (by rw [hinfo]; rfl)
  have hmem (x : Nat) : x ∈ hs.erase hdl ↔ x ≠ hdl ∧ (s.handles x).isSome := by
    rw [h.nodup.mem_erase_iff, h.handles]
  have hne : hs ≠ [] := List.ne_nil_of_mem hin
  refine ⟨h.nodup.erase hdl, fun x => ?_, ?_, hlast, fun hrest => ?_, fun x info' hx => ?_⟩
  · rw [hmem, hhandles]
    by_cases hx : x = hdl
    · subst hx
      simp
    · simp [hx]
  · show t.refCount = _
    have hlen : 0 < hs.length := List.length_pos_iff.mpr hne
    rw [hcount, h.refCount, List.length_erase_of_mem hin]
    omega
  · obtain ⟨hfd, hstat, hfiles⟩ := hmore hrest
    show Pair base t.ep0Fd t.ep0FdStat ∧ t.files = _
    rw [hfd, hstat, hfiles]
    exact h.opened hne
  · simp only [hhandles] at hx
    by_cases hxh : x = hdl
    · subst hxh
      simp at hx
    · rw [Function.update_of_ne hxh] at hx
      obtain ⟨hfd, hstat, -⟩ := hmore (List.ne_nil_of_mem ((hmem x).mpr ⟨hxh, by rw [hx]; rfl⟩))
      have hold := h.idle x info' hx
      exact ⟨hold.fd.trans hfd.symm, hold.stat.trans hstat.symm, hold.others, hold.unclaimed⟩

theorem Sharing.congr (h : Sharing base hs s) (hhandles : t.handles = s.handles) (hcount : t.refCount = s.refCount)
    (hfiles : t.files = s.files) (hfd : hs ≠ [] → t.ep0Fd = s.ep0Fd ∧ t.ep0FdStat = s.ep0FdStat)
    (h0 : hs = [] → t.ep0Fd.num = 0) : Sharing base hs t := by
  refine ⟨h.nodup, fun x => by rw [hhandles]; exact h.handles x, hcount.trans h.refCount,
    fun hnil => ⟨h0 hnil, hfiles.trans (h.closed hnil).2⟩, fun hne => ?_, fun x info hx => ?_⟩
  · obtain ⟨hf, hs'⟩ := hfd hne
    rw [hf, hs', hfiles]
    exact h.opened hne
  · rw [hhandles] at hx
    have hold := h.idle x info hx
    obtain ⟨hf, hs'⟩ := hfd (List.ne_nil_of_mem ((h.handles x).mpr (by rw [hx]; rfl)))
    exact ⟨hold.fd.trans hf.symm, hold.stat.trans hs'.symm, hold.others, hold.unclaimed⟩

/-- What the control node leaves behind when the descriptors of a new handle do not parse:
nothing. -/
theorem Sharing.abandon (h : Sharing base hs s) (hp : Pair base fd stat) {dev : UsbDevice}
    (hsame : hs ≠ [] → s.ep0Fd = fd ∧ s.ep0FdStat = stat)
    (ht : t = { s with files := stat :: fd :: base, ep0Fd := fd, ep0FdStat := stat, refCount := s.refCount + 1, device := dev }) :
    Sharing base hs (usbCloseEp0 (newInfo.setEp0 fd stat) t) ∧
      (usbCloseEp0 (newInfo.setEp0 fd stat) t).refCount = s.refCount ∧
      (usbCloseEp0 (newInfo.setEp0 fd stat) t).files = s.files := by
  subst ht
  have hfd := hp.fd_pos
  have hne : fd.num ≠ 0 := by omega
  by_cases hnil : hs = []
  · have hcount : s.refCount = 0 := by rw [h.refCount, hnil]; rfl
    rw [closeEp0_last hp rfl hne (by show s.refCount + 1 = 1; omega)]
    obtain ⟨h0, hfiles⟩ := h.closed hnil
    exact ⟨h.congr rfl hcount.symm hfiles.symm (fun hne => absurd hnil hne) fun _ => rfl, hcount.symm, hfiles.symm⟩
  · have hcount : 0 < s.refCount := by
      rw [h.refCount]
      exact Int.natCast_pos.mpr (List.length_pos_iff.mpr hnil)
    obtain ⟨rfl, rfl⟩ := hsame hnil
    rw [closeEp0_shared (by exact hne) (by show 1 < s.refCount + 1; omega)]
    have hfiles := (h.opened hnil).2
    have hback : s.refCount + 1 - 1 = s.refCount := by omega
    exact ⟨h.congr rfl hback hfiles.symm (fun _ => ⟨rfl, rfl⟩) fun hn => absurd hn hnil, hback, hfiles.symm⟩

theorem Sharing.setup (h : Sharing base hs s) (hp : Pair base fd stat) (hnone : s.handles hdl = none)
    (hsame : hs ≠ [] → s.ep0Fd = fd ∧ s.ep0FdStat = stat) {env : Env} {r : Nat}
    (ht : t = { s with files := stat :: fd :: base, ep0Fd := fd, ep0FdStat := stat, refCount := s.refCount + 1 })
    (hset : (match usbSetupAllConfigs env t.device ⟨0, [], []⟩ with
      | .error _ => none
      | .ok (rval, device, _) =>
          if rval ≠ 0 then
            some (0, usbCloseEp0 (newInfo.setEp0 fd stat) { t with device := (usbFreeAllConfigs device).2 })
          else
            some (hdl, UsbState.putInfo { t with device := device } hdl
              { newInfo.setEp0 fd stat with configurationValue := -1, claimedInterface := -1, alternate := -1 })) =
      some (r, s')) :
    (r = 0 ∧ Sharing base hs s' ∧ s'.refCount = s.refCount ∧ s'.files = s.files) ∨
      (r = hdl ∧ Sharing base (hdl :: hs) s') := by
  split at hset
  · cases hset
  split at hset
  · obtain ⟨rfl, rfl⟩ := Prod.mk.inj (Option.some.inj hset)
    exact .inl ⟨rfl, h.abandon hp hsame (by rw [ht])⟩
  · obtain ⟨rfl, rfl⟩ := Prod.mk.inj (Option.some.inj hset)
    refine .inr ⟨rfl, ?_⟩
    rw [ht]
    exact h.enter hnone hp hsame rfl ⟨rfl, rfl⟩

theorem Sharing.usbOpen (h : Sharing base hs s) (hpos : Positive answers) {r : Nat} (ho : usbOpen answers s = some (r, s')) :
    (r = 0 ∧ ¬ StatusRefused answers s ∧ Sharing base hs s' ∧ s'.refCount = s.refCount ∧ s'.files = s.files) ∨
      (r = 0 ∧ StatusRefused answers s ∧ ∃ fd, s'.files = fd :: s.files) ∨
      (r ≠ 0 ∧ ¬ StatusRefused answers s ∧ s.handles r = none ∧ Sharing base (r :: hs) s') := by
  unfold Handles.usbOpen at ho
  split at ho
  · rename_i hhdl
    obtain ⟨rfl, rfl⟩ := Prod.mk.inj (Option.some.inj ho)
    refine .inl ⟨rfl, fun hr => ?_, h, rfl, rfl⟩
    have := hr.2.1
    rw [hhdl] at this
    cases this
  · rename_i hdl hhdl
    split at ho
    · cases ho
    rename_i hfree
    obtain ⟨hne, hnone⟩ : hdl ≠ 0 ∧ s.handles hdl = none := by simpa using hfree
    split at ho
    · rename_i hinfo
      obtain ⟨rfl, rfl⟩ := Prod.mk.inj (Option.some.inj ho)
      exact .inl ⟨rfl, fun hr => absurd hr.2.2.1 (by simpa using hinfo), h, rfl, rfl⟩
    rename_i hinfo
    obtain ⟨⟨rval, info, t⟩, hep0, hrest⟩ := Option.bind_eq_some_iff.mp ho
    simp only at hrest
    by_cases h0 : s.ep0Fd.num = 0
    · have hnil := h.eq_nil h0
      have hfiles := (h.closed hnil).2
      obtain ⟨hr, rfl, hno⟩ | ⟨hr, ⟨fd, rfl⟩, hm, hopened, hrefused⟩ | ⟨rfl, fd, stat, hp, rfl, ⟨n, hn⟩, rfl⟩ :=
        openEp0_first h0 hpos hep0
      · rw [if_pos hr] at hrest
        obtain ⟨rfl, rfl⟩ := Prod.mk.inj (Option.some.inj hrest)
        exact .inl ⟨rfl, fun href => hno ⟨href.2.2.2.1, href.2.2.2.2.1⟩, h, rfl, rfl⟩
      · rw [if_pos hr] at hrest
        obtain ⟨rfl, rfl⟩ := Prod.mk.inj (Option.some.inj hrest)
        exact .inr (.inl ⟨rfl, ⟨h0, by rw [hhdl]; rfl, by simpa using hinfo, hm, hopened, hrefused⟩, fd, rfl⟩)
      · have hnot : ¬ StatusRefused answers s := by
          rintro ⟨-, -, -, -, -, errno, he⟩
          exact absurd (hn.symm.trans he) nofun
        rw [if_neg (by simp)] at hrest
        obtain ⟨rfl, hs', hcount, hf⟩ | ⟨rfl, hs'⟩ :=
          h.setup (hfiles ▸ hp) hnone (fun hne => absurd hnil hne) (by rw [hfiles]) hrest
        · exact .inl ⟨rfl, hnot, hs', hcount, hf⟩
        · exact .inr (.inr ⟨hne, hnot, hnone, hs'⟩)
    · have hsnil : hs ≠ [] := fun hnil => h0 (h.closed hnil).1
      obtain ⟨hp, hfiles⟩ := h.opened hsnil
      rw [openEp0_shared h0] at hep0
      obtain ⟨rfl, rfl, rfl⟩ := Prod.mk.inj (Option.some.inj hep0) |>.imp_right Prod.mk.inj
      rw [if_neg (by simp)] at hrest
      have hnot : ¬ StatusRefused answers s := fun hr => h0 hr.1
      obtain ⟨rfl, hs', hcount, hf⟩ | ⟨rfl, hs'⟩ :=
        h.setup hp hnone (fun _ => ⟨rfl, rfl⟩) (by rw [← hfiles]) hrest
      · exact .inl ⟨rfl, hnot, hs', hcount, hf⟩
      · exact .inr (.inr ⟨hne, hnot, hnone, hs'⟩)

theorem Sharing.usbClose (h : Sharing base hs s) {r : Int} (hc : usbClose hdl s = some (r, s')) :
    s' = s ∨ Sharing base (hs.erase hdl) s' := by
  unfold Handles.usbClose at hc
  split at hc
  · obtain ⟨-, rfl⟩ := Prod.mk.inj (Option.some.inj hc)
    exact .inl rfl
  obtain ⟨info, hinfo, hrest⟩ := Option.bind_eq_some_iff.mp hc
  have hidle := h.idle hdl info hinfo
  rw [if_neg (not_not.mpr hidle.unclaimed)] at hrest
  simp only [bind, Option.bind_some, hinfo] at hrest
  rw [closeAllEps_closed hidle.others] at hrest
  obtain ⟨-, rfl⟩ := Prod.mk.inj (Option.some.inj hrest)
  have hin : hdl ∈ hs := (h.handles hdl).mpr (by rw [hinfo]; rfl)
  have hsnil := List.ne_nil_of_mem hin
  obtain ⟨hp, hfiles⟩ := h.opened hsnil
  have hlen := List.length_erase_of_mem hin
  have hpos := List.length_pos_iff.mpr hsnil
  have hep0 : (usbCloseAllEps info s).1.epFd 0 = s.ep0Fd ∧ (usbCloseAllEps info s).1.epStatusFd 0 = s.ep0FdStat := by
    simp only [usbCloseAllEps, Nat.lt_irrefl, false_and, if_false]
    exact ⟨hidle.fd, hidle.stat⟩
  right
  by_cases hlast : hs.erase hdl = []
  · have hone : s.refCount = 1 := by
      rw [hlast, List.length_nil] at hlen
      rw [h.refCount]
      omega
    rw [← hep0.1, ← hep0.2] at hp hfiles
    rw [closeEp0_last hp hfiles (h.ep0Fd_ne hsnil) hone]
    exact h.leave hinfo (fun _ => ⟨rfl, rfl⟩) (fun hne => absurd hlast hne) (by show (0 : Int) = _; omega) rfl
  · have hmany : 1 < s.refCount := by
      have := List.length_pos_iff.mpr hlast
      rw [h.refCount]
      omega
    rw [closeEp0_shared (h.ep0Fd_ne hsnil) hmany]
    exact h.leave hinfo (fun hnil => absurd hnil hlast) (fun _ => ⟨rfl, rfl, rfl⟩) rfl rfl

section Runs

/-- The calls of usb_open and usb_close, where a status node opens when its control node has
been opened. -/
def Orderly : Op → UsbState → Prop
  | .usbOpen answers, s => Positive answers ∧ ¬ StatusRefused answers s
  | .usbClose _, _ => True
  | _, _ => False

/-- A device that has just been found in a process with some files. -/
def Found (base : List Fd) (s : UsbState) : Prop := Init s ∧ s.files = base

/-- The open handles are counted, and share the one pair of descriptors that has been opened
next to the files of the process. -/
structure SharesEp0 (base : List Fd) (hs : List Nat) (s : UsbState) : Prop where
  nodup : hs.Nodup
  handles : ∀ hdl, hdl ∈ hs ↔ (s.handles hdl).isSome
  refCount : s.refCount = hs.length
  files : s.files = if hs = [] then base else s.ep0FdStat :: s.ep0Fd :: base
  used : ∀ hdl info, s.handles hdl = some info → info.epFd 0 = s.ep0Fd ∧ info.epStatusFd 0 = s.ep0FdStat

theorem reachable_sharing (h : Reachable step Orderly (Found base) s) : ∃ hs, Sharing base hs s := by
  refine Reachable.invariant h (fun s => ∃ hs, Sharing base hs s) ?_ ?_
  · rintro s ⟨hinit, hfiles⟩
    refine ⟨[], .nil, fun hdl => ?_, hinit.no_refs, fun _ => ⟨?_, hfiles⟩, fun hne => absurd rfl hne, fun hdl info hx => ?_⟩
    · rw [hinit.no_handles hdl]
      simp
    · rw [hinit.no_ep0]
    · rw [hinit.no_handles hdl] at hx
      cases hx
  · rintro o s s' ⟨hs, h⟩ hok hstep
    cases o with
    | usbOpen answers =>
        obtain ⟨r, ho⟩ := exists_of_map_snd hstep
        obtain ⟨-, -, h', -⟩ | ⟨-, hr, -⟩ | ⟨-, -, -, h'⟩ := h.usbOpen hok.1 ho
        · exact ⟨_, h'⟩
        · exact absurd hr hok.2
        · exact ⟨_, h'⟩
    | usbClose hdl =>
        obtain ⟨r, hc⟩ := exists_of_map_snd hstep
        obtain rfl | h' := h.usbClose hc
        · exact ⟨hs, h⟩
        · exact ⟨_, h'⟩
    | _ => exact hok.elim

/-- While every status node opens whose control node has been opened, the handles share one
pair of descriptors that is closed with the last of them. A call of usb_open that fails leaves
all as it was, but when the status node does not open. -/
theorem reachable_sharesEp0 (h : Reachable step Orderly (Found base) s) :
    (∃ hs, SharesEp0 base hs s) ∧
      ∀ answers s', Positive answers → usbOpen answers s = some (0, s') →
        ((s'.refCount = s.refCount ∧ s'.files = s.files) ↔ ¬ StatusRefused answers s) := by
  obtain ⟨hs, hsharing⟩ := reachable_sharing h
  refine ⟨⟨hs, hsharing.nodup, hsharing.handles, hsharing.refCount, ?_, fun hdl info hx => ?_⟩, ?_⟩
  · by_cases hnil : hs = []
    · rw [if_pos hnil]
      exact (hsharing.closed hnil).2
    · rw [if_neg hnil]
      exact (hsharing.opened hnil).2
  · exact ⟨(hsharing.idle hdl info hx).fd, (hsharing.idle hdl info hx).stat⟩
  · intro answers s' hpos ho
    obtain ⟨-, hr, -, hkept⟩ | ⟨-, hr, fd, hfiles⟩ | ⟨hne, -⟩ := hsharing.usbOpen hpos ho
    · exact ⟨fun _ => hr, fun _ => hkept⟩
    · refine ⟨fun hkept => ?_, fun hno => absurd hr hno⟩
      have hlen := congrArg List.length (hfiles.symm.trans hkept.2)
      rw [List.length_cons] at hlen
      omega
    · exact absurd rfl hne

theorem reachable_sharesEp0_one : ∃ s, s.refCount = 1 ∧ (∃ hs, SharesEp0 [] hs s) ∧
    ∀ answers s', Positive answers → usbOpen answers s = some (0, s') →
      ((s'.refCount = s.refCount ∧ s'.files = s.files) ↔ ¬ StatusRefused answers s) := by
  have hopen : (step (InterfaceClaims.sampleOpen 1 3) InterfaceClaims.sampleState).any
      (fun s => decide (s.refCount = 1)) = true := by decide +kernel
  obtain ⟨s, hstep, hs⟩ := (Option.any_eq_true _ _).mp hopen
  have hpos : Positive ⟨some 1, true, true, .opened 3, .opened 4, InterfaceClaims.sampleEnv⟩ :=
    ⟨fun n hn => by cases hn; decide, fun n hn => by cases hn; decide⟩
  have horderly : Orderly (InterfaceClaims.sampleOpen 1 3) InterfaceClaims.sampleState :=
    ⟨hpos, fun ⟨_, _, _, _, _, _, he⟩ => absurd he nofun⟩
  exact ⟨s, of_decide_eq_true hs,
    reachable_sharesEp0 (.next _ (.start ⟨InterfaceClaims.sampleState_init, rfl⟩) horderly hstep)⟩

/-- The first handle of a device whose status node does not open: the control node stays
open, and no handle is there to close it. -/
theorem controlNode_left_open : ∃ answers s', Positive answers ∧ Found [] InterfaceClaims.sampleState ∧
    usbOpen answers InterfaceClaims.sampleState = some (0, s') ∧ s'.refCount = 0 ∧ (∀ hdl, s'.handles hdl = none) ∧
    s'.files = [⟨3, ['u', '/', 'd', '/', 'c', 'n', 't', 'r', 'l', '0']⟩] := by
  refine ⟨⟨some 1, true, true, .opened 3, .failed ⟨2, by decide⟩, InterfaceClaims.sampleEnv⟩, _,
    ⟨fun n hn => by cases hn; decide, nofun⟩, ⟨InterfaceClaims.sampleState_init, rfl⟩, rfl, rfl, fun _ => rfl, ?_⟩
  decide +kernel

end Runs

end OiUserland.Libusb.SharedEp0
