import OiUserland.Libusb.Handles

namespace OiUserland.Libusb.HandleSteps

open Lib.Faults Configs Handles

variable {s s' t : UsbState} {hdl : Nat} {info : UsbDevHandleInfo}

theorem exists_of_map_snd {α β : Type} {x : Option (α × β)} {b : β} (h : x.map Prod.snd = some b) :
    ∃ a, x = some (a, b) := by
  obtain ⟨⟨a, _⟩, hx, rfl⟩ := Option.map_eq_some_iff.mp h
  exact ⟨a, hx⟩

@[simp] theorem putInfo_self (s : UsbState) (hdl : Nat) (info : UsbDevHandleInfo) :
    (s.putInfo hdl info).handles hdl = some info := Function.update_self ..

@[simp] theorem putInfo_of_ne {h : Nat} (s : UsbState) (info : UsbDevHandleInfo) (hne : h ≠ hdl) :
    (s.putInfo hdl info).handles h = s.handles h := Function.update_of_ne hne ..

theorem putInfo_putInfo (s : UsbState) (hdl : Nat) (info info' : UsbDevHandleInfo) :
    (s.putInfo hdl info).putInfo hdl info' = s.putInfo hdl info' := by
  simp only [UsbState.putInfo, Function.update_idem]

structure Same (s t : UsbState) : Prop where
  relaxed : t.relaxed = s.relaxed
  dirname : t.dirname = s.dirname
  filename : t.filename = s.filename
  device : t.device = s.device
  claimedInterfaces : t.claimedInterfaces = s.claimedInterfaces
  handles : t.handles = s.handles

theorem Same.refl (s : UsbState) : Same s s := ⟨rfl, rfl, rfl, rfl, rfl, rfl⟩

theorem Same.trans (h : Same s t) (h' : Same t s') : Same s s' :=
  ⟨h'.relaxed.trans h.relaxed, h'.dirname.trans h.dirname, h'.filename.trans h.filename, h'.device.trans h.device,
    h'.claimedInterfaces.trans h.claimedInterfaces, h'.handles.trans h.handles⟩

theorem same_closeIfOpen (fd : Fd) (s : UsbState) : Same s (closeIfOpen fd s) := by
  by_cases h : fd.num ≠ -1
  · rw [closeIfOpen, if_pos h]
    exact ⟨rfl, rfl, rfl, rfl, rfl, rfl⟩
  · rw [closeIfOpen, if_neg h]
    exact Same.refl s

theorem same_closeAllEps (info : UsbDevHandleInfo) (s : UsbState) : Same s (usbCloseAllEps info s).2 := by
  show Same s ((List.range usbMaxendpoints).tail.foldl
    (fun s i => closeIfOpen (info.epStatusFd i) (closeIfOpen (info.epFd i) s)) s)
  generalize (List.range usbMaxendpoints).tail = is
  induction is generalizing s with
  | nil => exact Same.refl s
  | cons i is ih => exact ((same_closeIfOpen _ s).trans (same_closeIfOpen _ _)).trans (ih _)

theorem same_openNode {node : List Char} {answer : OpenAnswer} {x : Fd ⊕ Errno}
    (h : openNode node answer s = some (x, s')) : Same s s' := by
  cases answer with
  | failed errno =>
      obtain ⟨-, rfl⟩ := Prod.mk.inj (Option.some.inj h)
      exact Same.refl s
  | opened num =>
      simp only [openNode] at h
      split at h
      · cases h
      · obtain ⟨-, rfl⟩ := Prod.mk.inj (Option.some.inj h)
        exact ⟨rfl, rfl, rfl, rfl, rfl, rfl⟩

theorem same_closeEp0 (info : UsbDevHandleInfo) (s : UsbState) : Same s (usbCloseEp0 info s) := by
  simp only [usbCloseEp0]
  generalize (if s.ep0Fd.num ≠ 0 then s.refCount - 1 else s.refCount) = count
  by_cases h : s.ep0Fd.num ≠ 0 ∧ 0 < count
  · rw [if_pos h]
    exact ⟨rfl, rfl, rfl, rfl, rfl, rfl⟩
  · rw [if_neg h]
    exact ((same_closeIfOpen _ s).trans (same_closeIfOpen _ _)).trans ⟨rfl, rfl, rfl, rfl, rfl, rfl⟩

theorem same_openEp0 {answers : OpenAnswers} {info' : UsbDevHandleInfo} {r : Int}
    (h : usbOpenEp0 answers info s = some (r, info', s')) :
    Same s s' ∧ ∀ i, i ≠ 0 → info'.epFd i = info.epFd i := by
  have hkeep (fd stat : Fd) (i : Nat) (hi : i ≠ 0) : (info.setEp0 fd stat).epFd i = info.epFd i :=
    Function.update_of_ne hi _ _
  simp only [usbOpenEp0] at h
  split at h
  · cases h
    exact ⟨⟨rfl, rfl, rfl, rfl, rfl, rfl⟩, hkeep _ _⟩
  split at h
  · cases h
    exact ⟨Same.refl s, fun i _ => rfl⟩
  obtain ⟨⟨x, t⟩, ht, h⟩ := Option.bind_eq_some_iff.mp h
  cases x with
  | inr errno =>
      cases h
      exact ⟨same_openNode ht, fun i _ => rfl⟩
  | inl fd =>
      obtain ⟨⟨y, u⟩, hu, h⟩ := Option.bind_eq_some_iff.mp h
      have hsame : Same s u := (same_openNode ht).trans (same_openNode hu)
      cases y with
      | inr errno =>
          cases h
          exact ⟨hsame, hkeep _ _⟩
      | inl stat =>
          cases h
          exact ⟨hsame.trans ⟨rfl, rfl, rfl, rfl, rfl, rfl⟩, hkeep _ _⟩

section Setup

variable {env : Env} {dev dev' : UsbDevice} {h h' : Heap}

theorem setup_kept (hdev : dev.config.isSome) : usbSetupAllConfigs env dev h = .ok (0, dev, h) := by
  rw [usbSetupAllConfigs, if_pos hdev]
  rfl

theorem setup_isSome (hs : usbSetupAllConfigs env dev h = .ok (0, dev', h')) : dev'.config.isSome := by
  have hconfigs (dev : UsbDevice) (hs : parseConfigs env dev h = .ok (0, dev', h')) : dev'.config.isSome := by
    simp only [parseConfigs] at hs
    split at hs
    · cases hs
    · obtain ⟨⟨rval, configs, h''⟩, -, hs⟩ := bind_eq_ok.mp hs
      cases hs
      rfl
  rw [usbSetupAllConfigs] at hs
  split at hs
  case isTrue hsome =>
    cases hs
    exact hsome
  split at hs
  · cases hs
  obtain ⟨parsed, -, hs⟩ := bind_eq_ok.mp hs
  cases parsed with
  | none => cases hs
  | some p =>
      simp only at hs
      split at hs
      · cases hs
      · exact hconfigs _ hs

end Setup

section Cases

def closed (info : UsbDevHandleInfo) : UsbDevHandleInfo :=
  { info with
    epFd := fun i => if 0 < i ∧ i < usbMaxendpoints then noFd else info.epFd i
    epStatusFd := fun i => if 0 < i ∧ i < usbMaxendpoints then noFd else info.epStatusFd i }

def unclaimed (info : UsbDevHandleInfo) : UsbDevHandleInfo := { info with claimedInterface := -1 }

def released (s : UsbState) (hdl : Nat) (info : UsbDevHandleInfo) : UsbState :=
  UsbState.putInfo
    { s with claimedInterfaces := Function.update s.claimedInterfaces info.claimedInterface.toNat 0 } hdl
    (unclaimed info)

theorem closeAllEps_cases (info : UsbDevHandleInfo) (s : UsbState) :
    ∃ t, Same s t ∧ usbCloseAllEps info s = (closed info, t) := ⟨_, same_closeAllEps info s, rfl⟩

def chosen (s : UsbState) (info : UsbDevHandleInfo) : Nat :=
  if info.configurationValue = -1 then 0 else findConfig s info.configurationValue

def settled (s : UsbState) (info : UsbDevHandleInfo) (config : UsbConfigDescriptor) : UsbDevHandleInfo :=
  { info with configurationValue := config.descr.bConfigurationValue, configurationIndex := chosen s info }

def declared (alt : UsbInterfaceDescriptor) : List UsbEndpointDescriptor :=
  (alt.endpoint.elim [] Block.cells).take alt.descr.bNumEndpoints

def onAlternate (info : UsbDevHandleInfo) (interface : Nat) (alternate : Int) (alt : UsbInterfaceDescriptor) :
    UsbDevHandleInfo :=
  { info with
    claimedInterface := interface, alternate := alternate
    epInterface := setEpIfaces interface (declared alt) fun _ => -1 }

def claimed (s : UsbState) (hdl : Nat) (info : UsbDevHandleInfo) (interface : Nat) (alt : UsbInterfaceDescriptor) :
    UsbState :=
  UsbState.putInfo { s with claimedInterfaces := Function.update s.claimedInterfaces interface hdl } hdl
    (onAlternate info interface 0 alt)

def configured (s : UsbState) (info : UsbDevHandleInfo) (configuration : Int) : UsbDevHandleInfo :=
  { closed info with
    configurationValue := configuration, configurationIndex := findConfig s configuration
    epInterface := fun _ => -1 }

def opened (info : UsbDevHandleInfo) (index : Nat) (fd stat : Fd) : UsbDevHandleInfo :=
  { info with
    epFd := Function.update info.epFd index fd, epStatusFd := Function.update info.epStatusFd index stat }

variable {r interface alternate configuration : Int}

theorem release_cases (h : usbReleaseInterface hdl interface s = some (r, s')) :
    s' = s ∨ ∃ info, hdl ≠ 0 ∧ s.handles hdl = some info ∧ info.claimedInterface ≠ -1 ∧ s' = released s hdl info := by
  simp only [usbReleaseInterface] at h
  split at h
  · exact .inl (by cases h; rfl)
  next hne =>
    obtain ⟨info, hinfo, h⟩ := Option.bind_eq_some_iff.mp h
    split at h
    · exact .inl (by cases h; rfl)
    next hclaimed =>
      obtain ⟨h1, h2⟩ := not_or.mp hclaimed
      obtain rfl : info.claimedInterface = interface := not_not.mp h2
      exact .inr ⟨info, hne, hinfo, h1, (Prod.mk.inj (Option.some.inj h)).2.symm⟩

theorem release_eq (hne : hdl ≠ 0) (hinfo : s.handles hdl = some info) (hc : info.claimedInterface ≠ -1) :
    usbReleaseInterface hdl info.claimedInterface s = some (0, released s hdl info) := by
  rw [usbReleaseInterface, if_neg hne, hinfo]
  exact if_neg (not_or.mpr ⟨hc, not_not.mpr rfl⟩)

theorem setEpIfaceAlts_cases {info' : UsbDevHandleInfo} {index interface alternate : Nat}
    (h : usbSetEpIfaceAlts s info index interface alternate = some info') :
    ∃ alt, altsetting s index interface alternate = some alt ∧
      info' = { info with epInterface := setEpIfaces interface (declared alt) fun _ => -1 } := by
  obtain ⟨alt, halt, h⟩ := Option.bind_eq_some_iff.mp h
  simp only at h
  split at h
  · cases h
  · exact ⟨alt, halt, (Option.some.inj h).symm⟩

theorem claim_cases (h : usbClaimInterface hdl interface s = some (r, s')) :
    s' = s ∨ ∃ info config, hdl ≠ 0 ∧ s.handles hdl = some info ∧ s.configs[chosen s info]? = some config ∧
      (s' = s.putInfo hdl (settled s info config) ∨
        (r = 0 ∧ info.claimedInterface = -1 ∧ ∃ i alt, interface = (i : Nat) ∧ s.claimedInterfaces i = 0 ∧
          altsetting s (chosen s info) i 0 = some alt ∧ s' = claimed s hdl (settled s info config) i alt)) := by
  simp only [usbClaimInterface] at h
  split at h
  · exact .inl (by cases h; rfl)
  next hne =>
    obtain ⟨info, hinfo, h⟩ := Option.bind_eq_some_iff.mp h
    rw [show (if info.configurationValue = -1 then 0 else findConfig s info.configurationValue) = chosen s info from rfl] at h
    obtain ⟨config, hconfig, h⟩ := Option.bind_eq_some_iff.mp h
    refine .inr ⟨info, config, hne, hinfo, hconfig, ?_⟩
    split at h
    · exact .inl (Prod.mk.inj (Option.some.inj h)).2.symm
    next hvalid =>
      split at h
      · exact .inl (Prod.mk.inj (Option.some.inj h)).2.symm
      split at h
      · exact .inl (Prod.mk.inj (Option.some.inj h)).2.symm
      next hfree =>
        split at h
        · exact .inl (Prod.mk.inj (Option.some.inj h)).2.symm
        next htable =>
          obtain ⟨info', hset, h⟩ := Option.bind_eq_some_iff.mp h
          obtain ⟨alt, halt, rfl⟩ := setEpIfaceAlts_cases hset
          obtain ⟨rfl, rfl⟩ := Prod.mk.inj (Option.some.inj h)
          obtain ⟨i, rfl⟩ := Int.eq_ofNat_of_zero_le (Int.not_lt.mp (not_or.mp hvalid).1)
          refine .inr ⟨rfl, not_not.mp hfree, i, alt, rfl, not_not.mp htable, halt, ?_⟩
          exact putInfo_putInfo { s with claimedInterfaces := Function.update s.claimedInterfaces i hdl } hdl
            (settled s info config) _

theorem setConfiguration_cases (h : usbSetConfiguration hdl configuration s = some (r, s')) :
    s' = s ∨ ∃ info t, hdl ≠ 0 ∧ s.handles hdl = some info ∧ Same s t ∧
      findConfig s configuration < s.device.descriptor.bNumConfigurations ∧
      ((info.claimedInterface = -1 ∧ s' = t.putInfo hdl (configured s info configuration)) ∨
        (info.claimedInterface ≠ -1 ∧
          s' = released (t.putInfo hdl (configured s info configuration)) hdl (configured s info configuration))) := by
  simp only [usbSetConfiguration] at h
  split at h
  · exact .inl (by cases h; rfl)
  next hne =>
    obtain ⟨info, hinfo, h⟩ := Option.bind_eq_some_iff.mp h
    obtain ⟨t, hsame, hclose⟩ := closeAllEps_cases info s
    simp only [hclose] at h
    split at h
    · exact .inl (Prod.mk.inj (Option.some.inj h)).2.symm
    next hindex =>
      refine .inr ⟨info, t, hne, hinfo, hsame, Nat.not_le.mp hindex, ?_⟩
      by_cases hc : (closed info).claimedInterface = -1
      · rw [if_neg (not_not.mpr hc)] at h
        exact .inl ⟨hc, (Prod.mk.inj (Option.some.inj h)).2.symm⟩
      · rw [if_pos hc] at h
        obtain ⟨p, hown, h⟩ := Option.bind_eq_some_iff.mp h
        have hput := putInfo_self t hdl (configured s info configuration)
        obtain rfl := Option.some.inj ((release_eq hne hput hc).symm.trans hown)
        exact .inr ⟨hc, (Prod.mk.inj (Option.some.inj h)).2.symm⟩

theorem Same.findConfig (h : Same s t) (value : Int) : findConfig t value = findConfig s value := by
  simp only [Handles.findConfig, UsbState.configs, h.device]

theorem Same.altsetting (h : Same s t) (index i a : Nat) : altsetting t index i a = altsetting s index i a := by
  simp only [Handles.altsetting, UsbState.configs, h.device]

theorem setAlternate_cases (h : setAlternate hdl alternate s = some (r, s')) :
    (s' = s ∧ ∀ info, s.handles hdl = some info → info.claimedInterface = -1 ∨ info.configurationValue = -1 ∨
      hdl ≠ s.claimedInterfaces info.claimedInterface.toNat) ∨
    ∃ info t, s.handles hdl = some info ∧ Same s t ∧ info.configurationValue ≠ -1 ∧ info.claimedInterface ≠ -1 ∧
      (s' = t.putInfo hdl (closed info) ∨
        ∃ alt, 0 ≤ alternate ∧
          altsetting s (findConfig s info.configurationValue) info.claimedInterface.toNat alternate.toNat = some alt ∧
          s' = t.putInfo hdl { closed info with
            alternate := alternate
            epInterface := setEpIfaces info.claimedInterface.toNat (declared alt) fun _ => -1 }) := by
  obtain ⟨info, hinfo, h⟩ := Option.bind_eq_some_iff.mp h
  obtain ⟨t, hsame, hclose⟩ := closeAllEps_cases info s
  rw [hclose] at h
  simp only at h
  split at h
  next hnone =>
    exact .inl ⟨(Prod.mk.inj (Option.some.inj h)).2.symm, fun info' hinfo' =>
      Option.some.inj (hinfo.symm.trans hinfo') ▸ hnone⟩
  next hclaim =>
    obtain ⟨hclaimed, hvalue⟩ := not_or.mp hclaim
    refine .inr ⟨info, t, hinfo, hsame, (not_or.mp hvalue).1, hclaimed, ?_⟩
    obtain ⟨config, -, h⟩ := Option.bind_eq_some_iff.mp h
    obtain ⟨iface, -, h⟩ := Option.bind_eq_some_iff.mp h
    obtain ⟨settings, -, h⟩ := Option.bind_eq_some_iff.mp h
    split at h
    · exact .inl (Prod.mk.inj (Option.some.inj h)).2.symm
    next hvalid =>
      obtain ⟨info', hset, h⟩ := Option.bind_eq_some_iff.mp h
      obtain ⟨alt, halt, rfl⟩ := setEpIfaceAlts_cases hset
      refine .inr ⟨alt, Int.not_lt.mp (not_or.mp hvalid).1, ?_, ?_⟩
      · rw [← hsame.findConfig, ← hsame.altsetting]
        exact halt
      · rw [← (Prod.mk.inj (Option.some.inj h)).2, putInfo_putInfo]

theorem setAltinterface_cases (h : usbSetAltinterface hdl alternate s = some (r, s')) :
    s' = s ∨ usbClaimInterface hdl 0 s = some (r, s') ∧ r ≠ 0 ∨ setAlternate hdl alternate s = some (r, s') ∨
      ∃ t, usbClaimInterface hdl 0 s = some (0, t) ∧ setAlternate hdl alternate t = some (r, s') := by
  simp only [usbSetAltinterface] at h
  split at h
  · exact .inl (by cases h; rfl)
  next hne =>
    obtain ⟨info, hinfo, h⟩ := Option.bind_eq_some_iff.mp h
    split at h
    · obtain ⟨⟨err, t⟩, hclaim, h⟩ := Option.bind_eq_some_iff.mp h
      simp only at h
      by_cases herr : err = 0
      · subst herr
        exact .inr (.inr (.inr ⟨t, hclaim, h⟩))
      · rw [if_pos herr] at h
        cases h
        exact .inr (.inl ⟨hclaim, herr⟩)
    · exact .inr (.inr (.inl h))

theorem close_cases (h : usbClose hdl s = some (r, s')) :
    s' = s ∨ ∃ info t u, hdl ≠ 0 ∧ s.handles hdl = some info ∧
      ((info.claimedInterface = -1 ∧ t = s) ∨ (info.claimedInterface ≠ -1 ∧ t = released s hdl info)) ∧ Same t u ∧
      s' = { u with handles := Function.update u.handles hdl none } := by
  simp only [usbClose] at h
  split at h
  · exact .inl (by cases h; rfl)
  next hne =>
    obtain ⟨info, hinfo, h⟩ := Option.bind_eq_some_iff.mp h
    -- the part behind the release
    have hrest {t : UsbState} (h : ((t.handles hdl).bind fun info =>
        some ((0 : Int), { usbCloseEp0 (usbCloseAllEps info t).1 (usbCloseAllEps info t).2 with
          handles := Function.update (usbCloseEp0 (usbCloseAllEps info t).1 (usbCloseAllEps info t).2).handles hdl
            none })) = some (r, s')) :
        ∃ u, Same t u ∧ s' = { u with handles := Function.update u.handles hdl none } := by
      obtain ⟨info, -, h⟩ := Option.bind_eq_some_iff.mp h
      exact ⟨_, (same_closeAllEps info t).trans (same_closeEp0 _ _), (Prod.mk.inj (Option.some.inj h)).2.symm⟩
    by_cases hc : info.claimedInterface = -1
    · rw [if_neg (not_not.mpr hc)] at h
      obtain ⟨u, hu, hs'⟩ := hrest h
      exact .inr ⟨info, s, u, hne, hinfo, .inl ⟨hc, rfl⟩, hu, hs'⟩
    · rw [if_pos hc, release_eq hne hinfo hc] at h
      obtain ⟨u, hu, hs'⟩ := hrest h
      exact .inr ⟨info, _, u, hne, hinfo, .inr ⟨hc, rfl⟩, hu, hs'⟩

theorem open_cases {answers : OpenAnswers} {r : Nat} (h : usbOpen answers s = some (r, s')) :
    (∃ t dev, Same s t ∧ (s.device.config.isSome → dev = s.device) ∧ s' = { t with device := dev }) ∨
      ∃ hdl info t dev, hdl ≠ 0 ∧ s.handles hdl = none ∧ Same s t ∧ (s.device.config.isSome → dev = s.device) ∧
        dev.config.isSome ∧ info.configurationValue = -1 ∧ info.claimedInterface = -1 ∧
        (∀ i, i ≠ 0 → info.epFd i = noFd) ∧ s' = UsbState.putInfo { t with device := dev } hdl info := by
  rw [usbOpen] at h
  split at h
  · cases h
    exact .inl ⟨s, s.device, Same.refl s, fun _ => rfl, rfl⟩
  next hdl _ =>
    split at h
    · cases h
    next hfresh =>
      obtain ⟨hne, hnone⟩ := not_or.mp hfresh
      split at h
      · cases h
        exact .inl ⟨s, s.device, Same.refl s, fun _ => rfl, rfl⟩
      obtain ⟨⟨rval, info, t⟩, hep0, h⟩ := Option.bind_eq_some_iff.mp h
      obtain ⟨hsame, hfds⟩ := same_openEp0 hep0
      simp only at h
      split at h
      · cases h
        exact .inl ⟨s', s.device, hsame, fun _ => rfl, by rw [← hsame.device]⟩
      split at h
      · cases h
      next rval device heap hsetup =>
        have hkept (hsome : s.device.config.isSome) : rval = 0 ∧ device = s.device := by
          rw [hsame.device, setup_kept hsome] at hsetup
          obtain ⟨rfl, hdev⟩ := Prod.mk.inj (Except.ok.inj hsetup)
          exact ⟨rfl, (Prod.mk.inj hdev).1.symm⟩
        split at h
        next hrval =>
          cases h
          have hclose := same_closeEp0 info { t with device := (usbFreeAllConfigs device).2 }
          refine .inl ⟨{ usbCloseEp0 info { t with device := (usbFreeAllConfigs device).2 } with device := t.device }, _,
            hsame.trans ⟨hclose.relaxed, hclose.dirname, hclose.filename, rfl, hclose.claimedInterfaces,
              hclose.handles⟩, fun hsome => absurd (hkept hsome).1 hrval, rfl⟩
        next hrval =>
          cases h
          refine .inr ⟨_, _, t, device, hne, Option.not_isSome_iff_eq_none.mp hnone, hsame,
            fun hsome => (hkept hsome).2, setup_isSome (not_not.mp hrval ▸ hsetup), rfl, rfl, fun i hi => ?_, rfl⟩
          exact hfds i hi

def nodePath (s : UsbState) (info : UsbDevHandleInfo) (index : Nat) : List Char :=
  devicePath s (epName info (info.epInterface index) index)

theorem openNode_opened {node : List Char} {answer : OpenAnswer} {fd : Fd}
    (h : openNode node answer s = some (.inl fd, s')) : fd.node = node := by
  cases answer with
  | failed errno => cases h
  | opened num =>
      simp only [openNode] at h
      split at h
      · cases h
      · cases h
        rfl

theorem openStatus_cases {interrupt : Bool} {node : List Char} {answers : CheckAnswers} {x : Fd ⊕ Nat}
    (h : openStatus interrupt node answers s = some (x, s')) :
    Same s s' ∧ (∀ fd, x = .inl fd → fd.node = node) ∧ (x = .inr 0 → answers.control = .other 0) := by
  have hfailed (errno : Errno) : (.inr errno.val : Fd ⊕ Nat) = .inr 0 → answers.control = .other 0 := by
    intro h0
    have := errno.property
    have := Sum.inr.inj h0
    omega
  have hplain {t u : UsbState} (hst : Same s t) {y : Fd ⊕ Errno}
      (hu : openNode node answers.statRdonly t = some (y, u)) :
      Same s u ∧ (∀ fd, y.map id Subtype.val = .inl fd → fd.node = node) ∧
        (y.map id Subtype.val = .inr 0 → answers.control = .other 0) := by
    cases y with
    | inr errno => exact ⟨hst.trans (same_openNode hu), (fun _ h => by cases h), hfailed errno⟩
    | inl fd => exact ⟨hst.trans (same_openNode hu), fun _ hfd => Sum.inl.inj hfd ▸ openNode_opened hu, fun h => by cases h⟩
  cases interrupt with
  | false =>
      obtain ⟨⟨y, u⟩, hu, h⟩ := Option.bind_eq_some_iff.mp h
      cases y <;> cases h <;> exact hplain (Same.refl s) hu
  | true =>
      obtain ⟨⟨y, t⟩, ht, h⟩ := Option.bind_eq_some_iff.mp h
      cases y with
      | inr errno =>
          obtain ⟨⟨y, u⟩, hu, h⟩ := Option.bind_eq_some_iff.mp h
          cases y <;> cases h <;> exact hplain (same_openNode ht) hu
      | inl fd =>
          simp only at h
          split at h
          · cases h
            exact ⟨same_openNode ht, fun _ hfd => Sum.inl.inj hfd ▸ openNode_opened ht, fun h => by cases h⟩
          next errno hcontrol =>
            cases h
            refine ⟨(same_openNode ht).trans ⟨rfl, rfl, rfl, rfl, rfl, rfl⟩, (fun _ h => by cases h), fun h0 => ?_⟩
            rw [hcontrol, Sum.inr.inj h0]

theorem openEndpoint_cases {index : Nat} {interrupt : Bool} {answers : CheckAnswers}
    (h : openEndpoint hdl info index interrupt answers s = some (r, s')) :
    (Same s s' ∧ (r = 0 → answers.control = .other 0)) ∨
      ∃ t fd stat, Same s t ∧ fd.node = nodePath s info index ∧ stat.node = statName (nodePath s info index) ∧
        s' = t.putInfo hdl (opened info index fd stat) := by
  obtain ⟨⟨x, t⟩, hstatus, h⟩ := Option.bind_eq_some_iff.mp h
  obtain ⟨hsame, hnode, hzero⟩ := openStatus_cases hstatus
  cases x with
  | inr errno =>
      cases h
      exact .inl ⟨hsame, fun h0 => hzero (by rw [Int.ofNat_eq_zero.mp h0])⟩
  | inl stat =>
      obtain ⟨⟨y, u⟩, hu, h⟩ := Option.bind_eq_some_iff.mp h
      cases y with
      | inr errno =>
          cases h
          refine .inl ⟨(hsame.trans (same_openNode hu)).trans ⟨rfl, rfl, rfl, rfl, rfl, rfl⟩, fun h0 => ?_⟩
          have := errno.property
          omega
      | inl fd =>
          cases h
          exact .inr ⟨u, fd, stat, hsame.trans (same_openNode hu), openNode_opened hu, hnode stat rfl, rfl⟩

theorem check_cases {ep : Int} {epType : Nat} {answers : CheckAnswers}
    (h : usbCheckDeviceAndStatusOpen hdl ep epType answers s = some (r, s')) :
    ∃ info, s.handles hdl = some info ∧
      ((Same s s' ∧ (r = 0 → info.claimedInterface ≠ -1 ∧
          info.claimedInterface = info.epInterface (usbEpIndex (ep % 256).toNat) ∧
          ((0 < (info.epFd (usbEpIndex (ep % 256).toNat)).num ∧
            0 < (info.epStatusFd (usbEpIndex (ep % 256).toNat)).num) ∨ ep = 0 ∨ answers.control = .other 0))) ∨
        (info.claimedInterface ≠ -1 ∧ info.claimedInterface = info.epInterface (usbEpIndex (ep % 256).toNat) ∧
          ∃ t fd stat, Same s t ∧ fd.node = nodePath s info (usbEpIndex (ep % 256).toNat) ∧
          stat.node = statName (nodePath s info (usbEpIndex (ep % 256).toNat)) ∧
          s' = t.putInfo hdl (opened info (usbEpIndex (ep % 256).toNat) fd stat))) := by
  obtain ⟨info, hinfo, h⟩ := Option.bind_eq_some_iff.mp h
  refine ⟨info, hinfo, ?_⟩
  simp only at h
  generalize usbEpIndex (ep % 256).toNat = index at h ⊢
  split at h
  next hacc =>
    cases h
    exact .inl ⟨Same.refl s, fun h0 => absurd h0 hacc⟩
  next hacc =>
    have hclaimed : info.claimedInterface ≠ -1 := by
      intro hc
      refine hacc ?_
      rw [usbCheckAccess, if_pos (.inr (.inl hc))]
      decide
    split at h
    · cases h
      exact .inl ⟨Same.refl s, fun h0 => absurd h0 (by decide)⟩
    next hiface =>
      have hiface := not_not.mp hiface
      split at h
      next hcached =>
        cases h
        exact .inl ⟨Same.refl s, fun _ => ⟨hclaimed, hiface, .inl hcached⟩⟩
      split at h
      next hep =>
        cases h
        exact .inl ⟨Same.refl s, fun _ => ⟨hclaimed, hiface, .inr (.inl hep)⟩⟩
      split at h
      · cases h
        exact .inl ⟨Same.refl s, fun h0 => absurd h0 (by decide)⟩
      rcases openEndpoint_cases h with ⟨hsame, hzero⟩ | ⟨t, fd, stat, hopened⟩
      · exact .inl ⟨hsame, fun h0 => ⟨hclaimed, hiface, .inr (.inr (hzero h0))⟩⟩
      · exact .inr ⟨hclaimed, hiface, t, fd, stat, hopened⟩

end Cases

end OiUserland.Libusb.HandleSteps
