import OiUserland.Libusb.InterfaceClaims

open OiUserland.Libusb
open Configs Handles HandleSteps InterfaceClaims

namespace OiUserland.Libusb.Nodes

variable {s s' t : UsbState} {hdl : Nat} {info : UsbDevHandleInfo}

def endpointNode (s : UsbState) (value interface alternate : Int) (index : Nat) : List Char :=
  devicePath s ((if 0 < findConfig s value then numbered "cfg".toList value else []) ++
    numbered "if".toList interface ++ (if 0 < alternate then numbered ".".toList alternate else []) ++
    (if 16 ≤ index then "in".toList else "out".toList) ++ Lib.CStrings.decimal (index % 16))

def currentNode (s : UsbState) (info : UsbDevHandleInfo) (index : Nat) : List Char :=
  endpointNode s info.configurationValue info.claimedInterface info.alternate index

/-- Both descriptors of an endpoint were opened on `node`. -/
def OpenedOn (info : UsbDevHandleInfo) (index : Nat) (node : List Char) : Prop :=
  (info.epFd index).node = node ∧ (info.epStatusFd index).node = statName node

instance (info : UsbDevHandleInfo) (index : Nat) (node : List Char) : Decidable (OpenedOn info index node) :=
  inferInstanceAs (Decidable (_ ∧ _))

def Cached (info : UsbDevHandleInfo) (index : Nat) : Prop :=
  0 < (info.epFd index).num ∧ 0 < (info.epStatusFd index).num

structure Knows (s : UsbState) (info : UsbDevHandleInfo) : Prop where
  parsed : s.device.config.isSome
  index : info.configurationValue ≠ -1 → info.configurationIndex = findConfig s info.configurationValue
  value : info.configurationValue ≠ -1 → ∀ config, s.configs[info.configurationIndex]? = some config →
    (config.descr.bConfigurationValue : Int) = info.configurationValue
  claim : info.claimedInterface ≠ -1 → info.configurationValue ≠ -1

def Current (s : UsbState) (info : UsbDevHandleInfo) : Prop :=
  info.claimedInterface ≠ -1 → ∀ i, 0 < i → i < usbMaxendpoints → info.epInterface i = info.claimedInterface →
    Cached info i → OpenedOn info i (currentNode s info i)

structure Alike (s t : UsbState) : Prop where
  dirname : t.dirname = s.dirname
  filename : t.filename = s.filename
  device : t.device = s.device

theorem Alike.trans (h : Alike s t) (h' : Alike t s') : Alike s s' :=
  ⟨h'.dirname.trans h.dirname, h'.filename.trans h.filename, h'.device.trans h.device⟩

theorem alike_same (h : Same s t) : Alike s t := ⟨h.dirname, h.filename, h.device⟩

theorem alike_put (h : Alike s t) (hdl : Nat) (info : UsbDevHandleInfo) : Alike s (t.putInfo hdl info) :=
  ⟨h.dirname, h.filename, h.device⟩

theorem Alike.findConfig (h : Alike s t) (value : Int) : findConfig t value = findConfig s value := by
  simp only [Handles.findConfig, UsbState.configs, h.device]

theorem Alike.endpointNode (h : Alike s t) (value interface alternate : Int) (index : Nat) :
    endpointNode t value interface alternate index = endpointNode s value interface alternate index := by
  rw [Nodes.endpointNode, Nodes.endpointNode, devicePath, devicePath, h.findConfig, h.dirname, h.filename]

theorem Knows.alike (hk : Knows s info) (h : Alike s t) : Knows t info := by
  have hconfigs : t.configs = s.configs := by rw [UsbState.configs, UsbState.configs, h.device]
  refine ⟨h.device ▸ hk.parsed, fun hv => ?_, fun hv config hc => ?_, hk.claim⟩
  · rw [h.findConfig]
    exact hk.index hv
  · rw [hconfigs] at hc
    exact hk.value hv config hc

theorem Current.alike (hc : Current s info) (h : Alike s t) : Current t info := by
  intro hclaim i h0 hi hiface hcached
  have hnode := hc hclaim i h0 hi hiface hcached
  rw [currentNode] at hnode ⊢
  rw [h.endpointNode]
  exact hnode

theorem findConfig_found {value : Int} {config : UsbConfigDescriptor}
    (h : findConfig s value < s.device.descriptor.bNumConfigurations)
    (hc : s.configs[findConfig s value]? = some config) : (config.descr.bConfigurationValue : Int) = value := by
  obtain ⟨hlt, rfl⟩ := List.getElem?_eq_some_iff.mp hc
  have hlen : findConfig s value < (s.configs.take s.device.descriptor.bNumConfigurations).length := by
    rw [List.length_take]
    omega
  have hfound : value = ((s.configs.take s.device.descriptor.bNumConfigurations)[findConfig s value]).descr.bConfigurationValue :=
    of_decide_eq_true (List.findIdx_getElem (w := hlen))
  have htake : (s.configs.take s.device.descriptor.bNumConfigurations)[findConfig s value] =
      s.configs[findConfig s value] := List.getElem_take
  rw [← htake]
  exact hfound.symm

theorem findConfig_first {config : UsbConfigDescriptor} (hc : s.configs[0]? = some config) :
    findConfig s config.descr.bConfigurationValue = 0 := by
  cases hn : s.device.descriptor.bNumConfigurations with
  | zero => simp [findConfig, hn]
  | succ n =>
      cases hcs : s.configs with
      | nil => simp [hcs] at hc
      | cons c cs =>
          obtain rfl : c = config := by simpa [hcs] using hc
          simp [findConfig, hn, hcs, List.findIdx_cons]

theorem settled_eq {config : UsbConfigDescriptor} (hk : Knows s info) (hv : info.configurationValue ≠ -1)
    (hc : s.configs[chosen s info]? = some config) : settled s info config = info := by
  have hindex : chosen s info = info.configurationIndex := by
    rw [chosen, if_neg hv, hk.index hv]
  have hvalue := hk.value hv config (hindex ▸ hc)
  rw [settled, hindex, hvalue]

theorem Knows.settled {config : UsbConfigDescriptor} (hk : Knows s info)
    (hc : s.configs[chosen s info]? = some config) : Knows s (settled s info config) := by
  by_cases hv : info.configurationValue = -1
  · have hchosen : chosen s info = 0 := if_pos hv
    refine ⟨hk.parsed, fun _ => ?_, fun _ config' hc' => ?_, fun _ => ?_⟩
    · show chosen s info = findConfig s config.descr.bConfigurationValue
      rw [hchosen] at hc ⊢
      exact (findConfig_first hc).symm
    · obtain rfl := Option.some.inj (hc.symm.trans hc')
      rfl
    · show (config.descr.bConfigurationValue : Int) ≠ -1
      omega
  · rw [settled_eq hk hv hc]
    exact hk

end OiUserland.Libusb.Nodes

namespace OiUserland.Libusb.NodeRuns

open Lib.Runs Nodes

variable {s s' t : UsbState} {hdl : Nat} {info : UsbDevHandleInfo} {r : Int}

def NoneStale (s : UsbState) (info : UsbDevHandleInfo) (interface : Nat) : Prop :=
  ∀ config alt, s.configs[chosen s info]? = some config → altsetting s (chosen s info) interface 0 = some alt →
    ∀ e ∈ declared alt, 0 < usbEpIndex e.descr.bEndpointAddress → Cached info (usbEpIndex e.descr.bEndpointAddress) →
      OpenedOn info (usbEpIndex e.descr.bEndpointAddress)
        (endpointNode s config.descr.bConfigurationValue interface 0 (usbEpIndex e.descr.bEndpointAddress))

/-- A new claim is made only when no stale descriptors are around. The default endpoint
is not asked for as one of the interface, and the device takes the control byte or
an errno tells why not. -/
def Fitting : Op → UsbState → Prop
  | .usbClaimInterface hdl interface, s => ∀ info, s.handles hdl = some info → info.claimedInterface = -1 →
      s.claimedInterfaces interface.toNat = 0 → NoneStale s info interface.toNat
  | .usbCheckDeviceAndStatusOpen hdl ep _ answers, s => answers.control ≠ .other 0 ∧
      (usbEpIndex (ep % 256).toNat = 0 → ∀ info, s.handles hdl = some info → info.epInterface 0 ≠ info.claimedInterface)
  | _, _ => True

structure Touches (hdl : Nat) (s t : UsbState) : Prop where
  alike : Alike s t
  others : ∀ h, h ≠ hdl → t.handles h = s.handles h

theorem Touches.trans (h : Touches hdl s t) (h' : Touches hdl t s') : Touches hdl s s' :=
  ⟨h.alike.trans h'.alike, fun k hk => (h'.others k hk).trans (h.others k hk)⟩

theorem touches_same (hdl : Nat) (h : Same s t) : Touches hdl s t :=
  ⟨alike_same h, fun _ _ => congrFun h.handles _⟩

theorem touches_put (s : UsbState) (hdl : Nat) (info : UsbDevHandleInfo) : Touches hdl s (s.putInfo hdl info) :=
  ⟨⟨rfl, rfl, rfl⟩, fun _ hk => putInfo_of_ne s info hk⟩

theorem touches_released (s : UsbState) (hdl : Nat) (info : UsbDevHandleInfo) : Touches hdl s (released s hdl info) :=
  ⟨⟨rfl, rfl, rfl⟩, fun _ hk => Function.update_of_ne hk ..⟩

theorem touches_claimed (s : UsbState) (hdl : Nat) (info : UsbDevHandleInfo) (i : Nat) (alt : UsbInterfaceDescriptor) :
    Touches hdl s (claimed s hdl info i alt) :=
  ⟨⟨rfl, rfl, rfl⟩, fun _ hk => Function.update_of_ne hk ..⟩

/-- The invariant of a run. -/
def Sound (s : UsbState) : Prop := ∀ hdl info, s.handles hdl = some info → Knows s info ∧ Current s info

theorem Sound.touches (hs : Sound s) (ht : Touches hdl s t)
    (hown : ∀ info, t.handles hdl = some info → Knows s info ∧ Current s info) : Sound t := by
  intro h info hinfo
  obtain ⟨hk, hc⟩ : Knows s info ∧ Current s info := by
    by_cases hh : h = hdl
    · subst hh
      exact hown info hinfo
    · exact hs h info ((ht.others h hh).symm.trans hinfo)
  exact ⟨hk.alike ht.alike, hc.alike ht.alike⟩

theorem Sound.put (hs : Sound s) (hst : Same s t) (hk : Knows s info) (hc : Current s info) :
    Sound (t.putInfo hdl info) := by
  refine hs.touches ((touches_same hdl hst).trans (touches_put t hdl info)) fun info' hinfo' => ?_
  obtain rfl := Option.some.inj ((putInfo_self t hdl info).symm.trans hinfo')
  exact ⟨hk, hc⟩

theorem Sound.same (hs : Sound s) (h : Same s t) : Sound t :=
  hs.touches (touches_same 0 h) fun info hinfo => hs 0 info ((congrFun h.handles 0).symm.trans hinfo)

theorem current_unclaimed (h : info.claimedInterface = -1) : Current s info := fun hne => absurd h hne

theorem current_closed (h : ∀ i, 0 < i → i < usbMaxendpoints → info.epFd i = noFd) : Current s info := by
  intro _ i h0 hi _ hcached
  have := hcached.1
  rw [h i h0 hi] at this
  exact absurd this (by decide)

theorem closed_epFd (info : UsbDevHandleInfo) (i : Nat) (h0 : 0 < i) (hi : i < usbMaxendpoints) :
    (closed info).epFd i = noFd := if_pos ⟨h0, hi⟩

theorem usbEpIndex_lt (n : Nat) : usbEpIndex n < usbMaxendpoints := by
  have : n % (usbEpNumMask + 1) < 16 := Nat.mod_lt n (by decide)
  rw [usbEpIndex, usbMaxendpoints]
  split <;> omega

theorem setEpIfaces_cases {interface i : Nat} {endpoints : List UsbEndpointDescriptor} {f : Nat → Int}
    (h : setEpIfaces interface endpoints f i = interface) :
    f i = interface ∨ ∃ e ∈ endpoints, usbEpIndex e.descr.bEndpointAddress = i := by
  induction endpoints generalizing f with
  | nil => exact .inl h
  | cons e es ih =>
      rcases ih h with hf | ⟨e', he', hi⟩
      · by_cases hi : usbEpIndex e.descr.bEndpointAddress = i
        · exact .inr ⟨e, List.mem_cons_self .., hi⟩
        · exact .inl ((Function.update_of_ne (Ne.symm hi) ..).symm.trans hf)
      · exact .inr ⟨e', List.mem_cons_of_mem _ he', hi⟩

theorem openedOn_opened (info : UsbDevHandleInfo) (index : Nat) (fd stat : Fd) (node : List Char) :
    OpenedOn (opened info index fd stat) index node ↔ fd.node = node ∧ stat.node = statName node := by
  have hepFd : (opened info index fd stat).epFd index = fd := Function.update_self ..
  have hepStatusFd : (opened info index fd stat).epStatusFd index = stat := Function.update_self ..
  rw [OpenedOn, hepFd, hepStatusFd]

theorem sound_release {interface : Int} (hs : Sound s) (h : usbReleaseInterface hdl interface s = some (r, s')) :
    Sound s' := by
  obtain rfl | ⟨info, -, hinfo, -, rfl⟩ := release_cases h
  · exact hs
  · refine hs.touches (touches_released s hdl info) fun info' hinfo' => ?_
    obtain rfl := Option.some.inj ((putInfo_self _ hdl (unclaimed info)).symm.trans hinfo')
    obtain ⟨hk, -⟩ := hs hdl info hinfo
    exact ⟨⟨hk.parsed, hk.index, hk.value, fun hne => absurd rfl hne⟩, current_unclaimed rfl⟩

/-- Without a new claim everything is as it was. A new one may leave stale descriptors. -/
theorem claim_sound {interface : Int} (hs : Sound s) (h : usbClaimInterface hdl interface s = some (r, s')) :
    Sound s' ∨ (r = 0 ∧ ∃ info info' i, interface = (i : Nat) ∧ s.handles hdl = some info ∧
      info.claimedInterface = -1 ∧ s.claimedInterfaces i = 0 ∧ Touches hdl s s' ∧ s'.handles hdl = some info' ∧
      Knows s info' ∧ info'.claimedInterface = i ∧ s'.claimedInterfaces i = hdl ∧
      (NoneStale s info i → Current s info')) := by
  obtain rfl | ⟨info, config, -, hinfo, hconfig, rfl | ⟨rfl, hfree, i, alt, rfl, hi, halt, rfl⟩⟩ := claim_cases h
  · exact .inl hs
  · obtain ⟨hk, hc⟩ := hs hdl info hinfo
    refine .inl (hs.put (Same.refl s) (hk.settled hconfig) ?_)
    intro hclaim
    rw [settled_eq hk (hk.claim hclaim) hconfig] at hclaim ⊢
    exact hc hclaim
  · obtain ⟨hk, -⟩ := hs hdl info hinfo
    have hk' := hk.settled hconfig
    refine .inr ⟨rfl, info, onAlternate (settled s info config) i 0 alt, i, rfl, hinfo, hfree, hi,
      touches_claimed .., putInfo_self .., ⟨hk'.parsed, hk'.index, hk'.value, fun _ => ?_⟩, rfl,
      Function.update_self .., ?_⟩
    · show (config.descr.bConfigurationValue : Int) ≠ -1
      omega
    · intro hstale _ j h0 _ hiface hcached
      rcases setEpIfaces_cases hiface with hneg | ⟨e, he, rfl⟩
      · exact absurd hneg (by omega)
      · exact hstale config alt hconfig halt e he h0 hcached

theorem sound_setConfiguration {configuration : Int} (hs : Sound s)
    (h : usbSetConfiguration hdl configuration s = some (r, s')) : Sound s' := by
  obtain rfl | ⟨info, t, -, hinfo, hsame, hindex, hcases⟩ := setConfiguration_cases h
  · exact hs
  · have hparsed := (hs hdl info hinfo).1.parsed
    rcases hcases with ⟨hc, rfl⟩ | ⟨-, rfl⟩
    · exact hs.put hsame ⟨hparsed, fun _ => rfl, fun _ _ => findConfig_found hindex, fun hne => absurd hc hne⟩
        (current_unclaimed hc)
    · refine hs.touches ((touches_same hdl hsame).trans ((touches_put t hdl _).trans (touches_released _ hdl _)))
        fun info' hinfo' => ?_
      obtain rfl := Option.some.inj ((putInfo_self _ hdl (unclaimed (configured s info configuration))).symm.trans hinfo')
      exact ⟨⟨hparsed, fun _ => rfl, fun _ _ => findConfig_found hindex, fun hne => absurd rfl hne⟩,
        current_unclaimed rfl⟩

theorem setAlternate_touches {alternate : Int} (hk : ∀ info, s.handles hdl = some info → Knows s info)
    (h : setAlternate hdl alternate s = some (r, s')) :
    (s' = s ∧ ∀ info, s.handles hdl = some info → info.claimedInterface = -1 ∨ info.configurationValue = -1 ∨
      hdl ≠ s.claimedInterfaces info.claimedInterface.toNat) ∨
    Touches hdl s s' ∧ ∀ info, s'.handles hdl = some info → Knows s info ∧ Current s info := by
  obtain herr | ⟨info, t, hinfo, hsame, -, -, hcases⟩ := setAlternate_cases h
  · exact .inl herr
  · obtain ⟨hp, hx, hv, hc⟩ := hk info hinfo
    have htouch (info' : UsbDevHandleInfo) : Touches hdl s (t.putInfo hdl info') :=
      (touches_same hdl hsame).trans (touches_put t hdl info')
    rcases hcases with rfl | ⟨alt, -, -, rfl⟩
    · refine .inr ⟨htouch _, fun info' hinfo' => ?_⟩
      obtain rfl := Option.some.inj ((putInfo_self t hdl _).symm.trans hinfo')
      exact ⟨⟨hp, hx, hv, hc⟩, current_closed (closed_epFd info)⟩
    · refine .inr ⟨htouch _, fun info' hinfo' => ?_⟩
      obtain rfl := Option.some.inj ((putInfo_self t hdl _).symm.trans hinfo')
      exact ⟨⟨hp, hx, hv, hc⟩, current_closed (closed_epFd info)⟩

theorem sound_setAltinterface {alternate : Int} (hs : Sound s)
    (h : usbSetAltinterface hdl alternate s = some (r, s')) : Sound s' := by
  have halternate {t : UsbState} (ht : Sound t) (h : setAlternate hdl alternate t = some (r, s')) : Sound s' := by
    obtain ⟨rfl, -⟩ | ⟨htouch, hown⟩ := setAlternate_touches (fun info hinfo => (ht hdl info hinfo).1) h
    · exact ht
    · exact ht.touches htouch hown
  obtain rfl | ⟨hclaim, hr⟩ | halt | ⟨t, hclaim, halt⟩ := setAltinterface_cases h
  · exact hs
  · obtain hs' | ⟨hr', -⟩ := claim_sound hs hclaim
    · exact hs'
    · exact absurd hr' hr
  · exact halternate hs halt
  · obtain ht | ⟨-, info, info', i, -, -, -, -, htouch, hinfo', hk, hi, htable, -⟩ := claim_sound hs hclaim
    · exact halternate ht halt
    · -- the implicit claim: all endpoints are closed before anything is asked for
      have hk' (info : UsbDevHandleInfo) (hinfo : t.handles hdl = some info) : Knows t info :=
        Option.some.inj (hinfo'.symm.trans hinfo) ▸ hk.alike htouch.alike
      obtain ⟨-, herr⟩ | ⟨htouch', hown⟩ := setAlternate_touches hk' halt
      · have hclaimed : info'.claimedInterface ≠ -1 := by omega
        rcases herr info' hinfo' with hc | hc | hc
        · exact absurd hc hclaimed
        · exact absurd hc (hk.claim hclaimed)
        · rw [hi, Int.toNat_natCast, htable] at hc
          exact absurd rfl hc
      · refine hs.touches (htouch.trans htouch') fun info hinfo => ?_
        obtain ⟨hk, hc⟩ := hown info hinfo
        have hback : Alike t s := ⟨htouch.alike.dirname.symm, htouch.alike.filename.symm, htouch.alike.device.symm⟩
        exact ⟨hk.alike hback, hc.alike hback⟩

theorem sound_close (hs : Sound s) (h : usbClose hdl s = some (r, s')) : Sound s' := by
  obtain rfl | ⟨info, t, u, -, -, hreleased, hsame, rfl⟩ := close_cases h
  · exact hs
  · have htouch : Touches hdl s u := by
      rcases hreleased with ⟨-, rfl⟩ | ⟨-, rfl⟩
      · exact touches_same hdl hsame
      · exact (touches_released s hdl info).trans (touches_same hdl hsame)
    have hgone : Touches hdl u { u with handles := Function.update u.handles hdl none } :=
      ⟨⟨rfl, rfl, rfl⟩, fun _ hk => Function.update_of_ne hk ..⟩
    exact hs.touches (htouch.trans hgone) fun info hinfo =>
      absurd ((Function.update_self ..).symm.trans hinfo) nofun

theorem sound_open {answers : OpenAnswers} {r : Nat} (hs : Sound s) (h : usbOpen answers s = some (r, s')) :
    Sound s' := by
  have hkept {t : UsbState} {dev : UsbDevice} (hsame : Same s t) (hdev : s.device.config.isSome → dev = s.device)
      {h : Nat} {info : UsbDevHandleInfo} (hinfo : t.handles h = some info) :
      Knows { t with device := dev } info ∧ Current { t with device := dev } info := by
    obtain ⟨hk, hc⟩ := hs h info (hsame.handles ▸ hinfo)
    have halike : Alike s { t with device := dev } := ⟨hsame.dirname, hsame.filename, hdev hk.parsed⟩
    exact ⟨hk.alike halike, hc.alike halike⟩
  obtain ⟨t, dev, hsame, hdev, rfl⟩ | ⟨hdl, info, t, dev, -, -, hsame, hdev, hparsed, hv, hc, -, rfl⟩ := open_cases h
  · exact fun _ _ hinfo => hkept hsame hdev hinfo
  · have ht : Sound { t with device := dev } := fun _ _ hinfo => hkept hsame hdev hinfo
    exact ht.put (Same.refl _) ⟨hparsed, fun hne => absurd hv hne, fun hne => absurd hv hne, fun hne => absurd hc hne⟩
      (current_unclaimed hc)

theorem nodePath_eq {i : Nat} (hk : Knows s info) (hclaim : info.claimedInterface ≠ -1)
    (hiface : info.claimedInterface = info.epInterface i) : nodePath s info i = currentNode s info i := by
  rw [nodePath, currentNode, endpointNode, epName, hk.index (hk.claim hclaim), ← hiface]

theorem sound_check {ep : Int} {epType : Nat} {answers : CheckAnswers} (hs : Sound s)
    (h : usbCheckDeviceAndStatusOpen hdl ep epType answers s = some (r, s')) : Sound s' := by
  obtain ⟨info, hinfo, ⟨hsame, -⟩ | ⟨hclaim, hiface, t, fd, stat, hsame, hfd, hstat, rfl⟩⟩ := check_cases h
  · exact hs.same hsame
  · obtain ⟨hk, hc⟩ := hs hdl info hinfo
    rw [nodePath_eq hk hclaim hiface] at hfd hstat
    refine hs.put hsame ⟨hk.parsed, hk.index, hk.value, hk.claim⟩ fun _ i h0 hi hi' hcached => ?_
    by_cases hindex : i = usbEpIndex (ep % 256).toNat
    · subst hindex
      exact (openedOn_opened ..).mpr ⟨hfd, hstat⟩
    · have hepFd : (opened info (usbEpIndex (ep % 256).toNat) fd stat).epFd i = info.epFd i :=
        Function.update_of_ne hindex ..
      have hepStatusFd : (opened info (usbEpIndex (ep % 256).toNat) fd stat).epStatusFd i = info.epStatusFd i :=
        Function.update_of_ne hindex ..
      rw [Cached, hepFd, hepStatusFd] at hcached
      rw [OpenedOn, hepFd, hepStatusFd]
      exact hc hclaim i h0 hi hi' hcached

theorem step_sound {op : Op} (hs : Sound s) (hok : Fitting op s) (h : step op s = some s') : Sound s' := by
  cases op with
  | usbOpen answers =>
      obtain ⟨r, h⟩ := exists_of_map_snd h
      exact sound_open hs h
  | usbClose hdl =>
      obtain ⟨r, h⟩ := exists_of_map_snd h
      exact sound_close hs h
  | usbSetConfiguration hdl configuration =>
      obtain ⟨r, h⟩ := exists_of_map_snd h
      exact sound_setConfiguration hs h
  | usbClaimInterface hdl interface =>
      obtain ⟨r, h⟩ := exists_of_map_snd h
      obtain hs' | ⟨-, info, info', i, rfl, hinfo, hfree, hi, htouch, hinfo', hk, -, -, hcurrent⟩ := claim_sound hs h
      · exact hs'
      · refine hs.touches htouch fun info'' hinfo'' => ?_
        obtain rfl := Option.some.inj (hinfo'.symm.trans hinfo'')
        exact ⟨hk, hcurrent (hok info hinfo hfree hi)⟩
  | usbReleaseInterface hdl interface =>
      obtain ⟨r, h⟩ := exists_of_map_snd h
      exact sound_release hs h
  | usbSetAltinterface hdl alt =>
      obtain ⟨r, h⟩ := exists_of_map_snd h
      exact sound_setAltinterface hs h
  | usbCheckDeviceAndStatusOpen hdl ep epType answers =>
      obtain ⟨r, h⟩ := exists_of_map_snd h
      exact sound_check hs h

theorem sound_success {ep : Int} {epType : Nat} {answers : CheckAnswers} (hs : Sound s)
    (hok : Fitting (.usbCheckDeviceAndStatusOpen hdl ep epType answers) s)
    (h : usbCheckDeviceAndStatusOpen hdl ep epType answers s = some (0, s')) :
    ∃ info, s'.handles hdl = some info ∧ info.claimedInterface ≠ -1 ∧
      OpenedOn info (usbEpIndex (ep % 256).toNat) (currentNode s' info (usbEpIndex (ep % 256).toNat)) := by
  obtain ⟨info, hinfo, ⟨hsame, hzero⟩ | ⟨hclaim, hiface, t, fd, stat, hsame, hfd, hstat, rfl⟩⟩ := check_cases h
  · obtain ⟨hclaim, hiface, hcached⟩ := hzero rfl
    have hindex : 0 < usbEpIndex (ep % 256).toNat := by
      refine Nat.pos_of_ne_zero fun hz => hok.2 hz info hinfo ?_
      rw [hz] at hiface
      exact hiface.symm
    refine ⟨info, hsame.handles ▸ hinfo, hclaim, ?_⟩
    rcases hcached with hcached | rfl | hcontrol
    · exact (hs.same hsame hdl info (hsame.handles ▸ hinfo)).2 hclaim _ hindex (usbEpIndex_lt _) hiface.symm hcached
    · exact absurd hindex (by decide)
    · exact absurd hcontrol hok.1
  · obtain ⟨hk, -⟩ := hs hdl info hinfo
    rw [nodePath_eq hk hclaim hiface] at hfd hstat
    have hnode : currentNode (t.putInfo hdl (opened info (usbEpIndex (ep % 256).toNat) fd stat))
        (opened info (usbEpIndex (ep % 256).toNat) fd stat) (usbEpIndex (ep % 256).toNat) =
        currentNode s info (usbEpIndex (ep % 256).toNat) :=
      (alike_put (alike_same hsame) hdl _).endpointNode ..
    refine ⟨_, putInfo_self .., hclaim, ?_⟩
    rw [hnode]
    exact (openedOn_opened ..).mpr ⟨hfd, hstat⟩

theorem Init.sound (h : Init s) : Sound s := fun hdl _ hinfo => nomatch (h.no_handles hdl).symm.trans hinfo

theorem reachable_sound (h : Reachable step Fitting Init s) : Sound s :=
  h.invariant Sound (fun _ hs => Init.sound hs) fun _ _ _ hs hok hstep => step_sound hs hok hstep

/-- In a run of fitting steps no transfer goes to a node of an earlier configuration,
interface or alternate. -/
theorem transfers_current (h : Reachable step Fitting Init s) {ep : Int} {epType : Nat} {answers : CheckAnswers}
    (hok : Fitting (.usbCheckDeviceAndStatusOpen hdl ep epType answers) s)
    (hcheck : usbCheckDeviceAndStatusOpen hdl ep epType answers s = some (0, s')) :
    ∃ info, s'.handles hdl = some info ∧ info.claimedInterface ≠ -1 ∧
      OpenedOn info (usbEpIndex (ep % 256).toNat) (currentNode s' info (usbEpIndex (ep % 256).toNat)) :=
  sound_success (reachable_sound h) hok hcheck

theorem noneStale_closed {interface : Nat} (h : ∀ i < usbMaxendpoints, i ≠ 0 → (info.epFd i).num ≤ 0) :
    NoneStale s info interface := by
  intro config alt _ _ e _ h0 hcached
  have := h _ (usbEpIndex_lt e.descr.bEndpointAddress) (Nat.ne_of_gt h0)
  exact absurd hcached.1 (Int.not_lt.mpr this)

def sampleAnswers (fd : Nat) : CheckAnswers := ⟨true, .opened fd, .one, .opened fd, .opened (fd + 1)⟩

theorem transfers_current_first : ∃ s' : UsbState, ∃ info, s'.handles 1 = some info ∧ info.claimedInterface ≠ -1 ∧
    OpenedOn info (usbEpIndex (0x81 % 256 : Int).toNat)
      (currentNode s' info (usbEpIndex (0x81 % 256 : Int).toNat)) := by
  have hrun : (step (sampleOpen 1 3) sampleState).any (fun s =>
      (s.handles 1).all (fun info => decide (∀ i < usbMaxendpoints, i ≠ 0 → (info.epFd i).num ≤ 0)) &&
        (step (.usbClaimInterface 1 0) s).any fun t =>
          (usbCheckDeviceAndStatusOpen 1 0x81 2 (sampleAnswers 7) t).any fun p => p.1 = 0) = true := by
    decide +kernel
  obtain ⟨s, hopen, hs⟩ := (Option.any_eq_true _ _).mp hrun
  obtain ⟨hclosed, hs⟩ := Bool.and_eq_true_iff.mp hs
  obtain ⟨t, hclaim, ht⟩ := (Option.any_eq_true _ _).mp hs
  obtain ⟨⟨r, s'⟩, hcheck, hr⟩ := (Option.any_eq_true _ _).mp ht
  obtain rfl : r = 0 := of_decide_eq_true hr
  have hfitting : Fitting (.usbClaimInterface 1 0) s := by
    intro info hinfo _ _
    rw [hinfo] at hclosed
    exact noneStale_closed (of_decide_eq_true hclosed)
  have hreach : Reachable step Fitting Init t :=
    .next _ (.next (sampleOpen 1 3) (.start sampleState_init) trivial hopen) hfitting hclaim
  exact ⟨s', transfers_current hreach ⟨by decide, fun h => absurd h (by decide)⟩ hcheck⟩

/-- The claim of an interface that was released while it was on its second alternate. -/
theorem not_transfers_current : ¬ ∀ (s s' : UsbState) (hdl : Nat) (ep : Int) (epType : Nat) (answers : CheckAnswers),
    Reachable step (fun _ _ => True) Init s → usbCheckDeviceAndStatusOpen hdl ep epType answers s = some (0, s') →
    ∃ info, s'.handles hdl = some info ∧
      OpenedOn info (usbEpIndex (ep % 256).toNat) (currentNode s' info (usbEpIndex (ep % 256).toNat)) := by
  intro hall
  have hrun : (exec step [sampleOpen 1 3, .usbClaimInterface 1 0, .usbSetAltinterface 1 1,
      .usbCheckDeviceAndStatusOpen 1 0x81 2 (sampleAnswers 7), .usbReleaseInterface 1 0, .usbClaimInterface 1 0]
      sampleState).any (fun s => (usbCheckDeviceAndStatusOpen 1 0x81 2 (sampleAnswers 9) s).any fun p =>
        p.1 = 0 ∧ (p.2.handles 1).all fun info => !decide (OpenedOn info (usbEpIndex (0x81 % 256 : Int).toNat)
          (currentNode p.2 info (usbEpIndex (0x81 % 256 : Int).toNat)))) = true := by
    decide +kernel
  obtain ⟨s, he, hs⟩ := (Option.any_eq_true _ _).mp hrun
  obtain ⟨⟨r, s'⟩, hcheck, hp⟩ := (Option.any_eq_true _ _).mp hs
  obtain ⟨rfl, hp⟩ := of_decide_eq_true hp
  obtain ⟨info, hinfo, hopened⟩ :=
    hall s s' 1 0x81 2 _ (reachable_of_exec _ (fun _ _ _ => trivial) (.start sampleState_init) he) hcheck
  simp only at hp
  rw [hinfo] at hp
  exact absurd hopened (by simpa using hp)

end OiUserland.Libusb.NodeRuns
