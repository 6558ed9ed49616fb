import OiUserland.Lib.CStrings
import OiUserland.Libusb.Configs

namespace OiUserland.Libusb.Handles

open Lib.CStrings Configs

def eacces : Int := 13
def ebusy : Int := 16
def einval : Int := 22

def usbMaxendpoints : Nat := 32
def usbEpNumMask : Nat := 0x0f
def usbEpDirMask : Nat := 0x80
def usbEndpointTypeInterrupt : Nat := 3

/-- An errno that a failed call has set. -/
abbrev Errno := { n : Nat // 0 < n }

structure Fd where
  num : Int
  node : List Char
  deriving DecidableEq

def noFd : Fd := ⟨-1, []⟩

structure UsbDevHandleInfo where
  configurationValue : Int
  configurationIndex : Nat
  claimedInterface : Int
  alternate : Int
  epFd : Nat → Fd
  epStatusFd : Nat → Fd
  epInterface : Nat → Int

/-- The device with what its handles share. A handle is its address, and 0 is NULL.
`files` are the descriptors that are open, and `dirname` and `filename` make the
path of the device. -/
structure UsbState where
  relaxed : Bool
  dirname : List Char
  filename : List Char
  device : UsbDevice
  refCount : Int
  ep0Fd : Fd
  ep0FdStat : Fd
  claimedInterfaces : Nat → Nat
  handles : Nat → Option UsbDevHandleInfo
  files : List Fd

def UsbState.putInfo (s : UsbState) (hdl : Nat) (info : UsbDevHandleInfo) : UsbState :=
  { s with handles := Function.update s.handles hdl (some info) }

inductive OpenAnswer
  | opened (num : Nat)
  | failed (errno : Errno)
  deriving DecidableEq

def openNode (node : List Char) (answer : OpenAnswer) (s : UsbState) : Option ((Fd ⊕ Errno) × UsbState) :=
  match answer with
  | .failed errno => some (.inr errno, s)
  | .opened num =>
      if s.files.any fun fd => fd.num = num then none
      else some (.inl ⟨num, node⟩, { s with files := ⟨num, node⟩ :: s.files })

def closeFd (fd : Fd) (s : UsbState) : UsbState := { s with files := s.files.filter fun f => f.num ≠ fd.num }

def devicePath (s : UsbState) (name : List Char) : List Char :=
  (s.dirname ++ '/' :: s.filename ++ '/' :: name).take 1023

/-- What a call of usb_open meets. The device is in the list of devices. -/
structure OpenAnswers where
  hdl : Option Nat
  info : Bool
  malloc : Bool
  ep0 : OpenAnswer
  ep0Stat : OpenAnswer
  setup : Env

def cntrl0 : List Char := "cntrl0".toList
def cntrl0stat : List Char := "cntrl0stat".toList

def newInfo : UsbDevHandleInfo where
  configurationValue := 0
  configurationIndex := 0
  claimedInterface := 0
  alternate := 0
  epFd := fun _ => noFd
  epStatusFd := fun _ => noFd
  epInterface := fun i => if i = 0 then 0 else -1

def UsbDevHandleInfo.setEp0 (info : UsbDevHandleInfo) (fd stat : Fd) : UsbDevHandleInfo :=
  { info with epFd := Function.update info.epFd 0 fd, epStatusFd := Function.update info.epStatusFd 0 stat }

/-- usb_open_ep0: the errno and the structure of the handle. When the status node does
not open, the first descriptor stays open. -/
def usbOpenEp0 (answers : OpenAnswers) (info : UsbDevHandleInfo) (s : UsbState) :
    Option (Int × UsbDevHandleInfo × UsbState) :=
  if s.ep0Fd.num ≠ 0 then
    some (0, info.setEp0 s.ep0Fd s.ep0FdStat, { s with refCount := s.refCount + 1 })
  else if !answers.malloc then some (enomem, info, s)
  else do
    match ← openNode (devicePath s cntrl0) answers.ep0 s with
    | (.inr errno, s) => some (errno.val, info, s)
    | (.inl fd, s) =>
        match ← openNode (devicePath s cntrl0stat) answers.ep0Stat s with
        | (.inr errno, s) => some (errno.val, info.setEp0 fd noFd, s)
        | (.inl stat, s) =>
            some (0, info.setEp0 fd stat, { s with ep0Fd := fd, ep0FdStat := stat, refCount := s.refCount + 1 })

def closeIfOpen (fd : Fd) (s : UsbState) : UsbState := if fd.num ≠ -1 then closeFd fd s else s

def usbCloseEp0 (info : UsbDevHandleInfo) (s : UsbState) : UsbState :=
  let count := if s.ep0Fd.num ≠ 0 then s.refCount - 1 else s.refCount
  if s.ep0Fd.num ≠ 0 ∧ 0 < count then { s with refCount := count }
  else
    { closeIfOpen (info.epStatusFd 0) (closeIfOpen (info.epFd 0) s) with
      refCount := count, ep0Fd := ⟨0, []⟩, ep0FdStat := ⟨0, []⟩ }

/-- usb_open: the handle, or 0 for NULL. There is no next state when the parsing of the
descriptors goes wrong. -/
def usbOpen (answers : OpenAnswers) (s : UsbState) : Option (Nat × UsbState) :=
  match answers.hdl with
  | none => some (0, s)
  | some hdl =>
      if hdl = 0 ∨ (s.handles hdl).isSome then none
      else if !answers.info then some (0, s)
      else do
        let (rval, info, s) ← usbOpenEp0 answers newInfo s
        if rval ≠ 0 then some (0, s)
        else
          match usbSetupAllConfigs answers.setup s.device ⟨0, [], []⟩ with
          | .error _ => none
          | .ok (rval, device, _) =>
              if rval ≠ 0 then some (0, usbCloseEp0 info { s with device := (usbFreeAllConfigs device).2 })
              else
                some (hdl, UsbState.putInfo { s with device := device } hdl
                  { info with configurationValue := -1, claimedInterface := -1, alternate := -1 })

def usbCloseAllEps (info : UsbDevHandleInfo) (s : UsbState) : UsbDevHandleInfo × UsbState :=
  let s := (List.range usbMaxendpoints).tail.foldl
    (fun s i => closeIfOpen (info.epStatusFd i) (closeIfOpen (info.epFd i) s)) s
  ({ info with
      epFd := fun i => if 0 < i ∧ i < usbMaxendpoints then noFd else info.epFd i
      epStatusFd := fun i => if 0 < i ∧ i < usbMaxendpoints then noFd else info.epStatusFd i }, s)

def usbReleaseInterface (hdl : Nat) (interface : Int) (s : UsbState) : Option (Int × UsbState) :=
  if hdl = 0 then some (-einval, s)
  else do
    let info ← s.handles hdl
    if info.claimedInterface = -1 ∨ info.claimedInterface ≠ interface then some (-einval, s)
    else
      some (0, UsbState.putInfo
        { s with claimedInterfaces := Function.update s.claimedInterfaces interface.toNat 0 }
        hdl { info with claimedInterface := -1 })

def usbClose (hdl : Nat) (s : UsbState) : Option (Int × UsbState) :=
  if hdl = 0 then some (-einval, s)
  else do
    let info ← s.handles hdl
    let (_, s) ← if info.claimedInterface ≠ -1 then usbReleaseInterface hdl info.claimedInterface s else some (0, s)
    let info ← s.handles hdl
    let (info, s) := usbCloseAllEps info s
    let s := usbCloseEp0 info s
    some (0, { s with handles := Function.update s.handles hdl none })

def UsbState.configs (s : UsbState) : List UsbConfigDescriptor := s.device.config.elim [] Block.cells

def findConfig (s : UsbState) (value : Int) : Nat :=
  (s.configs.take s.device.descriptor.bNumConfigurations).findIdx fun c => value = c.descr.bConfigurationValue

def usbEpIndex (epAddr : Nat) : Nat := epAddr % (usbEpNumMask + 1) + if epAddr / usbEpDirMask % 2 = 1 then 16 else 0

def altsetting (s : UsbState) (index interface alternate : Nat) : Option UsbInterfaceDescriptor := do
  let config ← s.configs[index]?
  let iface ← (← config.interface).cells[interface]?
  (← iface.altsetting).cells[alternate]?

def setEpIfaces (interface : Nat) (endpoints : List UsbEndpointDescriptor) (epInterface : Nat → Int) : Nat → Int :=
  endpoints.foldl (fun f e => Function.update f (usbEpIndex e.descr.bEndpointAddress) interface) epInterface

def usbSetEpIfaceAlts (s : UsbState) (info : UsbDevHandleInfo) (index interface alternate : Nat) :
    Option UsbDevHandleInfo := do
  let alt ← altsetting s index interface alternate
  let n := alt.descr.bNumEndpoints
  let endpoints := (alt.endpoint.elim [] Block.cells).take n
  if endpoints.length < n then none
  else some { info with epInterface := setEpIfaces interface endpoints fun _ => -1 }

def usbSetConfiguration (hdl : Nat) (configuration : Int) (s : UsbState) : Option (Int × UsbState) :=
  if hdl = 0 then some (-einval, s)
  else do
    let info ← s.handles hdl
    let index := findConfig s configuration
    if s.device.descriptor.bNumConfigurations ≤ index then some (-einval, s)
    else
      let (info, s) := usbCloseAllEps info s
      let info := { info with
        configurationValue := configuration, configurationIndex := index, epInterface := fun _ => -1 }
      let s := s.putInfo hdl info
      let (_, s) ← if info.claimedInterface ≠ -1 then usbReleaseInterface hdl info.claimedInterface s else some (0, s)
      some (0, s)

def usbClaimInterface (hdl : Nat) (interface : Int) (s : UsbState) : Option (Int × UsbState) :=
  if hdl = 0 then some (-einval, s)
  else do
    let info ← s.handles hdl
    let index := if info.configurationValue = -1 then 0 else findConfig s info.configurationValue
    let config ← s.configs[index]?
    let info := { info with
      configurationValue := config.descr.bConfigurationValue, configurationIndex := index }
    let s := s.putInfo hdl info
    if interface < 0 ∨ 255 < interface ∨ config.descr.bNumInterfaces ≤ interface then some (-einval, s)
    else if s.claimedInterfaces interface.toNat = hdl then some (0, s)
    else if info.claimedInterface ≠ -1 then some (-ebusy, s)
    else if s.claimedInterfaces interface.toNat ≠ 0 then some (-ebusy, s)
    else
      let info := { info with claimedInterface := interface, alternate := 0 }
      let s := { s with claimedInterfaces := Function.update s.claimedInterfaces interface.toNat hdl }
      let info ← usbSetEpIfaceAlts s info index interface.toNat 0
      some (0, s.putInfo hdl info)

def setAlternate (hdl : Nat) (alt : Int) (s : UsbState) : Option (Int × UsbState) := do
  let info ← s.handles hdl
  let iface := info.claimedInterface
  if iface = -1 ∨ info.configurationValue = -1 ∨ hdl ≠ s.claimedInterfaces iface.toNat then some (-eacces, s)
  else
    let (info, s) := usbCloseAllEps info s
    let s := s.putInfo hdl info
    let index := findConfig s info.configurationValue
    let config ← s.configs[index]?
    let settings ← (← config.interface).cells[iface.toNat]?
    if alt < 0 ∨ settings.numAltsetting ≤ alt then some (-einval, s)
    else
      let info ← usbSetEpIfaceAlts s { info with alternate := alt } index iface.toNat alt.toNat
      some (0, s.putInfo hdl info)

def usbSetAltinterface (hdl : Nat) (alt : Int) (s : UsbState) : Option (Int × UsbState) :=
  if hdl = 0 then some (-einval, s)
  else do
    let info ← s.handles hdl
    let (err, s) ← if s.relaxed ∧ info.claimedInterface = -1 then usbClaimInterface hdl 0 s else some (0, s)
    if err ≠ 0 then some (err, s) else setAlternate hdl alt s

inductive WriteAnswer
  | one
  | other (errno : Nat)
  deriving DecidableEq

/-- What a call of usb_check_device_and_status_open meets. -/
structure CheckAnswers where
  malloc : Bool
  statRdwr : OpenAnswer
  control : WriteAnswer
  statRdonly : OpenAnswer
  data : OpenAnswer

def usbCheckAccess (info : UsbDevHandleInfo) : Int :=
  if info.configurationValue = -1 ∨ info.claimedInterface = -1 ∨ info.alternate = -1 then eacces else 0

def numbered (text : List Char) (n : Int) : List Char := text ++ decimal n.toNat

def epName (info : UsbDevHandleInfo) (interface : Int) (index : Nat) : List Char :=
  (if 0 < info.configurationIndex then numbered "cfg".toList info.configurationValue else []) ++
    numbered "if".toList interface ++ (if 0 < info.alternate then numbered ".".toList info.alternate else []) ++
    (if 16 ≤ index then "in".toList else "out".toList) ++ decimal (index % 16)

def statName (path : List Char) : List Char := (path ++ "stat".toList).take 1023

def openInterruptStat (node : List Char) (answers : CheckAnswers) (s : UsbState) :
    Option ((Fd ⊕ Nat) × UsbState) := do
  match ← openNode node answers.statRdwr s with
  | (.inr _, s) =>
      match ← openNode node answers.statRdonly s with
      | (.inr errno, s) => some (.inr errno.val, s)
      | (.inl fd, s) => some (.inl fd, s)
  | (.inl fd, s) =>
      match answers.control with
      | .one => some (.inl fd, s)
      | .other errno => some (.inr errno, closeFd fd s)

def openRdonlyStat (node : List Char) (answers : CheckAnswers) (s : UsbState) : Option ((Fd ⊕ Nat) × UsbState) := do
  match ← openNode node answers.statRdonly s with
  | (.inr errno, s) => some (.inr errno.val, s)
  | (.inl fd, s) => some (.inl fd, s)

def openStatus (interrupt : Bool) (node : List Char) (answers : CheckAnswers) (s : UsbState) :
    Option ((Fd ⊕ Nat) × UsbState) :=
  if interrupt then openInterruptStat node answers s else openRdonlyStat node answers s

def openEndpoint (hdl : Nat) (info : UsbDevHandleInfo) (index : Nat) (interrupt : Bool) (answers : CheckAnswers)
    (s : UsbState) : Option (Int × UsbState) := do
  let filename := devicePath s (epName info (info.epInterface index) index)
  match ← openStatus interrupt (statName filename) answers s with
  | (.inr errno, s) => some (errno, s)
  | (.inl fdstat, s) =>
      match ← openNode filename answers.data s with
      | (.inr errno, s) => some (errno.val, closeFd fdstat s)
      | (.inl fd, s) =>
          some (0, s.putInfo hdl { info with
            epFd := Function.update info.epFd index fd, epStatusFd := Function.update info.epStatusFd index fdstat })

def usbCheckDeviceAndStatusOpen (hdl : Nat) (ep : Int) (epType : Nat) (answers : CheckAnswers) (s : UsbState) :
    Option (Int × UsbState) := do
  let info ← s.handles hdl
  -- the address is cut to a byte
  let index := usbEpIndex (ep % 256).toNat
  if usbCheckAccess info ≠ 0 then some (usbCheckAccess info, s)
  else if info.claimedInterface ≠ info.epInterface index then some (einval, s)
  else if 0 < (info.epFd index).num ∧ 0 < (info.epStatusFd index).num then some (0, s)
  else if ep = 0 then some (0, s)
  else if !answers.malloc then some (enomem, s)
  else openEndpoint hdl info index (epType = usbEndpointTypeInterrupt ∧ 16 ≤ index) answers s

inductive Op
  | usbOpen (answers : OpenAnswers)
  | usbClose (hdl : Nat)
  | usbSetConfiguration (hdl : Nat) (configuration : Int)
  | usbClaimInterface (hdl : Nat) (interface : Int)
  | usbReleaseInterface (hdl : Nat) (interface : Int)
  | usbSetAltinterface (hdl : Nat) (alt : Int)
  | usbCheckDeviceAndStatusOpen (hdl : Nat) (ep : Int) (epType : Nat) (answers : CheckAnswers)

def step : Op → UsbState → Option UsbState
  | .usbOpen answers, s => (usbOpen answers s).map Prod.snd
  | .usbClose hdl, s => (usbClose hdl s).map Prod.snd
  | .usbSetConfiguration hdl configuration, s => (usbSetConfiguration hdl configuration s).map Prod.snd
  | .usbClaimInterface hdl interface, s => (usbClaimInterface hdl interface s).map Prod.snd
  | .usbReleaseInterface hdl interface, s => (usbReleaseInterface hdl interface s).map Prod.snd
  | .usbSetAltinterface hdl alt, s => (usbSetAltinterface hdl alt s).map Prod.snd
  | .usbCheckDeviceAndStatusOpen hdl ep epType answers, s =>
      (usbCheckDeviceAndStatusOpen hdl ep epType answers s).map Prod.snd

/-- A device that has just been found. -/
structure Init (s : UsbState) : Prop where
  no_config : s.device.config = none
  no_refs : s.refCount = 0
  no_ep0 : s.ep0Fd = ⟨0, []⟩
  no_ep0_stat : s.ep0FdStat = ⟨0, []⟩
  no_claims : ∀ i, s.claimedInterfaces i = 0
  no_handles : ∀ hdl, s.handles hdl = none

end OiUserland.Libusb.Handles
