import OiUserland.Wrapper.Startup

namespace OiUserland.Wrapper.Routing

open Lib.Chains Plugins FindBusses Startup

def einval : Int := 22
def enodev : Int := 19

def getIndexDevhdl (s : WrapperState) (dev : Nat) : Int :=
  match (List.range s.ploaded).find? fun i => (s.pInfo i).devHandles.any fun h => h.dev = dev with
  | some pindex => pindex
  | none => failure

def pluginOf (s : WrapperState) (busp : Nat) : Option Nat :=
  (List.range s.ploaded).find? fun i => (s.pInfo i).busp = busp

/-- The walk over the busses: a bus with the device counts when a plug-in's list starts with
it. In a list without an end every bus comes up within its first rounds. -/
def findDevice (s : WrapperState) (device : Nat) : Nat → Nat → Option Int
  | 0, busp => if busp = 0 then some failure else none
  | n + 1, busp =>
      if busp = 0 then some failure
      else (s.busses.lookup busp).bind fun bus =>
        match if device ∈ bus.devices then pluginOf s busp else none with
        | some pindex => some pindex
        | none => findDevice s device n bus.next

def getIndexDevicep (s : WrapperState) (device : Nat) : Option Int :=
  findDevice s device s.busses.keys.length s.usbBusses

/-- Where usb_open takes a device. -/
def openIndex (s : WrapperState) (device : Nat) : Option Int :=
  if s.activeIndex = -1 then getIndexDevicep s device else some s.activeIndex

/-- Where a call on a handle goes. -/
def getPindex (s : WrapperState) (dev : Nat) : Int :=
  if dev = 0 then -einval
  else if s.activeIndex = -1 then
    if getIndexDevhdl s dev < 0 then -enodev else getIndexDevhdl s dev
  else s.activeIndex

def usbAddDev (dev device pindex : Nat) (s : WrapperState) : WrapperState :=
  s.putInfo pindex { s.pInfo pindex with devHandles := (s.pInfo pindex).devHandles ++ [⟨dev, device⟩] }

def usbDelDev (dev pindex : Nat) (s : WrapperState) : WrapperState :=
  s.putInfo pindex { s.pInfo pindex with devHandles := (s.pInfo pindex).devHandles.eraseP fun h => h.dev = dev }

/-- usb_open: the plug-in's own usb_open returns `dev`, and there is `memory` to remember
it or not. -/
def usbOpen (device dev : Nat) (memory : Bool) (s : WrapperState) : Option (Nat × WrapperState) := do
  let pindex ← openIndex s device
  if pindex < 0 then return (0, s)
  else if !checkSymHdl (s.pInfo pindex.toNat) .usbOpen then return (0, s)
  else if memory then return (dev, usbAddDev dev device pindex.toNat s)
  else return (0, s)

/-- usb_close: the plug-in's own usb_close returns `ret`. -/
def usbClose (dev : Nat) (ret : Int) (s : WrapperState) : Int × WrapperState :=
  let pindex := getPindex s dev
  if pindex < 0 then (pindex, s)
  else if !checkSymHdl (s.pInfo pindex.toNat) .usbClose then (failure, s)
  else (ret, usbDelDev dev pindex.toNat s)

/-- lookup_sym_hdl, which every other call on a handle makes: whether a function of a
plug-in is called. -/
def lookupSymHdl (dev : Nat) (sym : Sym) (s : WrapperState) : Bool × WrapperState :=
  let pindex := getPindex s dev
  if pindex < 0 then (false, s)
  else if !checkSymHdl (s.pInfo pindex.toNat) sym then (false, s)
  else (true, { s with lastPindex := pindex.toNat })

def setDevices (devices : Nat → List Nat) : List Nat → Heap UsbBus → Heap UsbBus
  | [], h => h
  | a :: l, h =>
      match h.lookup a with
      | none => setDevices devices l h
      | some bus => setDevices devices l (h.insert a { bus with devices := devices a })

/-- usb_find_devices: the plug-ins renew the devices of their busses. -/
def usbFindDevices (devices : Nat → List Nat) (s : WrapperState) : WrapperState :=
  let called := (List.range s.ploaded).filter fun i => checkSymHdl (s.pInfo i) .usbFindDevices
  { s with busses := called.foldl (fun h i => setDevices devices (s.own i) h) s.busses }

def devicesOf (s : WrapperState) (busp : Nat) : List Nat :=
  match s.busses.lookup busp with
  | none => []
  | some bus => bus.devices

/-- A device is on a bus of a plug-in. -/
def Holds (s : WrapperState) (i device : Nat) : Prop := ∃ busp ∈ s.own i, device ∈ devicesOf s busp

instance (s : WrapperState) (i device : Nat) : Decidable (Holds s i device) :=
  inferInstanceAs (Decidable (∃ busp ∈ s.own i, _))

structure Session where
  state : WrapperState
  owner : Nat → Option Nat

inductive Op
  | usbInit (dir : Directory)
  | usbFindBusses (found : Nat → Search)
  | usbFindDevices (devices : Nat → List Nat)
  | usbOpen (device dev : Nat) (memory : Bool)
  | usbClose (dev : Nat) (ret : Int)
  | lookupSymHdl (dev : Nat) (sym : Sym)

def holder (s : WrapperState) (device : Nat) : Option Nat := (List.range s.ploaded).find? fun i => Holds s i device

def step : Op → Session → Option Session
  | .usbInit dir, x => (Startup.usbInit dir x.state).map fun s => { x with state := s }
  | .usbFindBusses found, x => (FindBusses.usbFindBusses found x.state).map fun r => { x with state := r.2 }
  | .usbFindDevices devices, x => some { x with state := Routing.usbFindDevices devices x.state }
  | .usbOpen device dev memory, x => (Routing.usbOpen device dev memory x.state).map fun (r, s) =>
      ⟨s, if r = 0 then x.owner else Function.update x.owner r (holder x.state device)⟩
  | .usbClose dev ret, x =>
      let pindex := getPindex x.state dev
      let (_, s) := Routing.usbClose dev ret x.state
      -- without a usb_close of the plug-in the handle stays open
      some ⟨s, if 0 ≤ pindex && checkSymHdl (x.state.pInfo pindex.toNat) .usbClose then Function.update x.owner dev none else x.owner⟩
  | .lookupSymHdl dev sym, x => some { x with state := (Routing.lookupSymHdl dev sym x.state).2 }

def blankState : WrapperState where
  ploaded := 0
  lastPindex := 0
  activeIndex := 0
  exclusiveIndex := 0
  headBusp := 0
  usbBusses := 0
  pInfo := fun _ => ⟨false, false, false, false, [], 0, fun _ => false⟩
  busses := ∅
  own := fun _ => []

def blankSession : Session := ⟨blankState, fun _ => none⟩

end OiUserland.Wrapper.Routing
