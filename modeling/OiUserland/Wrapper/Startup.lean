import OiUserland.Lib.Chains
import OiUserland.Lib.CStrings

namespace OiUserland.Wrapper.Plugins

open Lib.Chains

def failure : Int := -1

inductive Sym
  | usbOpen | usbClose | usbGetString | usbGetStringSimple | usbGetDescriptorByEndpoint | usbGetDescriptor
  | usbBulkWrite | usbBulkRead | usbInterruptWrite | usbInterruptRead | usbControlMsg | usbSetConfiguration
  | usbClaimInterface | usbReleaseInterface | usbSetAltinterface | usbResetep | usbClearHalt | usbReset
  | usbInit | usbSetDebug | usbFindBusses | usbFindDevices | usbDevice | usbGetBusses | usbStrerror | usbBusses
  | libusbInit | libusbFini | libusbVersion
  deriving DecidableEq

/-- A bus in the memory of a plug-in. An address of 0 is NULL. -/
structure UsbBus where
  next : Nat
  devices : List Nat

structure DevHandle where
  dev : Nat
  device : Nat
  deriving DecidableEq

/-- A name, a handle or a symbol is only ever compared with NULL. -/
structure PluginInfo where
  pName : Bool
  pHandle : Bool
  exclusiveFlag : Bool
  activeFlag : Bool
  devHandles : List DevHandle
  busp : Nat
  symHdl : Sym → Bool

/-- The wrapper with the memory of its plug-ins. `own` is the list of busses that each
plug-in keeps: its own `usb_busses` points to the first of them. -/
structure WrapperState where
  ploaded : Nat
  lastPindex : Nat
  activeIndex : Int
  exclusiveIndex : Int
  headBusp : Nat
  usbBusses : Nat
  pInfo : Nat → PluginInfo
  busses : Heap UsbBus
  own : Nat → List Nat

def WrapperState.putInfo (s : WrapperState) (pindex : Nat) (info : PluginInfo) : WrapperState :=
  { s with pInfo := Function.update s.pInfo pindex info }

abbrev WrapperState.link (s : WrapperState) : Nat → Option Nat := linkOf UsbBus.next s.busses

def checkSymHdl (info : PluginInfo) (sym : Sym) : Bool := info.pHandle && info.symHdl sym

section Memory

def setNext (a b : Nat) (h : Heap UsbBus) : Heap UsbBus :=
  match h.lookup a with
  | none => h
  | some bus => h.insert a { bus with next := b }

variable {h : Heap UsbBus} {a b c : Nat}

theorem link_setNext (ha : (linkOf UsbBus.next h a).isSome) : linkOf UsbBus.next (setNext a b h) a = some b := by
  obtain ⟨bus, hbus⟩ : ∃ bus, h.lookup a = some bus := by
    rwa [linkOf, Option.isSome_map, Option.isSome_iff_exists] at ha
  rw [setNext, hbus]
  exact linkOf_insert ..

theorem link_setNext_ne (hc : c ≠ a) : linkOf UsbBus.next (setNext a b h) c = linkOf UsbBus.next h c := by
  rw [setNext]
  split
  · rfl
  · exact linkOf_insert_ne hc

theorem isSome_setNext : (linkOf UsbBus.next (setNext a b h) c).isSome = (linkOf UsbBus.next h c).isSome := by
  by_cases hc : c = a
  · subst hc
    cases hlink : linkOf UsbBus.next h c with
    | none =>
        have hnone : h.lookup c = none := Option.map_eq_none_iff.mp hlink
        rw [setNext, hnone, hlink]
    | some n => rw [link_setNext (by rw [hlink]; rfl), Option.isSome_some, Option.isSome_some]
  · rw [link_setNext_ne hc]

theorem devices_setNext : ((setNext a b h).lookup c).map UsbBus.devices = (h.lookup c).map UsbBus.devices := by
  rw [setNext]
  split
  · rfl
  · rename_i bus hbus
    by_cases hc : c = a
    · subst hc
      rw [AList.lookup_insert, hbus, Option.map_some, Option.map_some]
    · rw [AList.lookup_insert_ne hc]

end Memory

end OiUserland.Wrapper.Plugins

namespace OiUserland.Wrapper.FindBusses

open Lib.Chains Plugins

/-- What a call of a plug-in's own usb_find_busses leads to: the busses it then has, with
the devices of new ones, and what it returns. -/
structure Search where
  list : List Nat
  devices : Nat → List Nat
  ret : Int

def allocate (devices : Nat → List Nat) : List Nat → Heap UsbBus → Heap UsbBus
  | [], h => h
  | a :: l, h => allocate devices l (h.insert a ⟨0, devices a⟩)

def linkUp : List Nat → Heap UsbBus → Heap UsbBus
  | [], h => h
  | [_], h => h
  | a :: b :: l, h => linkUp (b :: l) (setNext a b h)

def search (found : Search) (old : List Nat) (h : Heap UsbBus) : Heap UsbBus :=
  linkUp found.list (allocate found.devices (found.list.filter fun a => a ∉ old) h)

def lastBus (h : Heap UsbBus) (a : Nat) : Option Nat := endOf (linkOf UsbBus.next h) h.keys.length a

/-- The first loop of usb_find_busses, over the indices of the plug-ins: whether a pointer
to busses has been found, and the sum of what has been returned. -/
def findEach (found : Nat → Search) : List Nat → WrapperState → Bool × Int × WrapperState
  | [], s => (false, 0, s)
  | pindex :: rest, s =>
      let info := s.pInfo pindex
      if checkSymHdl info .usbFindBusses then
        if checkSymHdl info .usbBusses then
          let busp := (found pindex).list.headD 0
          let t := { s.putInfo pindex { info with busp } with
            busses := search (found pindex) (s.own pindex) s.busses
            own := Function.update s.own pindex (found pindex).list
            lastPindex := pindex }
          let (_, ret, t) := findEach found rest t
          (true, (found pindex).ret + ret, t)
        else
          let (any, ret, t) := findEach found rest (s.putInfo pindex { info with busp := 0 })
          (any, (found pindex).ret + ret, t)
      else findEach found rest s

/-- The second loop: the busses of the plug-ins are put behind each other. `tmp` is NULL
before the first bus, and then `last` is the last bus so far. -/
def splice (tmp last head : Nat) : List Nat → Heap UsbBus → Option (Nat × Heap UsbBus)
  | [], h => some (head, h)
  | busp :: rest, h =>
      if tmp = 0 then
        if busp = 0 then splice tmp last head rest h
        else (lastBus h busp).bind fun last => splice busp last busp rest h
      else if busp = 0 then splice tmp last head rest h
      else (lastBus (setNext last busp h) busp).bind fun e => splice tmp e head rest (setNext last busp h)

def dumpBusses (h : Heap UsbBus) (busp : Nat) : Option Unit :=
  if busp = 0 then some () else (lastBus h busp).map fun _ => ()

/-- usb_find_busses. It does not return from a list without an end. -/
def usbFindBusses (found : Nat → Search) (s : WrapperState) : Option (Int × WrapperState) :=
  let (any, ret, s) := findEach found (List.range s.ploaded) s
  if !any then some (failure, s)
  else do
    let (head, busses) ← splice 0 0 s.headBusp ((List.range s.ploaded).map fun pindex => (s.pInfo pindex).busp) s.busses
    dumpBusses busses head
    some (ret, { s with busses, headBusp := head, usbBusses := head })

end OiUserland.Wrapper.FindBusses

namespace OiUserland.Wrapper.Startup

open Lib.CStrings Plugins

def success : Int := 0
def pluginExclusive : Int := 2
def maxPlugins : Nat := 10
def maxVersionLen : Nat := 512

def atoi (s : List Char) : Int := (strtol s).1.bmod (2 ^ 32)

def strtok (delim : Char) (s : List Char) : Option (List Char) :=
  match s.dropWhile (· = delim) with
  | [] => none
  | c :: t => some ((c :: t).takeWhile (· ≠ delim))

def libusbWrapperVersion : List Char := ['1', '.', '1']

def mismatch (version : List Char) : Option Bool := do
  let token ← strtok '.' (version.take maxVersionLen)
  let wrToken ← strtok '.' libusbWrapperVersion
  return atoi token ≠ atoi wrToken

/-- The shared object at an index: whether dlopen succeeds, whether there is memory to look
its symbols up, what it has, what its libusb_init returns and what its libusb_version
points to. -/
structure Module where
  opens : Bool
  memory : Bool
  exports : Sym → Bool
  init : Int
  version : Option (List Char)

structure Directory where
  readable : Bool
  entries : Nat
  module : Nat → Module

def unloadPlugin (pindex : Nat) (s : WrapperState) : WrapperState :=
  let info := s.pInfo pindex
  if info.pHandle then
    s.putInfo pindex { info with
      pName := false, pHandle := false, exclusiveFlag := false, activeFlag := false, symHdl := fun _ => false }
  else s.putInfo pindex { info with pName := false, symHdl := fun _ => false }

def readPluginEntries (dir : Directory) (s : WrapperState) : WrapperState :=
  { s with pInfo := fun i => if i < dir.entries then { s.pInfo i with pName := true } else s.pInfo i }

def loadPlugin (m : Module) (pindex : Nat) (s : WrapperState) : WrapperState :=
  let info := s.pInfo pindex
  if !m.opens then s.putInfo pindex { info with pHandle := false }
  else if !m.memory then unloadPlugin pindex (s.putInfo pindex { info with pHandle := true })
  else s.putInfo pindex { info with pHandle := true, symHdl := m.exports }

/-- The loop of load_plugins from an index on, for as many plug-ins as there may still be:
the index behind the last one, and whether a module has been loaded. -/
def loadFrom (dir : Directory) : Nat → Nat → Bool → WrapperState → Nat × Bool × WrapperState
  | 0, pindex, loaded, s => (pindex, loaded, s)
  | n + 1, pindex, loaded, s =>
      if (s.pInfo pindex).pName then
        let m := dir.module pindex
        loadFrom dir n (pindex + 1) (loaded || m.opens && m.memory) (loadPlugin m pindex s)
      else (pindex, loaded, s)

def loadPlugins (dir : Directory) (s : WrapperState) : Bool × WrapperState :=
  let s := readPluginEntries dir s
  if !dir.readable || dir.entries = 0 then (false, s)
  else
    let (pindex, loaded, s) := loadFrom dir maxPlugins 0 false s
    if loaded then (true, { s with ploaded := pindex }) else (false, s)

/-- The variables of usb_init: whether a plug-in is exclusive, and the count of active ones. -/
structure Tally where
  exclusive : Bool
  activeCount : Nat

def markActive (exclusiveFlag : Bool) (pindex : Nat) (s : WrapperState) : WrapperState :=
  s.putInfo pindex { s.pInfo pindex with exclusiveFlag, activeFlag := true }

def takeAnswer (ret : Int) (pindex : Nat) (tally : Tally) (s : WrapperState) : Tally × WrapperState :=
  if ret = success then
    ({ tally with activeCount := tally.activeCount + 1 }, { markActive false pindex s with activeIndex := pindex })
  else if ret = pluginExclusive then
    if tally.exclusive then
      ({ tally with activeCount := tally.activeCount + 1 },
        markActive (s.pInfo pindex).exclusiveFlag pindex s)
    else
      (⟨true, tally.activeCount + 1⟩, { markActive true pindex s with exclusiveIndex := pindex })
  else (tally, s)

def checkVersion (m : Module) (pindex : Nat) (s : WrapperState) : Option WrapperState :=
  if checkSymHdl (s.pInfo pindex) .libusbVersion then
    match m.version with
    | none => some { s with lastPindex := pindex }
    | some version => do
        let differs ← mismatch version
        return { if differs then unloadPlugin pindex s else s with lastPindex := pindex }
  else some s

/-- The first loop of usb_init. A plug-in without a libusb_init, and one that fails, is
passed before the active index is looked at. -/
def initEach (dir : Directory) : List Nat → Tally → WrapperState → Option (Tally × WrapperState)
  | [], tally, s => some (tally, s)
  | pindex :: rest, tally, s =>
      if !(s.pInfo pindex).pHandle then initEach dir rest tally s
      else if !checkSymHdl (s.pInfo pindex) .libusbInit then
        initEach dir rest { tally with activeCount := tally.activeCount + 1 } (markActive false pindex s)
      else if (dir.module pindex).init = failure then initEach dir rest tally (unloadPlugin pindex s)
      else do
        let (tally, s) := takeAnswer (dir.module pindex).init pindex tally s
        let s ← checkVersion (dir.module pindex) pindex s
        initEach dir rest tally (if tally.activeCount ≠ 1 then { s with activeIndex := -1 } else s)

/-- The second loop. An active plug-in without a usb_init is not survived. -/
def startEach (exclusive : Bool) : List Nat → WrapperState → Option WrapperState
  | [], s => some s
  | pindex :: rest, s =>
      if !(s.pInfo pindex).pHandle then startEach exclusive rest s
      else
        let s := if exclusive && (s.pInfo pindex).exclusiveFlag then
            { s with exclusiveIndex := pindex, activeIndex := pindex }
          else s
        let s := if exclusive && !(s.pInfo pindex).exclusiveFlag then unloadPlugin pindex s else s
        if (s.pInfo pindex).activeFlag && !checkSymHdl (s.pInfo pindex) .usbInit then none
        else startEach exclusive rest s

def usbInit (dir : Directory) (s : WrapperState) : Option WrapperState :=
  if s.headBusp ≠ 0 then some s
  else
    let (ok, s) := loadPlugins dir s
    if !ok then some s
    else do
      let s := { s with exclusiveIndex := -1, activeIndex := -1, headBusp := 0 }
      let (tally, s) ← initEach dir (List.range s.ploaded) ⟨false, 0⟩ s
      startEach tally.exclusive (List.range s.ploaded) s

end OiUserland.Wrapper.Startup
