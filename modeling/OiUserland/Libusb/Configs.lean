import OiUserland.Libusb.Descriptors

namespace OiUserland.Libusb.Configs

open Lib.Faults Lib.LengthChains Descriptors

def eio : Int := 5
def enomem : Int := 12

structure Block (α : Type) where
  addr : Nat
  cells : List α
  deriving DecidableEq

structure UsbEndpointDescriptor where
  descr : UsbEpDescr
  extra : Option (Block UInt8)
  extralen : Nat
  deriving DecidableEq

structure UsbInterfaceDescriptor where
  descr : UsbIfDescr
  endpoint : Option (Block UsbEndpointDescriptor)
  extra : Option (Block UInt8)
  extralen : Nat
  deriving DecidableEq

structure UsbInterface where
  altsetting : Option (Block UsbInterfaceDescriptor)
  numAltsetting : Nat
  deriving DecidableEq

structure UsbConfigDescriptor where
  descr : UsbCfgDescr
  interface : Option (Block UsbInterface)
  extra : Option (Block UInt8)
  extralen : Nat
  deriving DecidableEq

/-- The part of a usb_device that setting up the configurations is about. -/
structure UsbDevice where
  descriptor : UsbDeviceDescriptor
  config : Option (Block UsbConfigDescriptor)
  deriving DecidableEq

def UsbEndpointDescriptor.zero : UsbEndpointDescriptor := ⟨⟨0, 0, 0, 0, 0, 0, 0, 0⟩, none, 0⟩
def UsbInterfaceDescriptor.zero : UsbInterfaceDescriptor := ⟨⟨0, 0, 0, 0, 0, 0, 0, 0, 0⟩, none, none, 0⟩
def UsbInterface.zero : UsbInterface := ⟨none, 0⟩
def UsbConfigDescriptor.zero : UsbConfigDescriptor := ⟨⟨0, 0, 0, 0, 0, 0, 0, 0⟩, none, none, 0⟩

/-- The outcome of usb_control_msg: a negative errno or the bytes received. -/
inductive Transfer
  | failed (errno : Nat)
  | received (bytes : List UInt8)
  deriving DecidableEq

def Transfer.bytes (size : Nat) : Transfer → List UInt8
  | .failed _ => []
  | .received bytes => bytes.take size

def Transfer.rval (size : Nat) : Transfer → Int
  | .failed errno => -errno
  | .received bytes => (bytes.take size).length

/-- What the setup meets: which allocations are granted, by their number, what the
device returns, and what happens to be in the uninitialised structure of an
endpoint, by configuration, interface, alternate and endpoint. -/
structure Env where
  grant : Nat → Bool
  device : Transfer
  config : Nat → Transfer
  cloud : Nat → Transfer
  stack : Nat → Nat → Nat → Nat → UsbEpDescr

/-- The allocations so far. Those of calloc are all attached to the tree at once. -/
structure Heap where
  asked : Nat
  attached : List Nat
  clouds : List Nat
  deriving DecidableEq

section Setup

variable (env : Env)

def calloc {α : Type} (cells : List α) (h : Heap) : Option (Block α) × Heap :=
  if env.grant h.asked then (some ⟨h.asked, cells⟩, ⟨h.asked + 1, h.asked :: h.attached, h.clouds⟩)
  else (none, ⟨h.asked + 1, h.attached, h.clouds⟩)

def malloc (h : Heap) : Option Nat × Heap :=
  if env.grant h.asked then (some h.asked, ⟨h.asked + 1, h.attached, h.asked :: h.clouds⟩)
  else (none, ⟨h.asked + 1, h.attached, h.clouds⟩)

def freeCloud (addr : Nat) (h : Heap) : Heap := ⟨h.asked, h.attached, h.clouds.erase addr⟩

def memcpy (src : Place) : Run (List UInt8) :=
  if src.2 ≤ src.1.length then pure (src.1.take src.2) else .error .badRead

def copyExtra (src : Place) (extra : Option (Block UInt8)) (extralen : Nat) (h : Heap) :
    Run (Int × Option (Block UInt8) × Nat × Heap) :=
  if src.2 = 0 then pure (0, extra, extralen, h)
  else
    match calloc env (List.replicate src.2 0) h with
    | (none, h) => pure (enomem, none, extralen, h)
    | (some b, h) => do
        let bytes ← memcpy src
        pure (0, some ⟨b.addr, bytes⟩, src.2, h)

def usbParseEndpoint (index iface alt : Nat) (cloud : Place) (ep : Nat) (slot : UsbEndpointDescriptor) (h : Heap) :
    Run (Int × UsbEndpointDescriptor × Heap) := do
  match ← usbParseEpDescr cloud iface alt ep (env.stack index iface alt ep) with
  | none => pure (0, slot, h)
  | some (rval, descr, src) =>
      if rval < usbEpDescrSize then pure (rval, slot, h)
      else
        let (err, extra, extralen, h) ← copyExtra env src slot.extra slot.extralen h
        pure (err, ⟨descr, extra, extralen⟩, h)

def parseEndpoints (index iface alt : Nat) (cloud : Place) (slot : UsbInterfaceDescriptor) (h : Heap) :
    Run (Int × UsbInterfaceDescriptor × Heap) :=
  let n := slot.descr.bNumEndpoints
  if n = 0 then pure (0, slot, h)
  else
    match calloc env (List.replicate n UsbEndpointDescriptor.zero) h with
    | (none, h) => pure (enomem, { slot with endpoint := none }, h)
    | (some b, h) => do
        let (rval, endpoints, h) ← eachSlot (usbParseEndpoint env index iface alt cloud) 0 n b.cells h
        pure (rval, { slot with endpoint := some ⟨b.addr, endpoints⟩ }, h)

def usbParseAlternate (index iface : Nat) (cloud : Place) (alt : Nat) (slot : UsbInterfaceDescriptor) (h : Heap) :
    Run (Int × UsbInterfaceDescriptor × Heap) := do
  -- a local structure, which counts only once all of it has been filled
  match ← usbParseIfDescr cloud iface alt UsbInterfaceDescriptor.zero.descr with
  | none => pure (eio, slot, h)
  | some (rval, descr, src) =>
      if rval ≠ sizeofIf then pure (eio, slot, h)
      else
        let (err, extra, extralen, h) ← copyExtra env src slot.extra slot.extralen h
        let slot := ⟨descr, slot.endpoint, extra, extralen⟩
        if err ≠ 0 then pure (err, slot, h)
        else parseEndpoints env index iface alt cloud slot h

def usbMaxaltsetting : Nat := 128

def countAlternates (cloud : Place) (iface : Nat) : (k alt maxAlt : Nat) → Run Nat
  | 0, _, maxAlt => pure maxAlt
  | k + 1, alt, maxAlt => do
      match ← usbParseIfDescr cloud iface alt UsbInterfaceDescriptor.zero.descr with
      | none => pure maxAlt
      | some (rval, _, _) =>
          if rval ≠ sizeofIf then pure maxAlt else countAlternates cloud iface k (alt + 1) alt

def usbParseInterface (index : Nat) (cloud : Place) (iface : Nat) (slot : UsbInterface) (h : Heap) :
    Run (Int × UsbInterface × Heap) := do
  let maxAlt ← countAlternates cloud iface usbMaxaltsetting 0 0
  let n := maxAlt + 1
  match calloc env (List.replicate n UsbInterfaceDescriptor.zero) h with
  | (none, h) => pure (enomem, { slot with altsetting := none }, h)
  | (some b, h) =>
      let (rval, alternates, h) ← eachSlot (usbParseAlternate env index iface cloud) 0 n b.cells h
      pure (rval, ⟨some ⟨b.addr, alternates⟩, n⟩, h)

def parseInterfaces (index : Nat) (cloud : List UInt8) (slot : UsbConfigDescriptor) (h : Heap) :
    Run (Int × UsbConfigDescriptor × Heap) :=
  let n := slot.descr.bNumInterfaces
  match calloc env (List.replicate n UsbInterface.zero) h with
  | (none, h) => pure (enomem, { slot with interface := none }, h)
  | (some b, h) => do
      let (rval, interfaces, h) ←
        eachSlot (usbParseInterface env index (cloud, slot.descr.wTotalLength)) 0 n b.cells h
      pure (rval, { slot with interface := some ⟨b.addr, interfaces⟩ }, h)

/-- usb_parse_config once the cloud is there. The header is parsed again. Where that
fails, `extra` is still what the first parse has found. -/
def parseCloud (index : Nat) (cloud : List UInt8) (extra : Place) (slot : UsbConfigDescriptor) (h : Heap) :
    Run (Int × UsbConfigDescriptor × Heap) := do
  let header ← usbParseCfgDescr (cloud, slot.descr.wTotalLength) slot.descr
  let (descr, src) := header.elim (slot.descr, extra) Prod.snd
  let (err, extra, extralen, h) ← copyExtra env src slot.extra slot.extralen h
  let slot := ⟨descr, slot.interface, extra, extralen⟩
  if err ≠ 0 then pure (err, slot, h) else parseInterfaces env index cloud slot h

def usbParseConfig (index : Nat) (slot : UsbConfigDescriptor) (h : Heap) :
    Run (Int × UsbConfigDescriptor × Heap) := do
  if (env.config index).rval usbCfgDescrSize < usbCfgDescrSize then pure (eio, slot, h)
  else
    match ← usbParseCfgDescr ((env.config index).bytes usbCfgDescrSize, usbCfgDescrSize) slot.descr with
    | none => pure (eio, slot, h)
    | some (rval, descr, extra) =>
        let slot := { slot with descr := descr }
        if rval < usbCfgDescrSize then pure (eio, slot, h)
        else
          match malloc env h with
          | (none, h) => pure (enomem, slot, h)
          | (some addr, h) =>
              let total := descr.wTotalLength
              if (env.cloud index).rval total ≠ total then pure (eio, slot, freeCloud addr h)
              else
                let (rval, slot, h) ← parseCloud env index ((env.cloud index).bytes total) extra slot h
                pure (rval, slot, freeCloud addr h)

def parseConfigs (dev : UsbDevice) (h : Heap) : Run (Int × UsbDevice × Heap) :=
  let n := dev.descriptor.bNumConfigurations
  match calloc env (List.replicate n UsbConfigDescriptor.zero) h with
  | (none, h) => pure (enomem, { dev with config := none }, h)
  | (some b, h) => do
      let (rval, configs, h) ← eachSlot (usbParseConfig env) 0 n b.cells h
      pure (rval, { dev with config := some ⟨b.addr, configs⟩ }, h)

def usbSetupAllConfigs (dev : UsbDevice) (h : Heap) : Run (Int × UsbDevice × Heap) := do
  if dev.config.isSome then pure (0, dev, h)
  else if env.device.rval usbDevDescrSize ≠ usbDevDescrSize then pure (eio, dev, h)
  else
    match ← usbParseDevDescr (env.device.bytes usbDevDescrSize, usbDevDescrSize) dev.descriptor with
    | none => pure (eio, dev, h)
    | some (rval, descriptor) =>
        let dev := { dev with descriptor := descriptor }
        if rval ≠ sizeofDev then pure (eio, dev, h) else parseConfigs env dev h

end Setup

/-- free of a pointer, which may be NULL. -/
def free {α : Type} (p : Option (Block α)) : List Nat := (p.map Block.addr).toList

def usbFreeAlternate (alt : UsbInterfaceDescriptor) : List Nat :=
  match alt.endpoint with
  | none => []
  | some endpoint =>
      ((List.range alt.descr.bNumEndpoints).flatMap fun _ => if alt.extralen ≠ 0 then free alt.extra else []) ++
        (if alt.extralen ≠ 0 then free alt.extra else []) ++ [endpoint.addr]

def visited {α : Type} (n : Nat) (b : Block α) : List α := b.cells.take n

def usbFreeInterface (iface : UsbInterface) : List Nat :=
  match iface.altsetting with
  | none => []
  | some b => (visited iface.numAltsetting b).flatMap usbFreeAlternate ++ [b.addr]

def usbFreeConfig (config : UsbConfigDescriptor) : List Nat :=
  match config.interface with
  | none => []
  | some b =>
      (visited config.descr.bNumInterfaces b).flatMap usbFreeInterface ++
        (if config.extralen ≠ 0 then free config.extra else []) ++ [b.addr]

/-- usb_free_all_configs: what is freed, and the device without a tree. -/
def usbFreeAllConfigs (dev : UsbDevice) : List Nat × UsbDevice :=
  match dev.config with
  | none => ([], dev)
  | some b =>
      ((visited dev.descriptor.bNumConfigurations b).flatMap usbFreeConfig ++ [b.addr],
        { dev with config := none })

end OiUserland.Libusb.Configs
