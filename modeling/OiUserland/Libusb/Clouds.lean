import OiUserland.Libusb.Bounds

namespace OiUserland.Libusb.Clouds

open Descriptors Configs

structure Endpoint where
  bytes : List UInt8
  extra : List (List UInt8)

structure Alternate where
  bytes : List UInt8
  extra : List (List UInt8)
  endpoints : List Endpoint

structure Interface where
  alternates : List Alternate

structure Configuration where
  bytes : List UInt8
  extra : List (List UInt8)
  interfaces : List Interface

def field (d : List UInt8) (i : Nat) : Nat := (d[i]?.map UInt8.toNat).getD 0

def Endpoint.pieces (e : Endpoint) : List (List UInt8) := e.bytes :: e.extra

def Alternate.pieces (a : Alternate) : List (List UInt8) := a.bytes :: (a.extra ++ a.endpoints.flatMap Endpoint.pieces)

def Interface.pieces (i : Interface) : List (List UInt8) := i.alternates.flatMap Alternate.pieces

def Configuration.pieces (c : Configuration) : List (List UInt8) :=
  c.bytes :: (c.extra ++ c.interfaces.flatMap Interface.pieces)

def Configuration.cloud (c : Configuration) : List UInt8 := c.pieces.flatten

structure IsStandard (size type : Nat) (d : List UInt8) : Prop where
  size_le : size ≤ d.length
  length : field d 0 = d.length
  type : field d 1 = type

structure IsClass (d : List UInt8) : Prop where
  size_le : 2 ≤ d.length
  length : field d 0 = d.length
  not_cfg : field d 1 ≠ usbDescrTypeCfg
  not_if : field d 1 ≠ usbDescrTypeIf
  not_ep : field d 1 ≠ usbDescrTypeEp

structure Endpoint.WellFormed (e : Endpoint) : Prop where
  descr : IsStandard 7 usbDescrTypeEp e.bytes
  extra : ∀ d ∈ e.extra, IsClass d

structure Alternate.WellFormed (i a : Nat) (alt : Alternate) : Prop where
  descr : IsStandard 9 usbDescrTypeIf alt.bytes
  interface : field alt.bytes 2 = i
  setting : field alt.bytes 3 = a
  count : field alt.bytes 4 = alt.endpoints.length
  extra : ∀ d ∈ alt.extra, IsClass d
  endpoints : ∀ e ∈ alt.endpoints, e.WellFormed

structure Configuration.WellFormed (c : Configuration) : Prop where
  descr : IsStandard 9 usbDescrTypeCfg c.bytes
  total : field c.bytes 2 + 256 * field c.bytes 3 = c.cloud.length
  count : field c.bytes 4 = c.interfaces.length
  extra : ∀ d ∈ c.extra, IsClass d
  nonempty : ∀ i ∈ c.interfaces, i.alternates ≠ []
  alternates : ∀ (i : Nat) (iface : Interface), c.interfaces[i]? = some iface →
    ∀ (a : Nat) (alt : Alternate), iface.alternates[a]? = some alt → alt.WellFormed i a

structure EndpointView where
  descr : UsbEpDescr
  extra : List UInt8
  extralen : Nat
  deriving DecidableEq

structure AlternateView where
  descr : UsbIfDescr
  extra : List UInt8
  extralen : Nat
  endpoints : List EndpointView
  deriving DecidableEq

structure InterfaceView where
  numAltsetting : Nat
  alternates : List AlternateView
  deriving DecidableEq

structure ConfigView where
  descr : UsbCfgDescr
  extra : List UInt8
  extralen : Nat
  interfaces : List InterfaceView
  deriving DecidableEq

def cells {α : Type} (b : Option (Block α)) : List α := b.elim [] Block.cells

def viewEndpoint (e : UsbEndpointDescriptor) : EndpointView := ⟨e.descr, cells e.extra, e.extralen⟩

def viewAlternate (a : UsbInterfaceDescriptor) : AlternateView :=
  ⟨a.descr, cells a.extra, a.extralen, (cells a.endpoint).map viewEndpoint⟩

def viewInterface (i : UsbInterface) : InterfaceView := ⟨i.numAltsetting, (cells i.altsetting).map viewAlternate⟩

def viewConfig (c : UsbConfigDescriptor) : ConfigView :=
  ⟨c.descr, cells c.extra, c.extralen, (cells c.interface).map viewInterface⟩

def epDescr (d : List UInt8) : UsbEpDescr :=
  ⟨field d 0, field d 1, field d 2, field d 3, field d 4 + 256 * field d 5, field d 6, field d 7, field d 8⟩

def ifDescr (d : List UInt8) : UsbIfDescr :=
  ⟨field d 0, field d 1, field d 2, field d 3, field d 4, field d 5, field d 6, field d 7, field d 8⟩

def cfgDescr (d : List UInt8) : UsbCfgDescr :=
  ⟨field d 0, field d 1, field d 2 + 256 * field d 3, field d 4, field d 5, field d 6, field d 7, field d 8⟩

def Endpoint.tree (e : Endpoint) : EndpointView := ⟨epDescr e.bytes, e.extra.flatten, e.extra.flatten.length⟩

def Alternate.tree (a : Alternate) : AlternateView :=
  ⟨ifDescr a.bytes, a.extra.flatten, a.extra.flatten.length, a.endpoints.map Endpoint.tree⟩

def Interface.tree (i : Interface) : InterfaceView := ⟨i.alternates.length, i.alternates.map Alternate.tree⟩

def Configuration.tree (c : Configuration) : ConfigView :=
  ⟨cfgDescr c.bytes, c.extra.flatten, c.extra.flatten.length, c.interfaces.map Interface.tree⟩

end OiUserland.Libusb.Clouds
