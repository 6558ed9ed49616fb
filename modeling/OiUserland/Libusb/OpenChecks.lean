import OiUserland.Libusb.Acceptance
import OiUserland.Libusb.InterfaceClaims

namespace OiUserland.Libusb.OpenChecks

open Lib.Faults Lib.LengthChains Descriptors Decoding Scans Configs Bounds Handles HandleSteps Acceptance

structure Returned where
  device : Transfer
  config : Nat → Transfer
  cloud : Nat → Transfer

namespace Returned

variable (d : Returned) (index : Nat)

def env (grant : Nat → Bool) (stack : Nat → Nat → Nat → Nat → UsbEpDescr) : Env :=
  ⟨grant, d.device, d.config, d.cloud, stack⟩

def header : List UInt8 := (d.config index).bytes usbCfgDescrSize

def total : Nat := totalLength (d.header index)

def bytes : List UInt8 := (d.cloud index).bytes (d.total index)

def place : Place := (d.bytes index, totalAfter (d.total index) (d.total index) (d.bytes index))

def interfaces : Nat := interfacesAfter (numInterfaces (d.header index)) (d.total index) (d.bytes index)

def configurations : Nat := peek (d.device.bytes usbDevDescrSize, 0) 17

end Returned

/-- The lengths of the two reads agree, and no scan goes round forever. -/
structure OrderlyConfig (d : Returned) (index : Nat) : Prop where
  agrees : Confined (d.total index) (d.header index) (d.bytes index)
  header : Ends (d.header index, usbCfgDescrSize)
  cloud : Ends (d.bytes index, d.total index)
  interfaces : ∀ i < d.interfaces index, OrderlyInterface (d.place index) i

def Orderly (d : Returned) : Prop := ∀ index < d.configurations, OrderlyConfig d index

def Lacking (d : Returned) : Prop :=
  ∃ index < d.configurations, ∃ i < d.interfaces index, (¬∃ q, Whole (d.place index) i 0 q) ∨
    ∃ a q, Whole (d.place index) i a q ∧ (endpointsOf q).length < endpointCount q

def BuiltConfig (d : Returned) (index : Nat) (garbage : Nat → Nat → Nat → UsbEpDescr) (config : UsbConfigDescriptor) :
    Prop :=
  ∃ b, config.interface = some b ∧ b.cells.length = d.interfaces index ∧
    ∀ i iface, b.cells[i]? = some iface → BuiltInterface (d.place index) (garbage i) i iface

section Levels

variable {d : Returned} {index : Nat} {grant : Nat → Bool} {stack : Nat → Nat → Nat → Nat → UsbEpDescr}

def BuiltDevice (d : Returned) (stack : Nat → Nat → Nat → Nat → UsbEpDescr) (dev : UsbDevice) : Prop :=
  ∃ b, dev.config = some b ∧ b.cells.length = d.configurations ∧
    ∀ index config, b.cells[index]? = some config → BuiltConfig d index (stack index) config

end Levels

section Open

variable {d : Returned} {stack : Nat → Nat → Nat → Nat → UsbEpDescr} {s s' : UsbState} {answers : OpenAnswers} {r : Nat}

def FilledAlternate (p : Place) (garbage : Nat → UsbEpDescr) (i a : Nat) (alt : UsbInterfaceDescriptor) : Prop :=
  ∃ q, Whole p i a q ∧ alt.descr.bNumEndpoints = endpointCount q ∧
    (endpointCount q ≠ 0 → ∃ b, alt.endpoint = some b ∧ b.cells.length = endpointCount q ∧
      ∀ e slot, b.cells[e]? = some slot → ∃ r, (endpointsOf q)[e]? = some r ∧ FilledEndpoint r (garbage e) slot)

structure Filled (d : Returned) (stack : Nat → Nat → Nat → Nat → UsbEpDescr) (dev : UsbDevice) : Prop where
  built : BuiltDevice d stack dev
  alternates : ∀ b index config, dev.config = some b → b.cells[index]? = some config →
    ∀ bi i iface, config.interface = some bi → bi.cells[i]? = some iface →
    ∀ ba a alt, iface.altsetting = some ba → ba.cells[a]? = some alt →
      FilledAlternate (d.place index) (stack index i a) i a alt

/-- A device that is opened has all of its endpoints, and one that lacks an interface
or an endpoint is not opened and keeps no tree. -/
def Holds (d : Returned) : Prop :=
  ∀ grant stack (answers : OpenAnswers) (s s' : UsbState) r, s.device.config = none →
    answers.setup = d.env grant stack → usbOpen answers s = some (r, s') →
    (r ≠ 0 → Filled d stack s'.device) ∧ (Lacking d → r = 0 ∧ s'.device.config = none)

instance (p : Place) : Decidable (Ends p) := inferInstanceAs (Decidable (¬_))

end Open

end OiUserland.Libusb.OpenChecks
