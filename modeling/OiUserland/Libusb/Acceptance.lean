import OiUserland.Libusb.Bounds

namespace OiUserland.Libusb.Acceptance

open Lib.Faults Lib.LengthChains Descriptors Decoding Scans Configs Bounds

section Verdicts

/-- How a result answers a check: success means that the check holds, and without a lack
of memory what holds is a success. -/
def Verdict (granted fine : Prop) (rval : Int) : Prop := (rval = 0 → fine) ∧ (granted → fine → rval = 0)

variable {G F F' : Prop} {rval : Int}

theorem Verdict.congr (h : Verdict G F rval) (hF : F ↔ F') : Verdict G F' rval :=
  ⟨fun h0 => hF.mp (h.1 h0), fun hg hf => h.2 hg (hF.mpr hf)⟩

variable {σ η : Type} {fill : Nat → σ → η → Run (Int × σ × η)}

end Verdicts

def Ends (p : Place) : Prop := usbFindExtra p ≠ .error .endless

theorem Ends.found {p : Place} (h : Ends p) (hp : Inside p) (hpos : 0 < p.2) :
    ∃ e, usbFindExtra p = .ok e ∧ Inside e := by
  have hens := usbFindExtra_ensures hp hpos
  rw [Ends] at h
  cases hrun : usbFindExtra p with
  | error fault =>
      rw [hrun] at hens h
      exact absurd (congrArg Except.error (show fault = .endless from hens)) h
  | ok e =>
      rw [hrun] at hens
      exact ⟨e, rfl, hens⟩

def Whole (p : Place) (i a : Nat) (q : Place) : Prop := (chain 3 p).find? (isIf i a) = some q ∧ 9 ≤ q.2

def Counted (p : Place) (i a : Nat) : Prop := a < usbMaxaltsetting ∧ ∀ b ≤ a, ∃ q, Whole p i b q

def endpointCount (q : Place) : Nat := peek q 4

def OrderlyInterface (p : Place) (i : Nat) : Prop :=
  ∀ a q, (chain 3 p).find? (isIf i a) = some q → Ends q ∧ ∀ r ∈ endpointsOf q, Ends r

def FilledEndpoint (r : Place) (garbage : UsbEpDescr) (slot : UsbEndpointDescriptor) : Prop :=
  slot.descr = (decode sizeofEp epFormat r 0).1.foldl UsbEpDescr.store garbage

def BuiltAlternate (p : Place) (garbage : Nat → UsbEpDescr) (i a : Nat) (alt : UsbInterfaceDescriptor) : Prop :=
  ∃ q, Whole p i a q ∧ alt.descr.bNumEndpoints = endpointCount q ∧
    (endpointCount q ≠ 0 → ∃ b, alt.endpoint = some b ∧ b.cells.length = endpointCount q ∧
      ∀ e slot, b.cells[e]? = some slot → ∀ r, (endpointsOf q)[e]? = some r → FilledEndpoint r (garbage e) slot)

def BuiltInterface (p : Place) (garbage : Nat → Nat → UsbEpDescr) (i : Nat) (iface : UsbInterface) : Prop :=
  ∃ b, iface.altsetting = some b ∧ b.cells.length = iface.numAltsetting ∧
    ∀ a alt, b.cells[a]? = some alt → BuiltAlternate p (garbage a) i a alt

section Levels

variable {env : Env} {p q : Place} {index i a e : Nat}

end Levels

end OiUserland.Libusb.Acceptance
