import Mathlib.Algebra.Group.Nat.Defs
import OiUserland.Lib.LengthChains

namespace OiUserland.Libusb.Descriptors

open Lib.Faults Lib.LengthChains

def usbDescrTypeDev : Nat := 1
def usbDescrTypeCfg : Nat := 2
def usbDescrTypeIf : Nat := 4
def usbDescrTypeEp : Nat := 5

def usbDevDescrSize : Nat := 18
def usbCfgDescrSize : Nat := 9
def usbEpDescrSize : Nat := 7

/-- A value that usb_parse_data has stored at an offset of a structure. -/
structure Store where
  offset : Nat
  value : Nat
  deriving DecidableEq

/-- How far usb_parse_data has come: the data and how many bytes of it are left, the
offset in the structure, the count of iterations, and what has been stored. -/
structure Cursor where
  data : List UInt8
  datalen : Nat
  structure_ : Nat
  counter : Nat
  stores : List Store

def itemSize : Char → Option Nat
  | 'c' => some 1
  | 's' => some 2
  | 'l' => some 4
  | 'L' => some 8
  | _ => none

def littleEndian : List Nat → Nat
  | [] => 0
  | b :: bs => b + 256 * littleEndian bs

def itemValue (fmt : Char) (bytes : List Nat) : Nat :=
  if fmt = 'L' then
    let low := littleEndian (bytes.take 4)
    if low < 2 ^ 31 then low else 2 ^ 64 - 2 ^ 32 + low
  else littleEndian bytes

def readBytes (buf : List UInt8) : Nat → Run (List Nat)
  | 0 => pure []
  | n + 1 => do
      let b ← byte buf 0
      let bs ← readBytes buf.tail n
      pure (b :: bs)

def align (size offset : Nat) : Nat := (offset + size - 1) / size * size

def parseItem (fmt : Char) (size structlen : Nat) (c : Cursor) : Run (Option Cursor) :=
  let sp := align size c.structure_
  if c.datalen < size ∨ structlen < sp + size ∨ (fmt = 'L' ∧ structlen = sp + size) then pure none
  else do
    let bytes ← readBytes c.data size
    pure (some ⟨c.data.drop size, c.datalen - size, sp + size, c.counter,
      c.stores ++ [⟨sp, itemValue fmt bytes⟩]⟩)

def parseItems (fmt : Char) (size structlen : Nat) : Nat → Cursor → Run (Cursor × Bool)
  | 0, c => pure (c, true)
  | n + 1, c =>
      if structlen < c.counter then pure (c, false)
      else do
        match ← parseItem fmt size structlen { c with counter := c.counter + 1 } with
        | none => pure (c, false)
        | some c => parseItems fmt size structlen n c

def parseFormat (structlen : Nat) : List Char → Nat → Cursor → Run Cursor
  | [], _, c => pure c
  | fmt :: format, multiplier, c =>
      match itemSize fmt with
      | some size => do
          let (c, more) ← parseItems fmt size structlen (max multiplier 1) c
          if more then parseFormat structlen format 0 c else pure c
      | none =>
          if fmt.isDigit ∧ ¬structlen < c.counter then
            let multiplier := multiplier * 10 + (fmt.toNat - '0'.toNat)
            if multiplier < 2 ^ 31 then parseFormat structlen format multiplier c else .error .overflow
          else pure c

/-- usb_parse_data: what is stored in a structure of `structlen` bytes, and the offset
behind it. -/
def usbParseData (format : List Char) (data : Place) (structlen : Nat) : Run (List Store × Nat) := do
  let c ← parseFormat structlen format 0 ⟨data.1, data.2, 0, 1, []⟩
  pure (c.stores, c.structure_)

/-- INCREMENT_BUF along a buffer, until a descriptor of type `descrType` has come up
`n` times before. A descriptor of type `stopDescrType` ends the search. It may be
the first one, where `first` is set. The other stop type is -1 everywhere. -/
def usbNthDescr (buf : Place) (descrType n stopDescrType : Nat) : Run (Option Place) :=
  walk 1 (fun (s : Bool × Nat) p => do
    let t ← byte p.1 1
    if s.1 = false ∧ t = stopDescrType then pure (.inr none)
    else if t = descrType then
      if s.2 = 0 then pure (.inr (some p)) else pure (.inl (false, s.2 - 1))
    else pure (.inl (false, s.2))) (true, n) buf

/-- The scan of usb_find_extra, which has come `off` bytes far from the end of the first
descriptor: the distance of the next standard descriptor. A descriptor of
length 0 is visited again and again. -/
def scanExtra (off : Nat) (next : Place) : Run (Option Nat) :=
  if _h : 1 < next.2 then do
    let t ← byte next.1 1
    if t = usbDescrTypeCfg ∨ t = usbDescrTypeIf ∨ t = usbDescrTypeEp then pure (some off)
    else
      let b ← byte next.1 0
      if _hb : b = 0 then .error .endless else scanExtra (off + b) (next.1.drop b, next.2 - b)
  else pure none
termination_by next.2

/-- usb_find_extra: `extra` and `extralen`. -/
def usbFindExtra (buf : Place) : Run Place := do
  let b ← byte buf.1 0
  let extralen ← scanExtra 0 (buf.1.drop b, buf.2 - b)
  pure (buf.1.drop b, extralen.getD 0)

structure UsbDeviceDescriptor where
  bLength : Nat
  bDescriptorType : Nat
  bcdUSB : Nat
  bDeviceClass : Nat
  bDeviceSubClass : Nat
  bDeviceProtocol : Nat
  bMaxPacketSize0 : Nat
  idVendor : Nat
  idProduct : Nat
  bcdDevice : Nat
  iManufacturer : Nat
  iProduct : Nat
  iSerialNumber : Nat
  bNumConfigurations : Nat
  deriving DecidableEq

def UsbDeviceDescriptor.store (d : UsbDeviceDescriptor) (s : Store) : UsbDeviceDescriptor :=
  match s.offset with
  | 0 => { d with bLength := s.value }
  | 1 => { d with bDescriptorType := s.value }
  | 2 => { d with bcdUSB := s.value }
  | 4 => { d with bDeviceClass := s.value }
  | 5 => { d with bDeviceSubClass := s.value }
  | 6 => { d with bDeviceProtocol := s.value }
  | 7 => { d with bMaxPacketSize0 := s.value }
  | 8 => { d with idVendor := s.value }
  | 10 => { d with idProduct := s.value }
  | 12 => { d with bcdDevice := s.value }
  | 14 => { d with iManufacturer := s.value }
  | 15 => { d with iProduct := s.value }
  | 16 => { d with iSerialNumber := s.value }
  | 17 => { d with bNumConfigurations := s.value }
  | _ => d

structure UsbCfgDescr where
  bLength : Nat
  bDescriptorType : Nat
  wTotalLength : Nat
  bNumInterfaces : Nat
  bConfigurationValue : Nat
  iConfiguration : Nat
  bmAttributes : Nat
  maxPower : Nat
  deriving DecidableEq

def UsbCfgDescr.store (d : UsbCfgDescr) (s : Store) : UsbCfgDescr :=
  match s.offset with
  | 0 => { d with bLength := s.value }
  | 1 => { d with bDescriptorType := s.value }
  | 2 => { d with wTotalLength := s.value }
  | 4 => { d with bNumInterfaces := s.value }
  | 5 => { d with bConfigurationValue := s.value }
  | 6 => { d with iConfiguration := s.value }
  | 7 => { d with bmAttributes := s.value }
  | 8 => { d with maxPower := s.value }
  | _ => d

structure UsbIfDescr where
  bLength : Nat
  bDescriptorType : Nat
  bInterfaceNumber : Nat
  bAlternateSetting : Nat
  bNumEndpoints : Nat
  bInterfaceClass : Nat
  bInterfaceSubClass : Nat
  bInterfaceProtocol : Nat
  iInterface : Nat
  deriving DecidableEq

def UsbIfDescr.store (d : UsbIfDescr) (s : Store) : UsbIfDescr :=
  match s.offset with
  | 0 => { d with bLength := s.value }
  | 1 => { d with bDescriptorType := s.value }
  | 2 => { d with bInterfaceNumber := s.value }
  | 3 => { d with bAlternateSetting := s.value }
  | 4 => { d with bNumEndpoints := s.value }
  | 5 => { d with bInterfaceClass := s.value }
  | 6 => { d with bInterfaceSubClass := s.value }
  | 7 => { d with bInterfaceProtocol := s.value }
  | 8 => { d with iInterface := s.value }
  | _ => d

structure UsbEpDescr where
  bLength : Nat
  bDescriptorType : Nat
  bEndpointAddress : Nat
  bmAttributes : Nat
  wMaxPacketSize : Nat
  bInterval : Nat
  bRefresh : Nat
  bSynchAddress : Nat
  deriving DecidableEq

def UsbEpDescr.store (d : UsbEpDescr) (s : Store) : UsbEpDescr :=
  match s.offset with
  | 0 => { d with bLength := s.value }
  | 1 => { d with bDescriptorType := s.value }
  | 2 => { d with bEndpointAddress := s.value }
  | 3 => { d with bmAttributes := s.value }
  | 4 => { d with wMaxPacketSize := s.value }
  | 6 => { d with bInterval := s.value }
  | 7 => { d with bRefresh := s.value }
  | 8 => { d with bSynchAddress := s.value }
  | _ => d

def devFormat : List Char := ['c', 'c', 's', 'c', 'c', 'c', 'c', 's', 's', 's', 'c', 'c', 'c', 'c']
def cfgFormat : List Char := ['c', 'c', 's', 'c', 'c', 'c', 'c', 'c']
def ifFormat : List Char := ['c', 'c', 'c', 'c', 'c', 'c', 'c', 'c', 'c']
def epFormat : List Char := ['c', 'c', 'c', 'c', 's', 'c', 'c', 'c']

def sizeofDev : Nat := 18
def sizeofCfg : Nat := 10
def sizeofIf : Nat := 9
def sizeofEp : Nat := 10

def usbParseDevDescr (buf : Place) (ret : UsbDeviceDescriptor) : Run (Option (Nat × UsbDeviceDescriptor)) :=
  if buf.2 < 2 then pure none
  else do
    let t ← byte buf.1 1
    if t ≠ usbDescrTypeDev then pure none
    else
      let (stores, rval) ← usbParseData devFormat buf sizeofDev
      pure (some (rval, stores.foldl .store ret))

def usbParseCfgDescr (buf : Place) (ret : UsbCfgDescr) : Run (Option (Nat × UsbCfgDescr × Place)) :=
  if buf.2 < 2 then pure none
  else do
    let t ← byte buf.1 1
    if t ≠ usbDescrTypeCfg then pure none
    else
      let (stores, rval) ← usbParseData cfgFormat buf sizeofCfg
      let extra ← usbFindExtra buf
      pure (some (rval, stores.foldl .store ret, extra))

def isInterface (ifNumber altIfSetting : Nat) (buf : List UInt8) : Run Bool := do
  let t ← byte buf 1
  if t ≠ usbDescrTypeIf then pure false
  else
    let i ← byte buf 2
    if i ≠ ifNumber then pure false
    else
      let a ← byte buf 3
      pure (a = altIfSetting)

def findInterface (buf : Place) (ifNumber altIfSetting : Nat) : Run (Option Place) :=
  walk 3 (fun (_ : Unit) p => do
    let found ← isInterface ifNumber altIfSetting p.1
    pure (if found then .inr (some p) else .inl ())) () buf

def usbParseIfDescr (buf : Place) (ifNumber altIfSetting : Nat) (ret : UsbIfDescr) :
    Run (Option (Nat × UsbIfDescr × Place)) := do
  match ← findInterface buf ifNumber altIfSetting with
  | none => pure none
  | some p =>
      let (stores, rval) ← usbParseData ifFormat p sizeofIf
      let extra ← usbFindExtra p
      pure (some (rval, stores.foldl .store ret, extra))

def usbParseEpDescr (buf : Place) (ifNumber altIfSetting epIndex : Nat) (ret : UsbEpDescr) :
    Run (Option (Nat × UsbEpDescr × Place)) := do
  match ← findInterface buf ifNumber altIfSetting with
  | none => pure none
  | some p =>
      match ← usbNthDescr p usbDescrTypeEp epIndex usbDescrTypeIf with
      | none => pure none
      | some q =>
          let (stores, rval) ← usbParseData epFormat q sizeofEp
          let extra ← usbFindExtra q
          pure (some (rval, stores.foldl .store ret, extra))

end OiUserland.Libusb.Descriptors
