import OiUserland.Lib.Bytes

namespace OiUserland.CmapCompact.SaveFile

open Lib.Layouts

/-- An XColor. The program is built for 64 bits, so a pixel has eight bytes. -/
structure XColor where
  pixel : BitVec 64
  red : BitVec 16
  green : BitVec 16
  blue : BitVec 16
  flags : BitVec 8
  pad : BitVec 8
  deriving DecidableEq

structure ScreenRecord where
  scrNum : BitVec 32
  ncolors : BitVec 32
  colors : List XColor
  deriving DecidableEq

/-- The conversion of an int to size_t. -/
def sizeT (n : BitVec 32) : Nat := (n.toInt % 2 ^ 64).toNat

/-- A record to be written: the number is that of the colors in the array. -/
structure SavedScreen extends ScreenRecord where
  counts : ncolors.toInt = colors.length
  deriving DecidableEq

def cmcMagic : BitVec 32 := 0xb0f0

def cmcVersion : BitVec 32 := 0

/-- What makes a program exit. The number that is printed for a header that has
come short is whatever the variable held. -/
inductive Fatal
  | unrecognized (number : String) (expected : BitVec 32) (actual : Option (BitVec 32))
  | prematureEof (text : String)
  | error (text : String)
  deriving DecidableEq

inductive CmcRead
  | eof
  | fatal (e : Fatal)
  | record (r : ScreenRecord) (rest : List UInt8)
  deriving DecidableEq

/-- The records that calls of cmc_read have returned, and the error they ended
with, unless it was the end of the file. -/
structure Load where
  records : List ScreenRecord
  ending : Option Fatal
  deriving DecidableEq

/-- malloc, at its `k`-th call and for `n` bytes: what the memory holds, or
nothing when there is none. -/
abbrev Malloc := Nat → Nat → Option (List UInt8)

section Program

variable (order : ByteOrder) (malloc : Malloc)

def int : Layout (BitVec 32) := word order 3

def xcolor : Layout XColor :=
  ((word order 7).prod ((word order 1).prod ((word order 1).prod ((word order 1).prod
    ((word order 0).prod (word order 0)))))).map
  { toFun := fun (pixel, red, green, blue, flags, pad) => ⟨pixel, red, green, blue, flags, pad⟩
    invFun := fun c => (c.pixel, c.red, c.green, c.blue, c.flags, c.pad)
    left_inv := fun _ => rfl
    right_inv := fun _ => rfl }

def cmcWrite (r : ScreenRecord) : List UInt8 :=
  (int order).bytes r.scrNum ++ (int order).bytes r.ncolors ++
    (xcolor order).image (r.colors.take (sizeT r.ncolors))

def cmcHeaderWrite : List UInt8 := (int order).bytes cmcMagic ++ (int order).bytes cmcVersion

def expect (number : String) (expected : BitVec 32) (f : List UInt8) : Except Fatal (List UInt8) :=
  let (value, f) := (int order).freadOne f
  if value = some expected then .ok f else .error (.unrecognized number expected value)

def cmcHeaderTest (f : List UInt8) : Except Fatal (List UInt8) :=
  (expect order "magic number" cmcMagic f).bind (expect order "version number" cmcVersion)

def cmcRead (k : Nat) (f : List UInt8) : CmcRead :=
  match (int order).freadOne f with
  | (none, _) => .eof
  | (some scrNum, f) =>
      match (int order).freadOne f with
      | (none, _) => .fatal (.prematureEof "cannot read number of saved colors")
      | (some ncolors, f) =>
          match malloc k (sizeT ncolors * (xcolor order).size % 2 ^ 64) with
          | none => .fatal (.error "not enough memory")
          | some memory =>
              let (count, memory, f) := fread (xcolor order).size (sizeT ncolors) memory f
              if count = 0 then .fatal (.prematureEof "cannot read saved colors")
              else .record ⟨scrNum, ncolors, (xcolor order).values (sizeT ncolors) memory⟩ f

theorem cmcRead_length {k : Nat} {f rest : List UInt8} {r : ScreenRecord}
    (h : cmcRead order malloc k f = .record r rest) : rest.length < f.length := by
  rw [cmcRead] at h
  rcases hscr : (int order).freadOne f with ⟨scr, f₁⟩
  rw [hscr] at h
  cases scr with
  | none => cases h
  | some scr =>
      have hlen₁ := (int order).freadOne_length hscr
      rcases hnum : (int order).freadOne f₁ with ⟨ncolors, f₂⟩
      simp only [hnum] at h
      cases ncolors with
      | none => cases h
      | some ncolors =>
          have hlen₂ := (int order).freadOne_length hnum
          cases hm : malloc k (sizeT ncolors * (xcolor order).size % 2 ^ 64) with
          | none =>
              simp only [hm] at h
              cases h
          | some memory =>
              simp only [hm] at h
              by_cases hcount : (fread (xcolor order).size (sizeT ncolors) memory f₂).1 = 0
              · rw [if_pos hcount] at h
                cases h
              · rw [if_neg hcount] at h
                cases h
                simp only [fread, List.length_drop]
                omega

def readLoop (k : Nat) (f : List UInt8) : Load :=
  match h : cmcRead order malloc k f with
  | .eof => ⟨[], none⟩
  | .fatal e => ⟨[], some e⟩
  | .record r rest =>
      let load := readLoop (k + 1) rest
      ⟨r :: load.records, load.ending⟩
termination_by f.length
decreasing_by exact cmcRead_length order malloc h

/-- What becomes of a file. -/
def cmcLoad (f : List UInt8) : Load :=
  match cmcHeaderTest order f with
  | .error e => ⟨[], some e⟩
  | .ok f => readLoop order malloc 0 f

def written (rs : List SavedScreen) : List UInt8 := rs.flatMap fun r => cmcWrite order r.toScreenRecord

def saveFile (rs : List SavedScreen) : List UInt8 := cmcHeaderWrite order ++ written order rs

end Program

section Loop

variable {order : ByteOrder} {malloc : Malloc} {k : Nat} {f rest : List UInt8} {r : ScreenRecord} {e : Fatal}

theorem readLoop_eof (h : cmcRead order malloc k f = .eof) : readLoop order malloc k f = ⟨[], none⟩ := by
  rw [readLoop]
  split <;> simp_all

theorem readLoop_fatal (h : cmcRead order malloc k f = .fatal e) : readLoop order malloc k f = ⟨[], some e⟩ := by
  rw [readLoop]
  split <;> simp_all

theorem readLoop_record (h : cmcRead order malloc k f = .record r rest) :
    readLoop order malloc k f =
      ⟨r :: (readLoop order malloc (k + 1) rest).records, (readLoop order malloc (k + 1) rest).ending⟩ := by
  rw [readLoop]
  split <;> simp_all

end Loop

end OiUserland.CmapCompact.SaveFile
