import Mathlib.Data.List.Basic

namespace OiUserland.EntityMib.EntityTable

variable {E : Type}

/-- The limit 2^31 - 1 on all indices. -/
def maxEntityIndex : Int := 2147483647

def largeTable : Int := 200

def toInt (x : Int) : Int := Int.bmod x 4294967296

/-- abs() on int: INT_MIN is its own absolute value. -/
def absInt (x : Int) : Int := toInt x.natAbs

/-- A malloc'ed list node. The address tells nodes apart, as the tail pointer
does; a stale entry keeps its index with a minus sign. -/
structure Node (E : Type) where
  addr : Nat
  index : Int
  entry : E
  deriving DecidableEq

/-- A table as its globals record it: the nodes met when walking from the head
along pNextEntry, the tail pointer and the size. Blocks that were allocated and
are no longer linked are in `lost`. -/
structure Table (E : Type) where
  head : List (Node E) := []
  tail : Option Nat := none
  size : Int := 0
  lost : List Nat := []
  deriving DecidableEq

def Table.blocks (t : Table E) : List Nat := t.head.map Node.addr ++ t.lost

def place (new : Node E) : List (Node E) → Option (List (Node E) × Bool)
  | [] => some ([new], true)
  | z :: zs =>
      if new.index > absInt z.index then (place new zs).map (fun r => (z :: r.1, r.2))
      else if new.index = absInt z.index then none
      else some (new :: z :: zs, false)

def nextIndex (z : Node E) : Int := toInt (absInt z.index + 1)

/-- Give the node the index after the first entry that is followed by a gap, or
after the last entry. Returns the chain, the index and whether it was appended. -/
def fillGap (new : Node E) : List (Node E) → List (Node E) × Int × Bool
  | [] => ([{ new with index := 1 }], 1, true)
  | [z] => ([z, { new with index := nextIndex z }], nextIndex z, true)
  | z :: y :: zs =>
      if toInt (absInt y.index - absInt z.index) > 1 then
        (z :: { new with index := nextIndex z } :: y :: zs, nextIndex z, false)
      else
        let r := fillGap new (y :: zs)
        (z :: r.1, r.2)

def linkAfter (tail : Nat) (new : Node E) : List (Node E) → Option (List (Node E) × Int × List Nat)
  | [] => none
  | z :: zs =>
      if z.addr = tail then
        some ([z, { new with index := nextIndex z }], nextIndex z, zs.map Node.addr)
      else (linkAfter tail new zs).map (fun r => (z :: r.1, r.2))

/-- AddToPhysicalTable and AddToLogicalTable, which differ only in the table
they name. The result is undefined when the shortcut for large tables stores
through a tail pointer whose node has been freed. -/
def addToTable (new : Node E) (t : Table E) : Option (Table E × Int) :=
  match if new.index > 0 then place new t.head else none with
  | some (chain, last) =>
      some ({ t with head := chain, tail := if last then some new.addr else t.tail,
                     size := t.size + 1 }, new.index)
  | none =>
      if t.size > largeTable then
        (t.tail.bind (fun a => linkAfter a new t.head)).map (fun r =>
          ({ head := r.1, tail := some new.addr, size := t.size + 1, lost := r.2.2 ++ t.lost }, r.2.1))
      else
        let r := fillGap new t.head
        some ({ t with head := r.1, tail := if r.2.2 then some new.addr else t.tail,
                       size := t.size + 1 }, r.2.1)

inductive Found (E : Type)
  | live (n : Node E)
  | stale (n : Node E)
  | absent

def find (x : Int) : List (Node E) → Found E
  | [] => .absent
  | z :: zs => if z.index = x then .live z else if z.index = -x then .stale z else find x zs

def inRange (x : Int) : Bool := decide (0 < x) && decide (x ≤ maxEntityIndex)

def getTableEntry (x : Int) (t : Table E) : Option (Node E) :=
  if inRange x then
    match find x t.head with
    | .live n => some n
    | _ => none
  else none

def getTableStaleEntry (x : Int) (t : Table E) : Option (Node E) :=
  if inRange x then
    match find x t.head with
    | .stale n => some n
    | _ => none
  else none

def retag (x i : Int) : List (Node E) → List (Node E)
  | [] => []
  | z :: zs => if z.index = x ∨ z.index = -x then { z with index := i } :: zs else z :: retag x i zs

def unlink (x : Int) : List (Node E) → List (Node E)
  | [] => []
  | z :: zs => if z.index = x then zs else z :: unlink x zs

def assign (x : Int) (f : E → E) : List (Node E) → List (Node E)
  | [] => []
  | z :: zs => if z.index = x then { z with entry := f z.entry } :: zs else z :: assign x f zs

end OiUserland.EntityMib.EntityTable

namespace OiUserland.EntityMib.Entities

open EntityTable

abbrev CString := List UInt8

/-- The entry an allocation is given: a null pointer is `none`. -/
structure NewPhysicalEntry where
  entPhysicalDescr : Option CString := some []
  entPhysicalVendorType : Option (List Nat) := none
  entPhysicalVendorTypeSize : Int := 0
  entPhysicalContainedIn : Int := 0
  entPhysicalClass : Int := 1
  entPhysicalParentRelPos : Int := -1
  entPhysicalName : Option CString := none
  entPhysicalHardwareRev : Option CString := none
  entPhysicalFirmwareRev : Option CString := none
  entPhysicalSoftwareRev : Option CString := none
  entPhysicalSerialNum : Option CString := none
  entPhysicalMfgName : Option CString := none
  entPhysicalModelName : Option CString := none
  entPhysicalAlias : Option CString := none
  entPhysicalAssetID : Option CString := none
  entPhysicalIsFRU : Int := 1
  deriving DecidableEq

structure PhysicalEntry where
  entPhysicalDescr : CString
  entPhysicalVendorType : List Nat
  entPhysicalVendorTypeSize : Int
  entPhysicalContainedIn : Int
  entPhysicalClass : Int
  entPhysicalParentRelPos : Int
  entPhysicalName : CString
  entPhysicalHardwareRev : CString
  entPhysicalFirmwareRev : CString
  entPhysicalSoftwareRev : CString
  entPhysicalSerialNum : CString
  entPhysicalMfgName : CString
  entPhysicalModelName : CString
  entPhysicalAlias : CString
  entPhysicalAssetID : CString
  entPhysicalIsFRU : Int
  deriving DecidableEq

def classOther : Int := 1
def classPort : Int := 10
def classStack : Int := 11
def mibTrue : Int := 1
def mibFalse : Int := 2

/-- A description is required; for the rest a null pointer stands for the empty
string and for the vendor type { 0, 0 } of two eight-byte components. -/
def physicalDefaults (new : NewPhysicalEntry) : Option PhysicalEntry :=
  new.entPhysicalDescr.map (fun descr =>
    { entPhysicalDescr := descr
      entPhysicalVendorType := new.entPhysicalVendorType.getD [0, 0]
      entPhysicalVendorTypeSize :=
        if new.entPhysicalVendorType = none then 16 else new.entPhysicalVendorTypeSize
      entPhysicalContainedIn := new.entPhysicalContainedIn
      entPhysicalClass := new.entPhysicalClass
      entPhysicalParentRelPos := new.entPhysicalParentRelPos
      entPhysicalName := new.entPhysicalName.getD []
      entPhysicalHardwareRev := new.entPhysicalHardwareRev.getD []
      entPhysicalFirmwareRev := new.entPhysicalFirmwareRev.getD []
      entPhysicalSoftwareRev := new.entPhysicalSoftwareRev.getD []
      entPhysicalSerialNum := new.entPhysicalSerialNum.getD []
      entPhysicalMfgName := new.entPhysicalMfgName.getD []
      entPhysicalModelName := new.entPhysicalModelName.getD []
      entPhysicalAlias := new.entPhysicalAlias.getD []
      entPhysicalAssetID := new.entPhysicalAssetID.getD []
      entPhysicalIsFRU := new.entPhysicalIsFRU })

def physicalStrings (e : PhysicalEntry) : List (CString × Nat) :=
  [(e.entPhysicalDescr, 255), (e.entPhysicalName, 255), (e.entPhysicalHardwareRev, 255),
   (e.entPhysicalFirmwareRev, 255), (e.entPhysicalSoftwareRev, 255), (e.entPhysicalSerialNum, 32),
   (e.entPhysicalMfgName, 255), (e.entPhysicalModelName, 255), (e.entPhysicalAlias, 32),
   (e.entPhysicalAssetID, 32)]

def tooLong (fields : List (CString × Nat)) : Bool := fields.any (fun p => decide (p.1.length > p.2))

def rejectPhysical (physidx : Int) (e : PhysicalEntry) (t : Table PhysicalEntry) : Option Int :=
  if physidx < 0 ∨ physidx > maxEntityIndex then some 0
  else if e.entPhysicalClass < classOther ∨ e.entPhysicalClass > classStack then some (-1)
  else if e.entPhysicalParentRelPos < -1 ∨ e.entPhysicalParentRelPos > maxEntityIndex then some (-1)
  else if e.entPhysicalContainedIn = 0 ∧ e.entPhysicalParentRelPos ≠ -1 then some (-1)
  else if e.entPhysicalParentRelPos = -1 ∧ e.entPhysicalContainedIn ≠ 0 then some (-1)
  else if e.entPhysicalContainedIn < 0 ∨ e.entPhysicalContainedIn > maxEntityIndex then some (-1)
  else if e.entPhysicalContainedIn ≠ 0 ∧ (getTableEntry e.entPhysicalContainedIn t).isNone then some (-1)
  else if tooLong (physicalStrings e) then some (-1)
  else if e.entPhysicalIsFRU < mibTrue ∨ e.entPhysicalIsFRU > mibFalse then some (-1)
  else none

structure NewLogicalEntry where
  entLogicalDescr : Option CString := some []
  entLogicalType : Option (List Nat) := none
  entLogicalTypeSize : Int := 0
  entLogicalCommunity : Option CString := none
  entLogicalTAddress : Option CString := some [97]
  entLogicalTDomain : Option (List Nat) := some []
  entLogicalTDomainSize : Int := 0
  entLogicalContextEngineId : Option CString := none
  entLogicalContextName : Option CString := none
  deriving DecidableEq

structure LogicalEntry where
  entLogicalDescr : CString
  entLogicalType : List Nat
  entLogicalTypeSize : Int
  entLogicalCommunity : CString
  entLogicalTAddress : CString
  entLogicalTDomain : List Nat
  entLogicalTDomainSize : Int
  entLogicalContextEngineId : CString
  entLogicalContextName : CString
  deriving DecidableEq

/-- A description, a domain and a non-empty address are required; the type
defaults to mib-2, six eight-byte components. -/
def logicalDefaults (new : NewLogicalEntry) : Option LogicalEntry :=
  match new.entLogicalDescr, new.entLogicalTAddress, new.entLogicalTDomain with
  | some descr, some (b :: address), some domain =>
      some
        { entLogicalDescr := descr
          entLogicalType := new.entLogicalType.getD [1, 3, 6, 1, 2, 1]
          entLogicalTypeSize := if new.entLogicalType = none then 48 else new.entLogicalTypeSize
          entLogicalCommunity := new.entLogicalCommunity.getD []
          entLogicalTAddress := b :: address
          entLogicalTDomain := domain
          entLogicalTDomainSize := new.entLogicalTDomainSize
          entLogicalContextEngineId := new.entLogicalContextEngineId.getD []
          entLogicalContextName := new.entLogicalContextName.getD [] }
  | _, _, _ => none

def logicalStrings (e : LogicalEntry) : List (CString × Nat) :=
  [(e.entLogicalDescr, 255), (e.entLogicalCommunity, 255), (e.entLogicalTAddress, 255),
   (e.entLogicalContextEngineId, 32), (e.entLogicalContextName, 255)]

def rejectLogical (logicidx : Int) (e : LogicalEntry) : Option Int :=
  if logicidx < 0 ∨ logicidx > maxEntityIndex then some 0
  else if e.entLogicalTAddress.length < 1 ∨ tooLong (logicalStrings e) then some (-1)
  else none

end OiUserland.EntityMib.Entities

namespace OiUserland.EntityMib.MibState

open EntityTable Entities

variable {α : Type}

structure MappingRow (α : Type) where
  index : Int
  values : Option (List α)
  deriving DecidableEq

def findRow (x : Int) (rows : List (MappingRow α)) : Option (MappingRow α) :=
  rows.find? (fun r => decide (r.index = x))

/-- Store an array in the first node with index `x`. -/
def setValues (x : Int) (v : Option (List α)) : List (MappingRow α) → List (MappingRow α)
  | [] => []
  | r :: rs => if r.index = x then { r with values := v } :: rs else r :: setValues x v rs

/-- Unlink the first node with index `x`. -/
def removeRow (x : Int) (rows : List (MappingRow α)) : List (MappingRow α) :=
  rows.eraseP (fun r => decide (r.index = x))

def elements (r : MappingRow α) : List α := r.values.getD []

structure LogicalAlias where
  entAliasLogicalIndexorZero : Int
  entAliasMapId : Option (List Nat)
  entAliasMapIdSize : Nat
  deriving DecidableEq

structure State where
  physical : Table PhysicalEntry := {}
  logical : Table LogicalEntry := {}
  contains : List (MappingRow Int) := []
  lpMapping : List (MappingRow Int) := []
  aliasMapping : List (MappingRow LogicalAlias) := []
  deriving DecidableEq

def getPhysicalTableEntry (x : Int) (s : State) : Option (Node PhysicalEntry) :=
  getTableEntry x s.physical

def getPhysicalTableStaleEntry (x : Int) (s : State) : Option (Node PhysicalEntry) :=
  getTableStaleEntry x s.physical

def getLogicalTableEntry (x : Int) (s : State) : Option (Node LogicalEntry) :=
  getTableEntry x s.logical

def getLogicalTableStaleEntry (x : Int) (s : State) : Option (Node LogicalEntry) :=
  getTableStaleEntry x s.logical

def modifyPhysical (x : Int) (f : PhysicalEntry → PhysicalEntry) (s : State) : State :=
  { s with physical := { s.physical with head := assign x f s.physical.head } }

def setContainedIn (x parent : Int) (s : State) : State :=
  modifyPhysical x (fun e => { e with entPhysicalContainedIn := parent }) s

def LivePhysical (s : State) (x : Int) : Prop := 0 < x ∧ ∃ n ∈ s.physical.head, n.index = x

def LiveLogical (s : State) (x : Int) : Prop := 0 < x ∧ ∃ n ∈ s.logical.head, n.index = x

def ContainsPair (s : State) (p c : Int) : Prop :=
  0 < p ∧ 0 < c ∧ ∃ r ∈ s.contains, r.index = p ∧ c ∈ elements r

/-- The live pairs of entLPMappingTable, logical index first. -/
def LPPair (s : State) (l p : Int) : Prop :=
  0 < l ∧ 0 < p ∧ ∃ r ∈ s.lpMapping, r.index = l ∧ p ∈ elements r

def AliasPair (s : State) (p l : Int) : Prop :=
  0 < p ∧ 0 ≤ l ∧ ∃ r ∈ s.aliasMapping, r.index = p ∧
    l ∈ (elements r).map LogicalAlias.entAliasLogicalIndexorZero

end OiUserland.EntityMib.MibState
