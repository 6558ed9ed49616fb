import OiUserland.Lib.KeptLines
import Mathlib.Data.List.DropRight

namespace OiUserland.Bass.Makefiles

open Lib.KeptLines

abbrev Line := List Char

/-- What `\s` matches and what `strip` takes off. -/
def isSpace (c : Char) : Bool :=
  let n := c.toNat
  (9 ≤ n && n ≤ 13) || (28 ≤ n && n ≤ 32) || n == 0x85 || n == 0xA0 || n == 0x1680 ||
    (0x2000 ≤ n && n ≤ 0x200A) || n == 0x2028 || n == 0x2029 || n == 0x202F || n == 0x205F || n == 0x3000

def strip (s : Line) : Line := (s.dropWhile isSpace).rdropWhile isSpace

inductive Keyword
  | buildBits
  | buildStyle
  | mkBits
  | componentName
  | componentVersion
  | componentRevision
  | componentFmri
  | componentClassification
  | componentSummary
  | componentProjectUrl
  | componentSrc
  | componentArchive
  | componentArchiveUrl
  | componentArchiveHash
  | componentLicense
  | componentLicenseFile
  deriving DecidableEq

def Keyword.name : Keyword → Line
  | .buildBits => ['B', 'U', 'I', 'L', 'D', '_', 'B', 'I', 'T', 'S']
  | .buildStyle => ['B', 'U', 'I', 'L', 'D', '_', 'S', 'T', 'Y', 'L', 'E']
  | .mkBits => ['M', 'K', '_', 'B', 'I', 'T', 'S']
  | .componentName => ['C', 'O', 'M', 'P', 'O', 'N', 'E', 'N', 'T', '_', 'N', 'A', 'M', 'E']
  | .componentVersion => ['C', 'O', 'M', 'P', 'O', 'N', 'E', 'N', 'T', '_', 'V', 'E', 'R', 'S',
    'I', 'O', 'N']
  | .componentRevision => ['C', 'O', 'M', 'P', 'O', 'N', 'E', 'N', 'T', '_', 'R', 'E', 'V', 'I',
    'S', 'I', 'O', 'N']
  | .componentFmri => ['C', 'O', 'M', 'P', 'O', 'N', 'E', 'N', 'T', '_', 'F', 'M', 'R', 'I']
  | .componentClassification => ['C', 'O', 'M', 'P', 'O', 'N', 'E', 'N', 'T', '_', 'C', 'L', 'A',
    'S', 'S', 'I', 'F', 'I', 'C', 'A', 'T', 'I', 'O', 'N']
  | .componentSummary => ['C', 'O', 'M', 'P', 'O', 'N', 'E', 'N', 'T', '_', 'S', 'U', 'M', 'M',
    'A', 'R', 'Y']
  | .componentProjectUrl => ['C', 'O', 'M', 'P', 'O', 'N', 'E', 'N', 'T', '_', 'P', 'R', 'O', 'J',
    'E', 'C', 'T', '_', 'U', 'R', 'L']
  | .componentSrc => ['C', 'O', 'M', 'P', 'O', 'N', 'E', 'N', 'T', '_', 'S', 'R', 'C']
  | .componentArchive => ['C', 'O', 'M', 'P', 'O', 'N', 'E', 'N', 'T', '_', 'A', 'R', 'C', 'H',
    'I', 'V', 'E']
  | .componentArchiveUrl => ['C', 'O', 'M', 'P', 'O', 'N', 'E', 'N', 'T', '_', 'A', 'R', 'C', 'H',
    'I', 'V', 'E', '_', 'U', 'R', 'L']
  | .componentArchiveHash => ['C', 'O', 'M', 'P', 'O', 'N', 'E', 'N', 'T', '_', 'A', 'R', 'C', 'H',
    'I', 'V', 'E', '_', 'H', 'A', 'S', 'H']
  | .componentLicense => ['C', 'O', 'M', 'P', 'O', 'N', 'E', 'N', 'T', '_', 'L', 'I', 'C', 'E',
    'N', 'S', 'E']
  | .componentLicenseFile => ['C', 'O', 'M', 'P', 'O', 'N', 'E', 'N', 'T', '_', 'L', 'I', 'C', 'E',
    'N', 'S', 'E', '_', 'F', 'I', 'L', 'E']

def Keyword.all : List Keyword :=
  [.buildBits, .buildStyle, .mkBits, .componentName, .componentVersion, .componentRevision,
    .componentFmri, .componentClassification, .componentSummary, .componentProjectUrl,
    .componentSrc, .componentArchive, .componentArchiveUrl, .componentArchiveHash,
    .componentLicense, .componentLicenseFile]

inductive Target
  | build
  | install
  | test
  | systemTest
  deriving DecidableEq

def Target.name : Target → Line
  | .build => ['b', 'u', 'i', 'l', 'd']
  | .install => ['i', 'n', 's', 't', 'a', 'l', 'l']
  | .test => ['t', 'e', 's', 't']
  | .systemTest => ['s', 'y', 's', 't', 'e', 'm', '-', 't', 'e', 's', 't']

def Target.all : List Target := [.build, .install, .test, .systemTest]

structure Item where
  idx : Option Nat
  str : List Line
  nonempty : str ≠ []
  deriving DecidableEq

namespace Item

def single (idx : Nat) (line : Line) : Item := ⟨some idx, [line], by simp⟩

def append (it : Item) (line : Line) : Item :=
  ⟨it.idx, it.str ++ [strip line], by simp⟩

def length (it : Item) : Nat := it.str.length

def value (it : Item) : Line := strip (it.str.flatten.filter (· ≠ '\n'))

def setValue (idx : Option Nat) (value : Line) : Item :=
  ⟨idx, (value.splitOn '\n').map fun l => strip l ++ ['\n'], by simp [List.splitOn_ne_nil]⟩

/-- The format `{0:<24}`. -/
def padded (s : Line) : Line := s ++ List.replicate (24 - s.length) ' '

def continued (last : Line) : List Line → List Line
  | [] => [last ++ ['\n']]
  | l :: ls => (last ++ ['\\', '\n']) :: continued ('\t' :: l) ls

def variableAssignment (it : Item) (name : Line) : List Line :=
  let first := padded (name ++ ['=']) ++ it.str.head it.nonempty
  if it.length = 1 then [first] else continued first it.str.tail

end Item

inductive Failure
  | typeError
  | attributeError
  | keyError
  | indexError
  deriving DecidableEq

structure Definitions where
  includes : List Item
  vars : Keyword → Option Item
  targets : Target → Option Item

/-- The state of the loop of `update`. -/
structure Reader extends Definitions where
  m : Option Keyword
  t : Option Target
  d : Option Target

def Reader.start : Reader := ⟨⟨[], fun _ => none, fun _ => none⟩, none, none, none⟩

def behind : Line → Line → Option Line
  | [], s => some s
  | _ :: _, [] => none
  | c :: p, x :: s => if c = x then behind p s else none

def continuation (line : Line) : Option (Line × Bool) :=
  let r := line.dropWhile isSpace
  match (r.dropWhile (· ≠ '\n')).dropWhile isSpace with
  | [] => some (r.takeWhile (· ≠ '\n'), false)
  | c :: s => if c = '\\' ∧ s.all isSpace then some (r.takeWhile (· ≠ '\n'), true) else none

def recipe : Line → Option Line
  | [] => none
  | c :: s =>
    let r := s.dropWhile isSpace
    if c = '\t' ∧ (r.dropWhile (· ≠ '\n')).all isSpace then some (r.takeWhile (· ≠ '\n')) else none

def comment (line : Line) : Bool := line.head? = some '#'

def included (line : Line) : Option Line :=
  match behind ['i', 'n', 'c', 'l', 'u', 'd', 'e'] line with
  | some (c :: s) => if isSpace c then some ((s.dropWhile isSpace).takeWhile (· ≠ '\n')) else none
  | _ => none

/-- The last two groups of `^[\s]*(k)[\s]*=[\s]*([^\\]*)[\s]*([\\]?)[\s]*$`. -/
def definition (k : Keyword) (line : Line) : Option (Line × Bool) :=
  match (behind k.name (line.dropWhile isSpace)).map (List.dropWhile isSpace) with
  | some (c :: s) =>
    if c = '=' then
      let r := s.dropWhile isSpace
      match r.dropWhile (· ≠ '\\') with
      | [] => some (r, false)
      | _ :: s => if s.all isSpace then some (r.takeWhile (· ≠ '\\'), true) else none
    else none
  | _ => none

def targetRule (k : Target) (line : Line) : Option (Line × Bool) :=
  match (behind k.name line).map (List.dropWhile isSpace) with
  | some (c :: s) => if c = ':' then continuation s else none
  | _ => none

def findDefinition (line : Line) : Option (Keyword × Line × Bool) :=
  Keyword.all.findSome? fun k => (definition k line).map fun r => (k, r)

def findTarget (line : Line) : Option (Target × Line × Bool) :=
  Target.all.findSome? fun k => (targetRule k line).map fun r => (k, r)

namespace Reader

def hasVariable (s : Reader) (v : Line) : Bool :=
  Keyword.all.any fun k => (s.vars k).isSome && k.name = v

def hasTarget (s : Reader) (v : Line) : Bool :=
  Target.all.any fun k => (s.targets k).isSome && k.name = v

def setItem (s : Reader) (k : Keyword) (it : Item) : Reader :=
  { s with vars := Function.update s.vars k (some it) }

def setTarget (s : Reader) (k : Target) (it : Item) : Reader :=
  { s with targets := Function.update s.targets k (some it) }

def continueTarget (s : Reader) (t : Target) (line : Line) : Except Failure Reader :=
  match s.targets t with
  | none => .error .keyError
  | some it =>
    match continuation line with
    | none => .error .attributeError
    | some (l, more) =>
      let str := it.str.modifyHead (· ++ l.intersperse '\\')
      let s := s.setTarget t ⟨it.idx, str, by simpa [str] using it.nonempty⟩
      .ok (if more then s else { s with t := none, d := some t })

def continueVariable (s : Reader) (m : Keyword) (line : Line) : Except Failure Reader :=
  match s.vars m with
  | none => .error .keyError
  | some it =>
    match continuation line with
    | none => .error .attributeError
    | some (l, more) =>
      let s := s.setItem m (it.append l)
      .ok (if more then s else { s with m := none })

def defineVariable (s : Reader) (i : Nat) (k : Keyword) (v : Line) (more : Bool) : Except Failure Reader :=
  if s.hasVariable v then .error .typeError
  else
    let s := s.setItem k (.single i v)
    .ok (if more then { s with m := some k } else s)

def defineTarget (s : Reader) (i : Nat) (k : Target) (v : Line) (more : Bool) : Except Failure Reader :=
  if s.hasTarget v then .error .typeError
  else
    let s := s.setTarget k (.single i v)
    .ok (if more then { s with t := some k, d := none } else { s with t := none, d := some k })

def readLine (s : Reader) (i : Nat) (line : Line) : Except Failure Reader :=
  if comment line then .ok s
  else
    match included line with
    | some l => .ok { s with includes := s.includes ++ [.single i l] }
    | none =>
      match findDefinition line with
      | some (k, v, more) => s.defineVariable i k v more
      | none =>
        match findTarget line with
        | some (k, v, more) => s.defineTarget i k v more
        | none => .ok s

def readVariable (s : Reader) (i : Nat) (line : Line) : Except Failure Reader :=
  match s.m with
  | some m => s.continueVariable m line
  | none => s.readLine i line

def readRecipe (s : Reader) (i : Nat) (d : Target) (line : Line) : Except Failure Reader :=
  match recipe line with
  | none => .ok { s with d := none }
  | some l =>
    match s.targets d with
    | none => .error .keyError
    | some it => (s.setTarget d (it.append l)).readVariable i line

def step (s : Reader) (i : Nat) (line : Line) : Except Failure Reader :=
  match s.t, s.d with
  | some t, _ => s.continueTarget t line
  | none, some d => s.readRecipe i d line
  | none, none => s.readVariable i line

def scan (s : Reader) (i : Nat) : List Line → Except Failure Reader
  | [] => .ok s
  | l :: ls =>
    match s.step i l with
    | .error e => .error e
    | .ok s => scan s (i + 1) ls

end Reader

structure Makefile extends Definitions where
  contents : List Line

namespace Makefile

def update (contents : List Line) : Except Failure Makefile :=
  match Reader.start.scan 0 contents with
  | .error e => .error e
  | .ok s => .ok ⟨s.toDefinitions, contents⟩

def ofText (text : List Char) : Except Failure Makefile := update (lines '\n' text)

/-- What `write` writes. -/
def text (mk : Makefile) : List Char := mk.contents.flatten

def removeVariable (mk : Makefile) (k : Keyword) : Except Failure Makefile :=
  match mk.vars k with
  | none => .error .keyError
  | some it =>
    match it.idx with
    | none => .error .typeError
    | some idx => if idx < mk.contents.length then update (mk.contents.eraseIdx idx) else .error .indexError

def setItem (mk : Makefile) (k : Keyword) (it : Item) : Makefile :=
  { mk with vars := Function.update mk.vars k (some it) }

def addVariable (mk : Makefile) (k : Keyword) (value : Line) (line : Option Nat) : Except Failure Makefile :=
  let it := Item.setValue none value
  match line with
  | none => .ok (mk.setItem k it)
  | some line => update (mk.contents.take line ++ it.variableAssignment k.name ++ mk.contents.drop line)

def moveVariable (mk : Makefile) (k : Keyword) (idx oln : Nat) (value : Line) (line : Nat) :
    Except Failure Makefile :=
  let it := Item.setValue (some idx) value
  let c := mk.contents
  if line = idx ∧ it.length = 1 ∧ oln = 1 then
    if idx < c.length then
      .ok { mk.setItem k it with contents := c.set idx ((it.variableAssignment k.name).headD []) }
    else .error .indexError
  else if line ≤ idx then
    update (c.take line ++ it.variableAssignment k.name ++ (c.take idx).drop line ++ c.drop (idx + oln))
  else
    update (c.take idx ++ (c.take line).drop (idx + oln) ++ it.variableAssignment k.name ++ c.drop line)

def setVariable (mk : Makefile) (k : Keyword) (value : Line) (line : Option Nat) : Except Failure Makefile :=
  match mk.vars k with
  | none => mk.addVariable k value line
  | some it =>
    match it.idx with
    | none => mk.addVariable k value line
    | some idx => mk.moveVariable k idx it.length value (line.getD idx)

end Makefile

end OiUserland.Bass.Makefiles
