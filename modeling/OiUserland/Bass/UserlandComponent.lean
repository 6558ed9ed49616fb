import OiUserland.Bass.Makefiles
import OiUserland.Lib.Integers
import OiUserland.Lib.Regexes

namespace OiUserland.Bass.UserlandComponent

open Lib.Integers Lib.Substitutions Makefiles

inductive Raised
  | failure (e : Failure)
  | valueError
  | unboundLocalError
  | nameError
  deriving DecidableEq

structure Pypi where
  version : Option Line
  releases : Line → Option (List (Option Line))

/-- What gmake and PyPI answer. -/
structure Answers where
  requiredPackages : Except Raised Line
  latest : Except Raised (Option Pypi)
  release : Except Raised (Option Pypi)

/-- The file that is left, the lines that update_component prints itself, and what is raised. -/
structure Outcome where
  file : List Char
  printed : List Line
  raised : Option Raised

def universal : List Char → List Char
  | [] => []
  | '\r' :: '\n' :: s => '\n' :: universal s
  | '\r' :: s => '\n' :: universal s
  | c :: s => c :: universal s

def readMakefile (file : List Char) : Except Failure Makefile := Makefile.ofText (universal file)

def setupPy : Line := "setup.py".toList

def usesPypi (mk : Makefile) : Bool :=
  match mk.vars .buildStyle with
  | none => false
  | some style => style.value = setupPy && (mk.vars .componentArchiveUrl).isNone

def latest : Line := "latest".toList

def malformed : Line := "COMPONENT_REVISION field malformed: ".toList

def written (file : List Char) (printed : List Line) : Except Failure Makefile → Outcome
  | .error e => ⟨file, printed, some (.failure e)⟩
  | .ok mk => ⟨mk.text, printed, none⟩

def bumps (current : Item) (version : Line) : Bool := version = ['0'] || version = current.value

end OiUserland.Bass.UserlandComponent
