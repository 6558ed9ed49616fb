import OiUserland.Lib.Regexes
import Mathlib.Data.Char
import Mathlib.Data.List.Lex
import OiUserland.Lib.Dicts
import OiUserland.Lib.PosixPaths

namespace OiUserland.Incorporator.Incorporations

open Lib.Dicts Lib.Latest Lib.PosixPaths

inductive Consolidations
  | value (s : List Char)
  | values (l : List (List Char))
  deriving DecidableEq

def Consolidations.userland : Consolidations → Bool
  | .value s => "userland".toList <:+: s
  | .values l => "userland".toList ∈ l

structure Package where
  name : List Char
  version : List Char
  noincorporate : Bool
  consolidation : Option Consolidations
  deriving DecidableEq

def incName : List Char := "consolidation/userland/userland-incorporation".toList

def Package.wanted (p : Package) : Bool :=
  !p.noincorporate && p.name ≠ incName && (p.consolidation.getD (.values [])).userland

structure Incorporation where
  name : List Char
  version : List Char
  packages : Dict (List Char) (List Char)

def Incorporation.new (name version : List Char) : Incorporation := ⟨name, version, Dict.empty⟩

def withoutBuild (decimal : Char → Bool) : Bool → List Char → List Char
  | _, [] => []
  | behind, c :: cs =>
    if behind ∧ (decimal c ∨ c = '.') then withoutBuild decimal true cs
    else if c = ',' ∧ cs.head?.any fun d => decimal d ∨ d = '.' then withoutBuild decimal true cs
    else c :: withoutBuild decimal false cs

def packageToStr (decimal : Char → Bool) (name version : List Char) : List Char :=
  let version := withoutBuild decimal false (version.takeWhile (· ≠ ':'))
  "depend fmri=".toList ++ name ++ "@".toList ++ version ++ " facet.version-lock.".toList ++ name ++
    "=true type=incorporate".toList

def header (name version : List Char) : List Char :=
  "\nset name=pkg.fmri value=pkg:/".toList ++ name ++ "@".toList ++ version ++
    ("\nset name=info.classification value=\"org.opensolaris.category.2008:Meta Packages/Incorporations\"" ++
      "\nset name=org.opensolaris.consolidation value=userland" ++
      "\nset name=pkg.depend.install-hold value=core-os.userland" ++
      "\nset name=pkg.summary value=\"userland consolidation incorporation (").toList ++ name ++ (")\"" ++
      "\nset name=pkg.description value=\"This incorporation constrains packages from the userland consolidation\"" ++
      "\n").toList

def Incorporation.str (decimal : Char → Bool) (inc : Incorporation) : List Char :=
  let names := (inc.packages.entries.map Prod.fst).mergeSort
  header inc.name inc.version ++
    names.flatMap fun name => packageToStr decimal name ((inc.packages.get name).getD []) ++ ['\n']

section Generation

-- `lt` is the order of the packaging library's versions.
variable (lt : List Char → List Char → Bool)

def warning (werror : Bool) (msg : List Char) : List Char :=
  (if werror then "ERROR: " else "WARNING: ").toList ++ msg

end Generation

section Versions

variable {lt : List Char → List Char → Bool} {packages packages' : List Package}

def Package.fmri (p : Package) : List Char × List Char := (p.name, p.version)

end Versions

section Selection

variable {lt : List Char → List Char → Bool} {packages sel sel' : List Package}

structure Selected (lt : List Char → List Char → Bool) (packages : List Package) (p : Package) : Prop where
  listed : p ∈ packages
  highest : ∀ q ∈ packages, q.name = p.name → ¬ lt p.version q.version
  wanted : p.wanted

def chosen (versions : Dict (List Char) (List Char)) (p : Package) : Bool :=
  versions.get p.name = some p.version ∧ p.wanted

end Selection

section Listings

variable {lt : List Char → List Char → Bool} {packages : List Package}

end Listings

end OiUserland.Incorporator.Incorporations
