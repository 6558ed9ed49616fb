import OiUserland.Lib.Dicts

namespace OiUserland.Pkglint.Merge

open Lib.Dicts

variable {P F A : Type} [DecidableEq P] [DecidableEq F]

-- `lintFmriSuccessor new old ignorePubs` is the packaging library's test whether `new` is the same
-- package as `old` at the same version or a later one.
variable (lintFmriSuccessor : F → F → Bool → Bool)

def buildDic (arr : List (F × A)) : Dict F (List A) := group arr

def removeOlder (ignorePubs : Bool) (targDic : Dict F (List A)) (srcPfmri : F) : Dict F (List A) :=
  targDic.entries.foldl
    (fun dic e => if lintFmriSuccessor srcPfmri e.1 ignorePubs then dic.pop e.1 else dic)
    targDic

def mergePath (ignorePubs : Bool) (src target : List (F × A)) : List (F × A) :=
  let srcDic := buildDic src
  let targDic := srcDic.entries.foldl (fun dic e => removeOlder lintFmriSuccessor ignorePubs dic e.1)
    (buildDic target)
  (targDic.update srcDic).items

def merged (ignorePubs : Bool) (src target : Option (List (F × A))) : Option (List (F × A)) :=
  match src, target with
  | none, target => target
  | some src, none => some src
  | some src, some target => some (mergePath lintFmriSuccessor ignorePubs src target)

section Paths

variable {lintFmriSuccessor} {ignorePubs : Bool}

end Paths

section Dictionaries

variable {lintFmriSuccessor} {ignorePubs : Bool}

end Dictionaries

/-- A package and its version. -/
structure Release where
  name : String
  version : Nat
  deriving DecidableEq

def installed : Dict String (List (Release × String)) :=
  ⟨[("usr/bin/vi", [(⟨"editor", 1⟩, "file")]), ("usr/bin/ex", [(⟨"editor", 1⟩, "link")])], by decide⟩

end OiUserland.Pkglint.Merge
