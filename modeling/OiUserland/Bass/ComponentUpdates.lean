import OiUserland.Bass.Rereads

namespace OiUserland.Bass.ComponentUpdates

open Lib.Integers Lib.KeptLines Makefiles Records Parts Parses Written Edits OtherLines UserlandComponent
open Rereads Stages

def revision (mk : Makefile) : Option Int :=
  match mk.vars .componentRevision with
  | none => some 0
  | some it => int it.value

def versioned (mk : Makefile) : List Keyword :=
  [.componentVersion, .componentRevision] ++ if usesPypi mk then [.componentArchiveHash] else []

structure Bumped (mk mk' : Makefile) (n : Int) : Prop where
  revision : (mk'.vars .componentRevision).bind (fun it => int it.value) = some (n + 1)
  others : otherLines [.componentRevision] mk' = otherLines [.componentRevision] mk

structure Versioned (mk mk' : Makefile) (version : Line) : Prop where
  version : (mk'.vars .componentVersion).map Item.value = some version
  revision : mk'.vars .componentRevision = none
  others : otherLines (versioned mk) mk' = otherLines (versioned mk) mk

def Updated (file : List Char) (mk : Makefile) (current : Item) (version : Line) (o : Outcome) : Prop :=
  if bumps current version then
    match revision mk with
    | none => o.file = file ∧ ∃ line ∈ o.printed, malformed <+: line
    | some n => ∃ mk', readMakefile o.file = .ok mk' ∧ Bumped mk mk' n
  else ∃ mk', readMakefile o.file = .ok mk' ∧ Versioned mk mk' version

variable {k : Keyword} {ks : List Keyword} {it current : Item} {idx : Nat} {f : Reader} {c lines : List Line}
  {version value sha256 : Line} {mk mk' : Makefile} {file : List Char} {printed : List Line} {n : Int} {answers : Answers}

structure Set (ks : List Keyword) (lines : List Line) (version : Line) (mk : Makefile) (f : Reader) : Prop where
  stage : Stage ks lines mk f
  version : (f.vars .componentVersion).map Item.value = some version
  revision : f.vars .componentRevision = none

end OiUserland.Bass.ComponentUpdates
