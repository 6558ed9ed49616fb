import OiUserland.Mangler.ManPages

namespace OiUserland.Mangler.RunPaths

open Lib.PosixPaths Lib.Regexes Lib.Splits Lib.Substitutions ManPages

structure Action where
  path : List Char
  stripRunpath : Option (List Char)

def rtldDefaultDirs : List (List Char) :=
  ["/lib".toList, "/usr/lib".toList, "/lib/64".toList, "/usr/lib/64".toList,
    "/lib/amd64".toList, "/usr/lib/amd64".toList, "/lib/sparcv9".toList, "/usr/lib/sparcv9".toList]

def origin : List Char := "$ORIGIN".toList

def realpath (p : List Char) : List Char := '/' :: render (normal p)

inductive Failure
  | indexError
  deriving DecidableEq

inductive Edit
  | delete (element : List Char)
  | set (element value : List Char)
  deriving DecidableEq

def Edit.text : Edit → List Char
  | delete element => "dyn:delete ".toList ++ element.map Char.toLower
  | set element value => "dyn:".toList ++ element.map Char.toLower ++ " '".toList ++ value ++ "'".toList

inductive Effect
  | report (text : List Char)
  | makedirs (dir : List Char)
  | copy (src dest : List Char)
  | writable (dest : List Char)
  | call (edit : Edit) (args : List (List Char))
  deriving DecidableEq

section Meaning

variable {path dir : List Char} {dirs : List (List Char)}

def OriginDir (dir : List Char) : Prop := origin <+: dir

instance : Decidable (OriginDir dir) := inferInstanceAs (Decidable (origin <+: dir))

def installDir (path : List Char) : List Char :=
  if (dirname path).head? = some '/' then dirname path else '/' :: dirname path

def expand (path dir : List Char) : List Char := if OriginDir dir then replace origin (installDir path) dir else dir

def place (path dir : List Char) : Option (List (List Char)) :=
  if (expand path dir).head? = some '/' then some (normal (expand path dir)) else none

/-- The element denotes a directory that is searched anyway. -/
def Default (path dir : List Char) : Prop := ∃ d ∈ rtldDefaultDirs, place path dir = some (normal d)

instance : Decidable (Default path dir) := inferInstanceAs (Decidable (∃ d ∈ rtldDefaultDirs, _))

def resolved (path dir : List Char) : List Char := if OriginDir dir then realpath (expand path dir) else dir

/-- The elements a run path is to have: no default directory, the others in their order, resolved. -/
def wanted (path : List Char) (dirs : List (List Char)) : List (List Char) :=
  (dirs.filter fun dir => ¬ Default path dir).map (resolved path)

def Edit.value : Edit → Option (List Char)
  | delete _ => none
  | set _ value => some value

/-- The run path that is left in the file that gets published: an edit is one of a fresh copy. -/
def leaves (runpath : List Char) (effects : List Effect) : Option (List Char) :=
  effects.foldl (fun left effect => match effect with
    | .copy _ _ => some runpath
    | .call edit _ => edit.value
    | _ => left) (some runpath)

def elements (runpath : Option (List Char)) : List (List Char) := runpath.elim [] (·.splitOn ':')

end Meaning

section Directories

variable {action : Action} {s : Dirs} {path dir : List Char} {dirs : List (List Char)}

end Directories

section Lines

variable {action : Action} {src dest element runpath : List Char} {lines : List (List Char)} {destdirExists : Bool}

end Lines

section Edits

variable {action : Action} {src dest element runpath path : List Char} {dirs stdout : List (List Char)}

/-- Elements that start with the token lie in a directory of the install path and are none of the
default directories, and the other ones that are such a directory are spelled as in the list. -/
def Plain (path runpath : List Char) : Prop :=
  (∀ dir ∈ runpath.splitOn ':', OriginDir dir → dirname path ≠ [] ∧ ¬ Default path dir ∧ ':' ∉ resolved path dir) ∧
  ∀ dir ∈ runpath.splitOn ':', ¬ OriginDir dir → Default path dir → dir ∈ rtldDefaultDirs

def kept (path : List Char) (dirs : List (List Char)) : List (List Char) :=
  (dirs.filter (· ∉ rtldDefaultDirs)).map (resolved path)

end Edits

end OiUserland.Mangler.RunPaths
