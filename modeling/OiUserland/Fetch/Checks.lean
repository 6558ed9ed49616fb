import OiUserland.Lib.Patterns

namespace OiUserland.Fetch.Checks

/-- What prep_envvars finds in the environment, and the digests that hashlib has.
A digest is given in hexadecimal. -/
structure Env where
  defaultHashAlgo : List Char
  secureProtocols : List (List Char)
  signatureExtensions : List (List Char)
  allowUnverifiedDownloads : Bool
  hashlib : List Char → Option (List UInt8 → List Char)

def localSchemes : List (List Char) := [['f', 'i', 'l', 'e'], []]

def remoteSchemes : List (List Char) := [['h', 't', 't', 'p', 's'], ['h', 't', 't', 'p'], ['f', 't', 'p']]

def isSchemeChar (c : Char) : Bool := c.isAlphanum || c == '+' || c == '-' || c == '.'

def urlScheme (url : List Char) : List Char :=
  match url.span (· ≠ ':') with
  | (c :: scheme, ':' :: _) =>
      if c.isAlpha && scheme.all isSchemeChar then (c :: scheme).map Char.toLower else []
  | _ => []

inductive Gpg
  | missing
  | cannotStart
  | exited (returncode : Nat)
  deriving DecidableEq

/-- What validate_signature meets: the exit code of git, unless git cannot be
started, and what becomes of gpg2. -/
structure Verifier where
  git : Option Nat
  gpg : Gpg
  deriving DecidableEq

def validateSignature (v : Verifier) : Option Bool :=
  match v.git with
  | none => none
  | some returncode =>
      if returncode ≠ 0 then some false
      else
        match v.gpg with
        | .missing => some false
        | .cannotStart => none
        | .exited returncode => some (returncode = 0)

inductive Reading
  | block (bytes : List UInt8)
  | ioError
  | eofError
  | raises
  deriving DecidableEq

def algorithm (env : Env) (hash : List Char) : List Char :=
  match hash.splitOn ':' with
  | [algorithm, _] => if algorithm = ['s', 'h', 'a', '1'] then env.defaultHashAlgo else algorithm
  | _ => env.defaultHashAlgo

def validate (env : Env) (file : Reading) (hash : List Char) : Option (Option (List Char)) :=
  match env.hashlib (algorithm env hash) with
  | none => some none
  | some digest =>
      match file with
      | .block bytes => some (some (algorithm env hash ++ ':' :: digest bytes))
      | .ioError => some (some (algorithm env hash ++ [':']))
      | .eofError => some (some (algorithm env hash ++ [':']))
      | .raises => none

abbrev Opened := Option Reading

def validateContainer (env : Env) (file : Opened) (hash : List Char) : Option (Option (List Char)) :=
  match file with
  | none => some none
  | some file => validate env file hash

def hasExtension (ext name : List Char) : Bool :=
  let name := if name.getLast? = some '\n' then name.dropLast else name
  let stem := name.take (name.length - (ext.length + 1))
  stem ≠ [] && !stem.contains '\n' && (name.drop stem.length).map Char.toLower = '.' :: ext

/-- validate_payload, for a file as its compression module opens it. There is no
GzipFile in bz2, so for .tbz an exception is raised. -/
def validatePayload (env : Env) (name : List Char) (bz2 gzip : Opened) (hash : List Char) :
    Option (Option (List Char)) :=
  if hasExtension ['b', 'z'] name || hasExtension ['b', 'z', '2'] name then validateContainer env bz2 hash
  else if hasExtension ['g', 'z'] name || hasExtension ['t', 'g', 'z'] name then validateContainer env gzip hash
  else if hasExtension ['t', 'b', 'z'] name || hasExtension ['t', 'b', 'z', '2'] name then none
  else some none

end OiUserland.Fetch.Checks

namespace OiUserland.Fetch.FindHash

open Lib.Regexes Lib.Patterns

/-- The lower case of a string, and the module re for the patterns with an extension: nothing if they
are an error, and otherwise the first group of a match at the beginning of a string. -/
structure Env where
  defaultHashAlgo : List Char
  lower : List Char → List Char
  extended : List Char → Option (List Char → Option (Option (List Char)))

def basename (path : List Char) : List Char := (path.reverse.takeWhile (· ≠ '/')).reverse

def stem (file : List Char) : List Char := (file.reverse.dropWhile (· ≠ '.')).tail.reverse

def lastPart (file : List Char) : List Char := (file.reverse.takeWhile (· ≠ '.')).reverse

def reMatch (env : Env) (pattern : List Char) : Option (List Char → Option (Option (List Char))) :=
  match compile pattern with
  | .ok r => some (matchGroup r 1)
  | .error => none
  | .extended => env.extended pattern

def algoPattern : List Char :=
  ['(', '[', 'a', '-', 'z', 'A', '-', 'Z', '0', '-', '9', ']', '+', ')', '(', 's', 'u', 'm', 's', '?', ')']

def sumsPattern : List Char :=
  ['(', '^', '[', 'a', '-', 'z', '0', '-', '9', ']', '+', ')', '(', 's', 'u', 'm', 's', '?', '(', '.', 't', 'x', 't', ')', '?', '$', ')']

def linePattern : List Char :=
  ['(', '[', '0', '-', '9', 'a', '-', 'f', 'A', '-', 'F', ']', '+', ')', '(', ' ', '[', ' ', '\\', '*', ']', '(', '.', '*', '/', ')', '?',
    ')', '(']

def hashAlgo (env : Env) (filename hashFile : List Char) : Option (List Char) := do
  let sums ← reMatch env sumsPattern
  if stem hashFile = filename then
    let algo ← reMatch env algoPattern
    (algo (lastPart hashFile)).join
  else
    match sums (env.lower hashFile) with
    | some algo => algo
    | none => some env.defaultHashAlgo

/-- `none` is an exception. -/
def findHashInFile (env : Env) (filename hashFile : List Char) (lines : List (List Char)) : Option (Option (List Char)) := do
  let regex ← reMatch env (linePattern ++ (basename filename ++ ['$', ')']))
  let algo ← hashAlgo env filename hashFile
  match lines.findSome? regex with
  | some (some hash) => some (some (algo ++ ':' :: hash))
  | _ => some none

end OiUserland.Fetch.FindHash
