import OiUserland.Lib.Loops
import OiUserland.Fetch.Checks

namespace OiUserland.Fetch.Realmain

open Lib.Loops Checks

inductive Opt
  | userAgent (arg : List Char)
  | file (arg : List Char)
  | link
  | keep
  | hash (arg : List Char)
  | needHash
  | getHashes
  | search (arg : List Char)
  | sigurl (arg : List Char)
  | url (arg : List Char)
  | needSig
  | getSigs
  | clobberHash
  deriving DecidableEq

structure Options where
  userAgentArg : Option (List Char) := none
  fileArg : Option (List Char) := none
  linkArg : Bool := false
  keepArg : Bool := false
  hashArg : Option (List Char) := none
  urlArg : Option (List Char) := none
  sigArg : Option (List Char) := none
  needSig : Bool := false
  getSignature : Bool := false
  needHash : Bool := false
  getHash : Bool := false
  clobberHash : Bool := false
  searchList : List (List Char) := []
  deriving DecidableEq

def setOption (o : Options) : Opt → Options
  | .userAgent arg => { o with userAgentArg := some arg }
  | .file arg => { o with fileArg := some arg }
  | .link => { o with linkArg := true }
  | .keep => { o with keepArg := true }
  | .hash arg => { o with hashArg := some arg }
  | .needHash => { o with needHash := true }
  | .getHashes => { o with getHash := true }
  | .search arg => { o with searchList := o.searchList ++ [arg] }
  | .sigurl arg => { o with sigArg := some arg }
  | .url arg => { o with urlArg := some arg }
  | .needSig => { o with needSig := true }
  | .getSigs => { o with getSignature := true }
  | .clobberHash => { o with clobberHash := true }

def options (opts : List Opt) : Options := opts.foldl setOption {}

def Options.clobber (o : Options) : Bool :=
  o.clobberHash && !(o.urlArg.isNone && o.searchList.isEmpty)

def noneArg : List Char := ['n', 'o', 'n', 'e']

def truthy : Option (List Char) → Bool
  | some (_ :: _) => true
  | _ => false

/-- A hash file that download_from_paths yields: its path, unless it was copied, the
signature files that exist for it with what verifying them meets, whether it can be
removed, and what find_hash_in_file finds, unless it raises an exception. -/
structure HashFile where
  name : Option (List Char)
  scheme : List Char
  present : List Char → Bool
  verifier : List Char → Verifier
  removable : Bool
  hash : Option (Option (List Char))

/-- A candidate that download_from_paths yields: its path, unless it was copied, the
file that the signature of --sigurl was downloaded to, the signature files that exist
with what verifying the candidate against them meets, and the candidate itself, as
opened plainly and through the two compression modules. -/
structure Candidate where
  name : Option (List Char)
  scheme : List Char
  sigurl : Option (List Char)
  present : List Char → Bool
  verifier : List Char → Verifier
  container : Opened
  bz2 : Opened
  gzip : Opened

inductive Mkdir
  | made
  | noParent
  | raises
  deriving DecidableEq

/-- What a run meets. `hashDir` is what find_hash_in_hash_dir finds, unless it fails,
and `listable` whether the new hash files can be listed. -/
structure World where
  mkdir : Mkdir
  hashFiles : List HashFile
  listable : Bool
  hashDir : Option (Option (List Char))
  candidates : List Candidate

structure HashState where
  validSig : Bool
  hashArg : Option (List Char)
  deriving DecidableEq

/-- What is known at the candidates, unless it does not come to them. -/
inductive Start
  | raised
  | returned (code : Nat)
  | ready (s : HashState)
  deriving DecidableEq

section HashFiles

variable (env : Env) (o : Options)

def checkSignatures (f : HashFile) (name : List Char) : Option Bool :=
  env.signatureExtensions.foldlM (fun valid ext =>
    if f.present (name ++ '.' :: ext) then validateSignature (f.verifier (name ++ '.' :: ext)) else some valid) false

def isSafe (scheme : List Char) : Bool := scheme ∈ env.secureProtocols || scheme ∈ localSchemes

def hashFileRound (s : HashState) (f : HashFile) : Unit × Verdict HashState :=
  match f.name with
  | none => ((), .raised)
  | some name =>
      match checkSignatures env f name with
      | none => ((), .raised)
      | some validSig =>
          if !validSig && (!isSafe env f.scheme || o.needSig) then
            if f.removable && env.signatureExtensions ≠ [] then ((), .next { s with validSig })
            else ((), .raised)
          else
            match f.hash with
            | none => ((), .raised)
            | some hashArg =>
                if truthy hashArg then ((), .stop ⟨validSig, hashArg⟩) else ((), .next ⟨validSig, hashArg⟩)

def sourceHashes (w : World) : Start :=
  match w.mkdir with
  | .noParent => .returned 1
  | .raises => .raised
  | .made =>
      match (loop (hashFileRound env o) ⟨false, o.hashArg⟩ w.hashFiles).2 with
      | .raised => .raised
      | .exhausted s => if o.clobber && !w.listable then .raised else .ready s
      | .stopped s => if o.clobber && !w.listable then .raised else .ready s

def findHash (w : World) : Start :=
  if o.clobber || o.getHash then sourceHashes env o w
  else if o.hashArg = none then
    match w.hashDir with
    | none => .raised
    | some hashArg => .ready ⟨false, hashArg⟩
  else .ready ⟨false, o.hashArg⟩

/-- realmain up to its candidates. Without a url and a file there is no path to
resolve, which is an exception. -/
def start (w : World) : Start :=
  if o.urlArg = none ∧ o.fileArg = none then .raised
  else
    match findHash env o w with
    | .ready s =>
        if (s.hashArg = none ∨ s.hashArg = some noneArg) ∧ o.needHash then .returned 4 else .ready s
    | r => r

end HashFiles

structure LoopState where
  validSig : Bool
  hashArg : Option (List Char)
  retval : Nat
  deriving DecidableEq

/-- What is done about a candidate: what validate_signature says, if it is asked,
whether a hash of the candidate is the expected one, if they are compared, and
whether the candidate is removed. -/
structure Round where
  signature : Option Bool
  hash : Option Bool
  deleted : Bool
  deriving DecidableEq

section Candidates

variable (env : Env) (o : Options)

def Candidate.file (c : Candidate) : Option (List Char) := c.name.filter (· ≠ [])

def sigFile (c : Candidate) (name : List Char) : Option (List Char) :=
  let fetched :=
    match o.sigArg with
    | some (u :: url) =>
        if u :: url ≠ noneArg && urlScheme (u :: url) ∈ remoteSchemes then c.sigurl else none
    | _ => none
  match fetched with
  | some sig => some sig
  | none => (env.signatureExtensions.map fun ext => name ++ '.' :: ext).find? c.present

def usable (hashArg : Option (List Char)) : Option (List Char) :=
  hashArg.filter fun h => h ≠ [] ∧ h ≠ noneArg

def matchesHash (c : Candidate) (name hash : List Char) : Option Bool :=
  (validateContainer env c.container hash).bind fun realhash =>
    if realhash = some hash then some true
    else (validatePayload env name c.bz2 c.gzip hash).map fun payloadhash => payloadhash = some hash

def hashRound (signature : Option Bool) (s : LoopState) (c : Candidate) (name : List Char) :
    Round × Verdict LoopState :=
  match usable s.hashArg with
  | some hash =>
      match matchesHash env c name hash with
      | none => (⟨signature, none, false⟩, .raised)
      | some true => (⟨signature, some true, false⟩, .stop { s with retval := 0 })
      | some false =>
          -- with a valid signature, a hash that is not needed is not looked at
          if s.validSig && !o.needHash then (⟨signature, some false, false⟩, .stop { s with retval := 0 })
          else (⟨signature, some false, !o.keepArg⟩, .next { s with retval := 3 })
  | none =>
      if !env.allowUnverifiedDownloads then
        (⟨signature, none, !o.keepArg⟩, .next { s with hashArg := none, retval := 3 })
      else if !isSafe env c.scheme then
        (⟨signature, none, !o.keepArg⟩, .next { s with hashArg := none, retval := 2 })
      else (⟨signature, none, false⟩, .stop { s with hashArg := none, retval := 0 })

def signedRound (signature : Option Bool) (s : LoopState) (c : Candidate) (name : List Char) :
    Round × Verdict LoopState :=
  if !o.needHash then (⟨signature, none, false⟩, .stop { s with retval := 0 })
  else hashRound env o signature s c name

def unsignedRound (s : LoopState) (c : Candidate) (name : List Char) : Round × Verdict LoopState :=
  if o.needSig then (⟨none, none, !o.keepArg⟩, .next { s with retval := 3 })
  else hashRound env o none s c name

def candidateRound (s : LoopState) (c : Candidate) : Round × Verdict LoopState :=
  match c.file with
  | none => (⟨none, none, false⟩, .next s)
  | some name =>
      if s.validSig then signedRound env o none s c name
      else
        match sigFile env o c name with
        | none => unsignedRound env o s c name
        | some sig =>
            match validateSignature (c.verifier sig) with
            | none => (⟨none, none, false⟩, .raised)
            | some true => signedRound env o (some true) { s with validSig := true } c name
            | some false => (⟨some false, none, false⟩, .stop s)

def candidates (s : HashState) (cs : List Candidate) : List Round × Ending LoopState :=
  loop (candidateRound env o) ⟨s.validSig, s.hashArg, 1⟩ cs

end Candidates

/-- How a run ends, with what was done about the candidates it has considered. -/
inductive Outcome
  | raised (rounds : List Round)
  | returned (code : Nat) (rounds : List Round)
  deriving DecidableEq

def realmain (env : Env) (w : World) (opts : List Opt) : Outcome :=
  match start env (options opts) w with
  | .raised => .raised []
  | .returned code => .returned code []
  | .ready s =>
      match candidates env (options opts) s w.candidates with
      | (rounds, .raised) => .raised rounds
      | (rounds, .exhausted s) => .returned s.retval rounds
      | (rounds, .stopped s) => .returned s.retval rounds

end OiUserland.Fetch.Realmain

namespace OiUserland.Fetch.Rounds

open Checks Realmain

variable {env : Env} {o : Options} {c : Candidate} {name : List Char} {signature : Option Bool}
  {s s' t : LoopState} {r : Round}

def OwnSignature (env : Env) (o : Options) (c : Candidate) : Prop :=
  ∃ name sig, c.file = some name ∧ sigFile env o c name = some sig ∧
    validateSignature (c.verifier sig) = some true

def OwnHash (env : Env) (hashArg : Option (List Char)) (c : Candidate) : Prop :=
  ∃ name hash, c.file = some name ∧ usable hashArg = some hash ∧ matchesHash env c name hash = some true

def Authenticated (env : Env) (o : Options) (hashArg : Option (List Char)) (c : Candidate) (r : Round) : Prop :=
  (r.signature = some true ∧ OwnSignature env o c) ∨ (r.hash = some true ∧ OwnHash env hashArg c)

structure TurnedDown (o : Options) (signature : Option Bool) (s : LoopState) (r : Round) (s' : LoopState) : Prop where
  signature : r.signature = signature
  deleted : r.deleted = !o.keepArg
  validSig : s'.validSig = s.validSig
  usable : usable s'.hashArg = usable s.hashArg
  retval : s'.retval ≠ 0

theorem hashRound_next (h : hashRound env o signature s c name = (r, .next s')) : TurnedDown o signature s r s' := by
  rw [hashRound] at h
  cases hu : usable s.hashArg with
  | some hash =>
      simp only [hu] at h
      rcases hm : matchesHash env c name hash with _ | _ | _
      · simp only [hm] at h
        cases h
      · simp only [hm] at h
        by_cases hs : (s.validSig && !o.needHash) = true
        · rw [if_pos hs] at h
          cases h
        · rw [if_neg hs] at h
          cases h
          exact ⟨rfl, rfl, rfl, rfl, Nat.succ_ne_zero _⟩
      · simp only [hm] at h
        cases h
  | none =>
      simp only [hu] at h
      by_cases hallow : (!env.allowUnverifiedDownloads) = true
      · rw [if_pos hallow] at h
        cases h
        exact ⟨rfl, rfl, rfl, hu.symm, Nat.succ_ne_zero _⟩
      · rw [if_neg hallow] at h
        by_cases hsafe : (!isSafe env c.scheme) = true
        · rw [if_pos hsafe] at h
          cases h
          exact ⟨rfl, rfl, rfl, hu.symm, Nat.succ_ne_zero _⟩
        · rw [if_neg hsafe] at h
          cases h

theorem hashRound_stop (h : hashRound env o signature s c name = (r, .stop t)) :
    r.signature = signature ∧ t.retval = 0 ∧
      ((r.hash = some true ∧ ∃ hash, usable s.hashArg = some hash ∧ matchesHash env c name hash = some true) ∨
        (s.validSig = true ∧ o.needHash = false) ∨ env.allowUnverifiedDownloads = true) := by
  rw [hashRound] at h
  cases hu : usable s.hashArg with
  | some hash =>
      simp only [hu] at h
      rcases hm : matchesHash env c name hash with _ | _ | _
      · simp only [hm] at h
        cases h
      · simp only [hm] at h
        by_cases hs : (s.validSig && !o.needHash) = true
        · rw [if_pos hs] at h
          cases h
          exact ⟨rfl, rfl, .inr (.inl (by simpa using hs))⟩
        · rw [if_neg hs] at h
          cases h
      · simp only [hm] at h
        cases h
        exact ⟨rfl, rfl, .inl ⟨rfl, hash, rfl, hm⟩⟩
  | none =>
      simp only [hu] at h
      by_cases hallow : (!env.allowUnverifiedDownloads) = true
      · rw [if_pos hallow] at h
        cases h
      · rw [if_neg hallow] at h
        by_cases hsafe : (!isSafe env c.scheme) = true
        · rw [if_pos hsafe] at h
          cases h
        · rw [if_neg hsafe] at h
          cases h
          exact ⟨rfl, rfl, .inr (.inr (by simpa using hallow))⟩

section Candidates

theorem candidateRound_absent (h : c.file = none) :
    candidateRound env o s c = (⟨none, none, false⟩, .next s) := by
  rw [candidateRound, h]

theorem candidateRound_carried (h : c.file = some name) (hs : s.validSig = true) :
    candidateRound env o s c = signedRound env o none s c name := by
  rw [candidateRound, h]
  exact if_pos hs

variable (h : c.file = some name) (hs : s.validSig = false)

include h hs

theorem candidateRound_unsigned (hsig : sigFile env o c name = none) :
    candidateRound env o s c = unsignedRound env o s c name := by
  simp [candidateRound, h, hs, hsig]

theorem candidateRound_valid {sig : List Char} (hsig : sigFile env o c name = some sig)
    (hv : validateSignature (c.verifier sig) = some true) :
    candidateRound env o s c = signedRound env o (some true) { s with validSig := true } c name := by
  simp [candidateRound, h, hs, hsig, hv]

theorem candidateRound_invalid {sig : List Char} (hsig : sigFile env o c name = some sig)
    (hv : validateSignature (c.verifier sig) = some false) :
    candidateRound env o s c = (⟨some false, none, false⟩, .stop s) := by
  simp [candidateRound, h, hs, hsig, hv]

theorem candidateRound_uncheckable {sig : List Char} (hsig : sigFile env o c name = some sig)
    (hv : validateSignature (c.verifier sig) = none) :
    candidateRound env o s c = (⟨none, none, false⟩, .raised) := by
  simp [candidateRound, h, hs, hsig, hv]

end Candidates

end OiUserland.Fetch.Rounds
