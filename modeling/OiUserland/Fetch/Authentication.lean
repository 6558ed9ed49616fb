import OiUserland.Fetch.HashFiles

namespace OiUserland.Fetch.Authentication

open Lib.Loops Checks Realmain HashFiles Rounds

variable {env : Env} {o : Options}

/-- When realmain returns 0, although downloads have to be verified, the candidate it
stopped on has been authenticated itself. -/
def AcceptsAuthenticated (env : Env) (w : World) (opts : List Opt) : Prop :=
  env.allowUnverifiedDownloads = false → ∀ rounds, realmain env w opts = .returned 0 rounds →
    ∃ s c r, start env (options opts) w = .ready s ∧ (w.candidates.zip rounds).getLast? = some (c, r) ∧
      Authenticated env (options opts) s.hashArg c r

/-- A hash file has been trusted, no hash is needed, and there is a candidate to be
accepted. -/
def AcceptsUnchecked (env : Env) (o : Options) (w : World) : Prop :=
  env.allowUnverifiedDownloads = false ∧ o.needHash = false ∧ Trusted env o w ∧ (∃ s, start env o w = .ready s) ∧
    ∃ c ∈ w.candidates, c.file ≠ none

/-- What holds before each round, unless a hash file has been trusted and no hash is
needed: a signature counts only while its hash is looked at. -/
structure Unaccepted (o : Options) (hashArg : Option (List Char)) (s : LoopState) : Prop where
  validSig : s.validSig = true → o.needHash = true
  usable : usable s.hashArg = usable hashArg
  retval : s.retval ≠ 0

section Rounds

variable {hashArg : Option (List Char)} {s s' t : LoopState} {c : Candidate} {name : List Char}
  {signature : Option Bool} {r : Round}

theorem signedRound_next (h : signedRound env o signature s c name = (r, .next s')) :
    o.needHash = true ∧ TurnedDown o signature s r s' := by
  rw [signedRound] at h
  by_cases hn : o.needHash = true
  · rw [if_neg (by rw [hn]; decide)] at h
    exact ⟨hn, hashRound_next h⟩
  · rw [if_pos (by rw [Bool.not_eq_true] at hn; rw [hn]; rfl)] at h
    cases h

theorem signedRound_stop (h : signedRound env o signature s c name = (r, .stop t)) :
    r.signature = signature ∧ t.retval = 0 ∧
      (o.needHash = false ∨ env.allowUnverifiedDownloads = true ∨
        (r.hash = some true ∧ ∃ hash, usable s.hashArg = some hash ∧ matchesHash env c name hash = some true)) := by
  rw [signedRound] at h
  by_cases hn : o.needHash = true
  · rw [if_neg (by rw [hn]; decide)] at h
    obtain ⟨hsig, hret, hhash | ⟨_, hno⟩ | hallow⟩ := hashRound_stop h
    · exact ⟨hsig, hret, .inr (.inr hhash)⟩
    · exact ⟨hsig, hret, .inl hno⟩
    · exact ⟨hsig, hret, .inr (.inl hallow)⟩
  · rw [Bool.not_eq_true] at hn
    rw [if_pos (by rw [hn]; rfl)] at h
    cases h
    exact ⟨rfl, rfl, .inl hn⟩

theorem unsignedRound_next (h : unsignedRound env o s c name = (r, .next s')) : TurnedDown o none s r s' := by
  rw [unsignedRound] at h
  by_cases hn : o.needSig = true
  · rw [if_pos hn] at h
    cases h
    exact ⟨rfl, rfl, rfl, rfl, Nat.succ_ne_zero _⟩
  · rw [if_neg hn] at h
    exact hashRound_next h

theorem candidateRound_next (hs : Unaccepted o hashArg s) (h : candidateRound env o s c = (r, .next s')) :
    Unaccepted o hashArg s' := by
  cases hf : c.file with
  | none =>
      rw [candidateRound_absent hf] at h
      cases h
      exact hs
  | some name =>
      by_cases hv : s.validSig = true
      · rw [candidateRound_carried hf hv] at h
        obtain ⟨hn, hdown⟩ := signedRound_next h
        exact ⟨fun _ => hn, hdown.usable.trans hs.usable, hdown.retval⟩
      · rw [Bool.not_eq_true] at hv
        cases hsig : sigFile env o c name with
        | none =>
            rw [candidateRound_unsigned hf hv hsig] at h
            have hdown := unsignedRound_next h
            refine ⟨?_, hdown.usable.trans hs.usable, hdown.retval⟩
            rw [hdown.validSig]
            exact hs.validSig
        | some sig =>
            rcases hver : validateSignature (c.verifier sig) with _ | _ | _
            · rw [candidateRound_uncheckable hf hv hsig hver] at h
              cases h
            · rw [candidateRound_invalid hf hv hsig hver] at h
              cases h
            · rw [candidateRound_valid hf hv hsig hver] at h
              obtain ⟨hn, hdown⟩ := signedRound_next h
              exact ⟨fun _ => hn, hdown.usable.trans hs.usable, hdown.retval⟩

theorem candidateRound_stop (hs : Unaccepted o hashArg s) (hallow : env.allowUnverifiedDownloads = false)
    (h : candidateRound env o s c = (r, .stop t)) (ht : t.retval = 0) : Authenticated env o hashArg c r := by
  have hno : env.allowUnverifiedDownloads ≠ true := by
    rw [hallow]
    exact Bool.false_ne_true
  cases hf : c.file with
  | none =>
      rw [candidateRound_absent hf] at h
      cases h
  | some name =>
      have hown {hash : List Char} (hu : usable s.hashArg = some hash) (hm : matchesHash env c name hash = some true) :
          OwnHash env hashArg c := ⟨name, hash, hf, hs.usable ▸ hu, hm⟩
      by_cases hv : s.validSig = true
      · rw [candidateRound_carried hf hv] at h
        obtain ⟨_, _, hn | hallow' | ⟨hhash, hash, hu, hm⟩⟩ := signedRound_stop h
        · rw [hs.validSig hv] at hn
          cases hn
        · exact absurd hallow' hno
        · exact .inr ⟨hhash, hown hu hm⟩
      · rw [Bool.not_eq_true] at hv
        cases hsig : sigFile env o c name with
        | none =>
            rw [candidateRound_unsigned hf hv hsig, unsignedRound] at h
            by_cases hneed : o.needSig = true
            · rw [if_pos hneed] at h
              cases h
            · rw [if_neg hneed] at h
              obtain ⟨_, _, ⟨hhash, hash, hu, hm⟩ | ⟨hv', _⟩ | hallow'⟩ := hashRound_stop h
              · exact .inr ⟨hhash, hown hu hm⟩
              · rw [hv] at hv'
                cases hv'
              · exact absurd hallow' hno
        | some sig =>
            rcases hver : validateSignature (c.verifier sig) with _ | _ | _
            · rw [candidateRound_uncheckable hf hv hsig hver] at h
              cases h
            · rw [candidateRound_invalid hf hv hsig hver] at h
              cases h
              exact absurd ht hs.retval
            · rw [candidateRound_valid hf hv hsig hver] at h
              exact .inl ⟨(signedRound_stop h).1, name, sig, hf, hsig, hver⟩

end Rounds

section Runs

variable {w : World} {opts : List Opt}

theorem realmain_zero {rounds : List Round} (h : realmain env w opts = .returned 0 rounds) :
    ∃ s t, start env (options opts) w = .ready s ∧ (candidates env (options opts) s w.candidates).1 = rounds ∧
      ((candidates env (options opts) s w.candidates).2 = .exhausted t ∨
        (candidates env (options opts) s w.candidates).2 = .stopped t) ∧ t.retval = 0 := by
  rw [realmain] at h
  rcases hs : start env (options opts) w with _ | code | s
  · simp only [hs] at h
    cases h
  · simp only [hs] at h
    cases h
    exact absurd rfl (start_returned hs)
  · simp only [hs] at h
    rcases hc : candidates env (options opts) s w.candidates with ⟨rs, t | t | _⟩
    · simp only [hc, Outcome.returned.injEq] at h
      exact ⟨s, t, rfl, by rw [hc]; exact h.2, .inl (by rw [hc]), h.1⟩
    · simp only [hc, Outcome.returned.injEq] at h
      exact ⟨s, t, rfl, by rw [hc]; exact h.2, .inr (by rw [hc]), h.1⟩
    · simp only [hc] at h
      cases h

theorem loop_absent {s : LoopState} {cs : List Candidate} (h : ∀ c ∈ cs, c.file = none) :
    (loop (candidateRound env o) s cs).2 = .exhausted s := by
  induction cs with
  | nil => rfl
  | cons c cs ih =>
      rw [loop_next (candidateRound_absent (h c List.mem_cons_self))]
      exact ih fun c hc => h c (List.mem_cons_of_mem _ hc)

theorem candidates_unchecked {s : HashState} {cs : List Candidate} (hs : s.validSig = true)
    (hn : o.needHash = false) (hc : ∃ c ∈ cs, c.file ≠ none) :
    ∃ t c, (candidates env o s cs).2 = .stopped t ∧ t.retval = 0 ∧
      (cs.zip (candidates env o s cs).1).getLast? = some (c, ⟨none, none, false⟩) := by
  rw [candidates]
  induction cs with
  | nil =>
      obtain ⟨c, hc, _⟩ := hc
      cases hc
  | cons c cs ih =>
      cases hf : c.file with
      | none =>
          rw [loop_next (candidateRound_absent hf)]
          have hcs : ∃ c ∈ cs, c.file ≠ none := by
            obtain ⟨b, hb, hbf⟩ := hc
            rcases List.mem_cons.mp hb with rfl | hb
            · exact absurd hf hbf
            · exact ⟨b, hb, hbf⟩
          obtain ⟨t, b, hend, ht, hlast⟩ := ih hcs
          exact ⟨t, b, hend, ht, getLast?_cons_of_some hlast⟩
      | some name =>
          have hround : candidateRound env o ⟨s.validSig, s.hashArg, 1⟩ c =
              (⟨none, none, false⟩, .stop ⟨s.validSig, s.hashArg, 0⟩) := by
            rw [candidateRound_carried hf hs, signedRound, hn]
            rfl
          rw [loop_stop hround]
          exact ⟨_, c, rfl, rfl, by cases cs <;> rfl⟩

/-- A candidate that is accepted has been authenticated itself, unless a hash file was
trusted in its place. -/
theorem accepted_authenticated (env : Env) (w : World) (opts : List Opt) :
    AcceptsAuthenticated env w opts ↔ ¬ AcceptsUnchecked env (options opts) w := by
  constructor
  · intro h ⟨hallow, hn, htrusted, ⟨s, hs⟩, hc⟩
    obtain ⟨t, c, hend, ht, hlast⟩ := candidates_unchecked ((start_ready hs).mpr htrusted) hn hc
    have hrun : realmain env w opts = .returned 0 (candidates env (options opts) s w.candidates).1 := by
      rcases hrs : candidates env (options opts) s w.candidates with ⟨rs, e⟩
      rw [hrs] at hend
      simp only at hend
      simp only [realmain, hs, hrs, hend, ht]
    obtain ⟨s', c', r, _, hlast', hauth⟩ := h hallow _ hrun
    rw [hlast] at hlast'
    cases hlast'
    rcases hauth with ⟨hno, _⟩ | ⟨hno, _⟩
    · cases hno
    · cases hno
  · intro h hallow rounds hrun
    obtain ⟨s, t, hs, hrounds, hend, ht⟩ := realmain_zero hrun
    by_cases hchecked : s.validSig = true → (options opts).needHash = true
    · have hstart : Unaccepted (options opts) s.hashArg ⟨s.validSig, s.hashArg, 1⟩ := ⟨hchecked, rfl, Nat.one_ne_zero⟩
      rcases hend with hend | hend
      · exact absurd ht (loop_exhausted (Unaccepted (options opts) s.hashArg)
          (fun _ _ _ _ => candidateRound_next) hstart hend).retval
      · obtain ⟨c, r, s', hlast, hinv, hbody⟩ := loop_stopped (Unaccepted (options opts) s.hashArg)
          (fun _ _ _ _ => candidateRound_next) hstart hend
        have hlast : (w.candidates.zip rounds).getLast? = some (c, r) := hrounds ▸ hlast
        exact ⟨s, c, r, hs, hlast, candidateRound_stop hinv hallow hbody ht⟩
    · obtain ⟨hv, hn⟩ := Classical.not_imp.mp hchecked
      rw [Bool.not_eq_true] at hn
      have hnone : ∀ c ∈ w.candidates, c.file = none := by
        intro c hc
        by_contra hf
        exact h ⟨hallow, hn, (start_ready hs).mp hv, ⟨s, hs⟩, c, hc, hf⟩
      rw [candidates, loop_absent hnone] at hend
      rcases hend with hend | hend
      · cases hend
        cases ht
      · cases hend

end Runs

def sha256 : List Char := ['s', 'h', 'a', '2', '5', '6']

/-- Every file that can be read has the digest 00. -/
def failureEnv : Env where
  defaultHashAlgo := sha256
  secureProtocols := [['h', 't', 't', 'p', 's']]
  signatureExtensions := [['s', 'i', 'g']]
  allowUnverifiedDownloads := false
  hashlib := fun _ => some fun _ => ['0', '0']

def signedHashFile : HashFile where
  name := some ['S', 'U', 'M', 'S']
  scheme := ['h', 't', 't', 'p', 's']
  present := fun _ => true
  verifier := fun _ => ⟨some 0, .exited 0⟩
  removable := true
  hash := some (some (sha256 ++ [':', 'f', 'f']))

def corruptCandidate : Candidate where
  name := some ['a', '.', 'g', 'z']
  scheme := ['h', 't', 't', 'p', 's']
  sigurl := none
  present := fun _ => false
  verifier := fun _ => ⟨some 0, .exited 1⟩
  container := some (.block [])
  bz2 := none
  gzip := some (.block [])

def failureWorld : World where
  mkdir := .made
  hashFiles := [signedHashFile]
  listable := true
  hashDir := some none
  candidates := [corruptCandidate]

/-- A candidate that is neither signed nor what the signed hash file says is accepted
because the hash file is signed. -/
theorem corrupt_accepted :
    ¬ AcceptsAuthenticated failureEnv failureWorld [.url ['u'], .getHashes] ∧
    realmain failureEnv failureWorld [.url ['u'], .getHashes] = .returned 0 [⟨none, none, false⟩] ∧
    start failureEnv (options [.url ['u'], .getHashes]) failureWorld =
      .ready ⟨true, some (sha256 ++ [':', 'f', 'f'])⟩ ∧
    matchesHash failureEnv corruptCandidate ['a', '.', 'g', 'z'] (sha256 ++ [':', 'f', 'f']) = some false := by
  have hrun : realmain failureEnv failureWorld [.url ['u'], .getHashes] = .returned 0 [⟨none, none, false⟩] := by
    decide +kernel
  refine ⟨?_, hrun, by decide +kernel, by decide +kernel⟩
  intro h
  obtain ⟨_, c, r, _, hlast, hauth⟩ := h rfl _ hrun
  cases hlast
  rcases hauth with ⟨hno, _⟩ | ⟨hno, _⟩
  · cases hno
  · cases hno

end OiUserland.Fetch.Authentication
