import OiUserland.Fetch.Authentication

namespace OiUserland.Fetch.NeedSig

open Lib.Loops Checks Realmain HashFiles Rounds Authentication

variable {env : Env} {o : Options} {hashArg : Option (List Char)}

def Unverified (env : Env) (o : Options) (c : Candidate) : Prop := c.file ≠ none ∧ ¬ OwnSignature env o c

def Good (env : Env) (o : Options) (hashArg : Option (List Char)) (c : Candidate) : Prop :=
  OwnSignature env o c ∧ (o.needHash = true → OwnHash env hashArg c)

def Found (e : Ending LoopState) : Prop := e = .raised ∨ ∃ t, e = .stopped t ∧ t.retval = 0

structure MeetsNeedSig (env : Env) (o : Options) (hashArg : Option (List Char)) (cs : List Candidate)
    (run : List Round × Ending LoopState) : Prop where
  verified : ∀ t, run.2 = .exhausted t ∨ run.2 = .stopped t → t.retval = 0 →
    ∃ c r, (cs.zip run.1).getLast? = some (c, r) ∧ r.signature = some true ∧ OwnSignature env o c
  deleted : ∀ p ∈ cs.zip run.1, Unverified env o p.1 → o.keepArg = true ∨ p.2.deleted = true
  goesOn : ∀ p, (cs.zip run.1).getLast? = some p → Unverified env o p.1 → ∃ t, run.2 = .exhausted t
  found : ∀ c ∈ cs, Good env o hashArg c → Found run.2

def hashVerdict (env : Env) (o : Options) (hashArg : Option (List Char)) (c : Candidate) (name : List Char) :
    Option Bool :=
  if o.needHash then
    match usable hashArg with
    | some hash => matchesHash env c name hash
    | none => some (env.allowUnverifiedDownloads && isSafe env c.scheme)
  else some true

/-- Candidates none of which is taken for its hash. One with a valid signature may
raise an exception. -/
def PassedOver (env : Env) (o : Options) (hashArg : Option (List Char)) : List Candidate → Prop
  | [] => True
  | c :: cs =>
      match c.file with
      | none => PassedOver env o hashArg cs
      | some name =>
          match hashVerdict env o hashArg c name with
          | none => OwnSignature env o c
          | some true => False
          | some false => PassedOver env o hashArg cs

def FirstSigned (env : Env) (o : Options) (hashArg : Option (List Char)) : List Candidate → Prop
  | [] => True
  | c :: cs =>
      match c.file with
      | none => FirstSigned env o hashArg cs
      | some name =>
          match sigFile env o c name with
          | none => FirstSigned env o hashArg cs
          | some _ => OwnSignature env o c ∧ (hashVerdict env o hashArg c name = some false → PassedOver env o hashArg cs)

section Verdicts

variable {c : Candidate} {name : List Char} {s : LoopState}

theorem hashVerdict_needed (h : hashVerdict env o hashArg c name = some false) : o.needHash = true := by
  by_contra hn
  rw [hashVerdict, if_neg hn] at h
  cases h

theorem hashVerdict_good (hf : c.file = some name) (h : Good env o hashArg c) :
    hashVerdict env o hashArg c name = some true := by
  by_cases hn : o.needHash = true
  · obtain ⟨name', hash, hf', hu, hm⟩ := h.2 hn
    cases hf.symm.trans hf'
    rw [hashVerdict, if_pos hn, hu]
    exact hm
  · rw [hashVerdict, if_neg hn]

variable (signature : Option Bool) (hu : usable s.hashArg = usable hashArg)

include hu in
theorem signedRound_raised (h : hashVerdict env o hashArg c name = none) :
    signedRound env o signature s c name = (⟨signature, none, false⟩, .raised) := by
  by_cases hn : o.needHash = true
  · rw [hashVerdict, if_pos hn, ← hu] at h
    rw [signedRound, hn, Bool.not_true, if_neg Bool.false_ne_true, hashRound]
    cases hus : usable s.hashArg with
    | none =>
        rw [hus] at h
        cases h
    | some hash =>
        rw [hus] at h
        simp only at h
        simp only [h]
  · rw [hashVerdict, if_neg hn] at h
    cases h

include hu in
theorem signedRound_taken (h : hashVerdict env o hashArg c name = some true) :
    ∃ hash t, signedRound env o signature s c name = (⟨signature, hash, false⟩, .stop t) ∧ t.retval = 0 := by
  by_cases hn : o.needHash = true
  · rw [hashVerdict, if_pos hn, ← hu] at h
    rw [signedRound, hn, Bool.not_true, if_neg Bool.false_ne_true, hashRound]
    cases hus : usable s.hashArg with
    | none =>
        rw [hus] at h
        simp only [Option.some.injEq, Bool.and_eq_true] at h
        rw [h.1, h.2]
        exact ⟨_, _, rfl, rfl⟩
    | some hash =>
        rw [hus] at h
        simp only at h
        simp only [h]
        exact ⟨_, _, rfl, rfl⟩
  · rw [Bool.not_eq_true] at hn
    rw [signedRound, hn]
    exact ⟨_, _, rfl, rfl⟩

include hu in
theorem signedRound_turnedDown (h : hashVerdict env o hashArg c name = some false) :
    ∃ r s', signedRound env o signature s c name = (r, .next s') ∧ TurnedDown o signature s r s' := by
  have hn := hashVerdict_needed h
  suffices hnext : ∃ r s', signedRound env o signature s c name = (r, .next s') by
    obtain ⟨r, s', hround⟩ := hnext
    exact ⟨r, s', hround, (signedRound_next hround).2⟩
  rw [hashVerdict, if_pos hn, ← hu] at h
  rw [signedRound, hn, Bool.not_true, if_neg Bool.false_ne_true, hashRound]
  cases hus : usable s.hashArg with
  | none =>
      rw [hus] at h
      simp only [Option.some.injEq] at h
      by_cases hallow : env.allowUnverifiedDownloads = true
      · rw [hallow, Bool.true_and] at h
        rw [hallow, h]
        exact ⟨_, _, rfl⟩
      · rw [Bool.not_eq_true] at hallow
        rw [hallow]
        exact ⟨_, _, rfl⟩
  | some hash =>
      rw [hus] at h
      simp only at h
      simp only [h, hn, Bool.not_true, Bool.and_false]
      exact ⟨_, _, rfl⟩

end Verdicts

section Steps

variable {c : Candidate} {cs : List Candidate} {s s' t : LoopState} {r : Round}

theorem not_good_of_absent (h : c.file = none) : ¬ Good env o hashArg c := by
  intro ⟨⟨name, _, hf, _⟩, _⟩
  rw [h] at hf
  cases hf

theorem meets_next (h : candidateRound env o s c = (r, .next s')) (hret : s'.retval ≠ 0)
    (hgood : ¬ Good env o hashArg c) :
    MeetsNeedSig env o hashArg (c :: cs) (loop (candidateRound env o) s (c :: cs)) ↔
      (Unverified env o c → o.keepArg = true ∨ r.deleted = true) ∧
        MeetsNeedSig env o hashArg cs (loop (candidateRound env o) s' cs) := by
  rw [loop_next h]
  constructor
  · intro hmeets
    refine ⟨hmeets.deleted (c, r) List.mem_cons_self, ?_, ?_, ?_, ?_⟩
    · intro t ht ht0
      obtain ⟨c', r', hlast, hown⟩ := hmeets.verified t ht ht0
      by_cases hnil : (loop (candidateRound env o) s' cs).1 = []
      · rw [(loop_no_round hnil).1] at ht
        rcases ht with ht | ht
        · cases ht
          exact absurd ht0 hret
        · cases ht
      · exact ⟨c', r', last_of_cons hnil hlast, hown⟩
    · exact fun p hp => hmeets.deleted p (List.mem_cons_of_mem _ hp)
    · exact fun p hp => hmeets.goesOn p (getLast?_cons_of_some hp)
    · exact fun c' hc' => hmeets.found c' (List.mem_cons_of_mem _ hc')
  · intro ⟨hdel, hmeets⟩
    refine ⟨?_, ?_, ?_, ?_⟩
    · intro t ht ht0
      obtain ⟨c', r', hlast, hown⟩ := hmeets.verified t ht ht0
      exact ⟨c', r', getLast?_cons_of_some hlast, hown⟩
    · intro p hp
      rcases List.mem_cons.mp hp with rfl | hp
      · exact hdel
      · exact hmeets.deleted p hp
    · intro p hp hbad
      by_cases hnil : (loop (candidateRound env o) s' cs).1 = []
      · exact ⟨s', (loop_no_round hnil).1⟩
      · exact hmeets.goesOn p (last_of_cons hnil hp) hbad
    · intro c' hc' hg
      rcases List.mem_cons.mp hc' with rfl | hc'
      · exact absurd hg hgood
      · exact hmeets.found c' hc' hg

theorem meets_stop (h : candidateRound env o s c = (r, .stop t)) :
    MeetsNeedSig env o hashArg (c :: cs) (loop (candidateRound env o) s (c :: cs)) ↔
      (t.retval = 0 → r.signature = some true ∧ OwnSignature env o c) ∧ ¬ Unverified env o c ∧
        ((∃ b ∈ c :: cs, Good env o hashArg b) → t.retval = 0) := by
  rw [loop_stop h]
  have hzip : (c :: cs).zip [r] = [(c, r)] := by cases cs <;> rfl
  constructor
  · intro hmeets
    refine ⟨?_, ?_, ?_⟩
    · intro ht
      obtain ⟨c', r', hlast, hown⟩ := hmeets.verified t (.inr rfl) ht
      rw [hzip] at hlast
      cases hlast
      exact hown
    · intro hbad
      have hlast : ((c :: cs).zip [r]).getLast? = some (c, r) := by rw [hzip]; rfl
      obtain ⟨t', ht'⟩ := hmeets.goesOn (c, r) hlast hbad
      cases ht'
    · intro ⟨b, hb, hg⟩
      obtain hno | ⟨t', ht', ht0⟩ := hmeets.found b hb hg
      · cases hno
      · cases ht'
        exact ht0
  · intro ⟨hver, hgood, hfound⟩
    refine ⟨?_, ?_, ?_, ?_⟩
    · intro t' ht' ht0
      have ht : t = t' := by
        rcases ht' with ht' | ht'
        · cases ht'
        · cases ht'
          rfl
      exact ⟨c, r, by rw [hzip]; rfl, hver (ht ▸ ht0)⟩
    · intro p hp hbad
      rw [hzip, List.mem_singleton] at hp
      rw [hp] at hbad
      exact absurd hbad hgood
    · intro p hp hbad
      rw [hzip] at hp
      cases hp
      exact absurd hbad hgood
    · exact fun b hb hg => .inr ⟨t, rfl, hfound ⟨b, hb, hg⟩⟩

theorem meets_raised (h : candidateRound env o s c = (r, .raised)) :
    MeetsNeedSig env o hashArg (c :: cs) (loop (candidateRound env o) s (c :: cs)) ↔ ¬ Unverified env o c := by
  rw [loop_raised h]
  have hzip : (c :: cs).zip [r] = [(c, r)] := by cases cs <;> rfl
  constructor
  · intro hmeets hbad
    have hlast : ((c :: cs).zip [r]).getLast? = some (c, r) := by rw [hzip]; rfl
    obtain ⟨t', ht'⟩ := hmeets.goesOn (c, r) hlast hbad
    cases ht'
  · intro hgood
    refine ⟨?_, ?_, ?_, fun _ _ _ => .inl rfl⟩
    · intro t ht
      rcases ht with ht | ht
      · cases ht
      · cases ht
    · intro p hp hbad
      rw [hzip, List.mem_singleton] at hp
      rw [hp] at hbad
      exact absurd hbad hgood
    · intro p hp hbad
      rw [hzip] at hp
      cases hp
      exact absurd hbad hgood

theorem meets_nil (h : s.retval ≠ 0) :
    MeetsNeedSig env o hashArg [] (loop (candidateRound env o) s []) := by
  refine ⟨?_, ?_, ?_, ?_⟩
  · intro t ht ht0
    rcases ht with ht | ht
    · cases ht
      exact absurd ht0 h
    · cases ht
  · intro p hp
    cases hp
  · intro p hp
    cases hp
  · intro c hc
    cases hc

end Steps

section Searches

variable {cs : List Candidate} {s : LoopState}

theorem not_unverified_iff {c : Candidate} {name : List Char} (hf : c.file = some name) :
    ¬ Unverified env o c ↔ OwnSignature env o c := by
  rw [Unverified, hf, not_and_not_right]
  exact ⟨fun h => h (Option.some_ne_none name), fun h _ => h⟩

theorem meets_carried (hs : s.validSig = true) (hu : usable s.hashArg = usable hashArg) (hret : s.retval ≠ 0) :
    MeetsNeedSig env o hashArg cs (loop (candidateRound env o) s cs) ↔ PassedOver env o hashArg cs := by
  induction cs generalizing s with
  | nil => exact ⟨fun _ => trivial, fun _ => meets_nil hret⟩
  | cons c cs ih =>
      cases hf : c.file with
      | none =>
          rw [meets_next (candidateRound_absent hf) hret (not_good_of_absent hf), ih hs hu hret, PassedOver, hf]
          exact and_iff_right fun hbad => absurd hf hbad.1
      | some name =>
          have hround : candidateRound env o s c = signedRound env o none s c name := candidateRound_carried hf hs
          rw [PassedOver, hf]
          rcases hv : hashVerdict env o hashArg c name with _ | _ | _
          · rw [signedRound_raised none hu hv] at hround
            rw [meets_raised hround, not_unverified_iff hf]
            simp only [hv]
          · obtain ⟨r, s', hnext, hdown⟩ := signedRound_turnedDown none hu hv
            have hgood : ¬ Good env o hashArg c := by
              intro hg
              rw [hashVerdict_good hf hg] at hv
              cases hv
            rw [meets_next (hround.trans hnext) hdown.retval hgood,
              ih (hdown.validSig.trans hs) (hdown.usable.trans hu) hdown.retval]
            simp only [hv]
            apply and_iff_right
            intro _
            rw [hdown.deleted]
            cases o.keepArg
            · exact .inr rfl
            · exact .inl rfl
          · obtain ⟨hash, t, hstop, ht⟩ := signedRound_taken none hu hv
            rw [meets_stop (hround.trans hstop)]
            simp only [hv, iff_false]
            intro ⟨hsig, _⟩
            cases (hsig ht).1

theorem meets_first (hneed : o.needSig = true) (hs : s.validSig = false) (hu : usable s.hashArg = usable hashArg)
    (hret : s.retval ≠ 0) :
    MeetsNeedSig env o hashArg cs (loop (candidateRound env o) s cs) ↔ FirstSigned env o hashArg cs := by
  induction cs generalizing s with
  | nil => exact ⟨fun _ => trivial, fun _ => meets_nil hret⟩
  | cons c cs ih =>
      cases hf : c.file with
      | none =>
          rw [meets_next (candidateRound_absent hf) hret (not_good_of_absent hf), ih hs hu hret, FirstSigned, hf]
          exact and_iff_right fun hbad => absurd hf hbad.1
      | some name =>
          rw [FirstSigned, hf]
          cases hsig : sigFile env o c name with
          | none =>
              have hround : candidateRound env o s c =
                  (⟨none, none, !o.keepArg⟩, .next { s with retval := 3 }) := by
                rw [candidateRound_unsigned hf hs hsig, unsignedRound, if_pos hneed]
              have hgood : ¬ Good env o hashArg c := by
                rintro ⟨⟨name', sig, hf', hsig', _⟩, _⟩
                cases hf.symm.trans hf'
                rw [hsig] at hsig'
                cases hsig'
              rw [meets_next hround (Nat.succ_ne_zero _) hgood, @ih { s with retval := 3 } hs hu (Nat.succ_ne_zero _)]
              simp only [hsig]
              apply and_iff_right
              intro _
              cases o.keepArg
              · exact .inr rfl
              · exact .inl rfl
          | some sig =>
              simp only [hsig]
              have hown : OwnSignature env o c ↔ validateSignature (c.verifier sig) = some true := by
                constructor
                · rintro ⟨name', sig', hf', hsig', hver⟩
                  cases hf.symm.trans hf'
                  cases hsig.symm.trans hsig'
                  exact hver
                · exact fun hver => ⟨name, sig, hf, hsig, hver⟩
              rcases hver : validateSignature (c.verifier sig) with _ | _ | _
              · have hno : ¬ OwnSignature env o c := by
                  rw [hown, hver]
                  exact Option.some_ne_none true |>.symm
                rw [meets_raised (candidateRound_uncheckable hf hs hsig hver), not_unverified_iff hf]
                exact ⟨fun h => absurd h hno, fun h => h.1⟩
              · have hno : ¬ OwnSignature env o c := by
                  rw [hown, hver]
                  decide
                rw [meets_stop (candidateRound_invalid hf hs hsig hver), not_unverified_iff hf]
                exact ⟨fun h => absurd h.2.1 hno, fun h => absurd h.1 hno⟩
              · have hyes : OwnSignature env o c := hown.mpr hver
                have hround : candidateRound env o s c =
                    signedRound env o (some true) { s with validSig := true } c name :=
                  candidateRound_valid hf hs hsig hver
                have hu' : usable { s with validSig := true }.hashArg = usable hashArg := hu
                rcases hv : hashVerdict env o hashArg c name with _ | _ | _
                · have hraise := signedRound_raised (some true) hu' hv
                  rw [meets_raised (hround.trans hraise), not_unverified_iff hf]
                  simp [hyes]
                · obtain ⟨r, s', hnext, hdown⟩ :=
                    signedRound_turnedDown (some true) hu' hv
                  have hgood : ¬ Good env o hashArg c := by
                    intro hg
                    rw [hashVerdict_good hf hg] at hv
                    cases hv
                  rw [meets_next (hround.trans hnext) hdown.retval hgood,
                    meets_carried hdown.validSig (hdown.usable.trans hu) hdown.retval]
                  constructor
                  · exact fun h => ⟨hyes, fun _ => h.2⟩
                  · exact fun h => ⟨fun hbad => absurd hyes hbad.2, h.2 rfl⟩
                · obtain ⟨hash, t, hstop, ht⟩ :=
                    signedRound_taken (some true) hu' hv
                  rw [meets_stop (hround.trans hstop), not_unverified_iff hf]
                  constructor
                  · exact fun _ => ⟨hyes, fun hno => by cases hno⟩
                  · exact fun _ => ⟨fun _ => ⟨rfl, hyes⟩, hyes, fun _ => ht⟩

end Searches

section Runs

/-- What --need-sig asks of a run: it returns 0 only for a candidate that has been
verified, and its search is as it should be. -/
structure NeedSigMet (env : Env) (w : World) (opts : List Opt) : Prop where
  verified : ∀ rounds, realmain env w opts = .returned 0 rounds →
    ∃ c r, (w.candidates.zip rounds).getLast? = some (c, r) ∧ r.signature = some true ∧
      OwnSignature env (options opts) c
  found : ∀ s, start env (options opts) w = .ready s →
    (∃ c ∈ w.candidates, Good env (options opts) s.hashArg c) →
      ∃ rounds, realmain env w opts = .raised rounds ∨ realmain env w opts = .returned 0 rounds
  search : ∀ s, start env (options opts) w = .ready s →
    MeetsNeedSig env (options opts) s.hashArg w.candidates (candidates env (options opts) s w.candidates)

/-- When a run meets it: with a trusted hash file, no candidate is taken for its hash
alone; otherwise the first candidate with a signature has a valid one and, if that
one is turned down for its hash, no candidate behind it is taken for its hash alone. -/
def NeedSigHolds (env : Env) (o : Options) (w : World) : Prop :=
  ∀ s, start env o w = .ready s →
    (Trusted env o w → PassedOver env o s.hashArg w.candidates) ∧
      (¬ Trusted env o w → FirstSigned env o s.hashArg w.candidates)

variable {w : World} {opts : List Opt}

theorem realmain_found {s : HashState} (hs : start env (options opts) w = .ready s)
    (h : Found (candidates env (options opts) s w.candidates).2) :
    ∃ rounds, realmain env w opts = .raised rounds ∨ realmain env w opts = .returned 0 rounds := by
  rcases hrs : candidates env (options opts) s w.candidates with ⟨rs, e⟩
  rw [hrs] at h
  obtain he | ⟨t, he, ht⟩ := h
  · refine ⟨rs, .inl ?_⟩
    simp only at he
    simp only [realmain, hs, hrs, he]
  · refine ⟨rs, .inr ?_⟩
    simp only at he
    simp only [realmain, hs, hrs, he, ht]

theorem needSigMet_iff : NeedSigMet env w opts ↔ ∀ s, start env (options opts) w = .ready s →
    MeetsNeedSig env (options opts) s.hashArg w.candidates (candidates env (options opts) s w.candidates) := by
  constructor
  · exact fun h => h.search
  · intro h
    refine ⟨?_, ?_, h⟩
    · intro rounds hrun
      obtain ⟨s, t, hs, hrounds, hend, ht⟩ := realmain_zero hrun
      rw [← hrounds]
      exact (h s hs).verified t hend ht
    · intro s hs ⟨c, hc, hg⟩
      exact realmain_found hs ((h s hs).found c hc hg)

/-- When a search for a signed candidate does what --need-sig asks for. -/
theorem need_sig_met (env : Env) (w : World) (opts : List Opt) (hneed : (options opts).needSig = true) :
    NeedSigMet env w opts ↔ NeedSigHolds env (options opts) w := by
  rw [needSigMet_iff, NeedSigHolds]
  apply forall_congr'
  intro s
  apply imp_congr_right
  intro hs
  let s₁ : LoopState := ⟨s.validSig, s.hashArg, 1⟩
  have hret : s₁.retval ≠ 0 := Nat.one_ne_zero
  have hu : usable s₁.hashArg = usable s.hashArg := rfl
  rw [candidates]
  by_cases hv : s.validSig = true
  · have htrusted := (start_ready hs).mp hv
    have hv₁ : s₁.validSig = true := hv
    rw [meets_carried hv₁ hu hret]
    exact ⟨fun h => ⟨fun _ => h, fun hno => absurd htrusted hno⟩, fun h => h.1 htrusted⟩
  · have htrusted : ¬ Trusted env (options opts) w := fun htrusted => hv ((start_ready hs).mpr htrusted)
    rw [Bool.not_eq_true] at hv
    have hv₁ : s₁.validSig = false := hv
    rw [meets_first hneed hv₁ hu hret]
    exact ⟨fun h => ⟨fun hyes => absurd hyes htrusted, fun _ => h⟩, fun h => h.2 htrusted⟩

end Runs

/-- Files that are empty have the digest 00, others ff. -/
def searchEnv : Env where
  defaultHashAlgo := sha256
  secureProtocols := [['h', 't', 't', 'p', 's']]
  signatureExtensions := [['s', 'i', 'g']]
  allowUnverifiedDownloads := false
  hashlib := fun _ => some fun bytes => if bytes = [] then ['0', '0'] else ['f', 'f']

def searched (signature : Option Nat) (bytes : List UInt8) : Candidate where
  name := some ['a']
  scheme := ['h', 't', 't', 'p', 's']
  sigurl := none
  present := fun _ => signature.isSome
  verifier := fun _ => ⟨some 0, .exited (signature.getD 0)⟩
  container := some (.block bytes)
  bz2 := none
  gzip := none

def searchWorld (candidates : List Candidate) : World where
  mkdir := .made
  hashFiles := []
  listable := true
  hashDir := some none
  candidates := candidates

/-- Behind an unsigned candidate a signed one is found. -/
theorem need_sig_met_two :
    NeedSigMet searchEnv (searchWorld [searched none [], searched (some 0) []]) [.url ['u'], .needSig] := by
  apply (need_sig_met searchEnv _ [.url ['u'], .needSig] rfl).mpr
  intro s hs
  have htrusted : ¬ Trusted searchEnv (options [.url ['u'], .needSig])
      (searchWorld [searched none [], searched (some 0) []]) := fun h => absurd h.1 (by decide)
  refine ⟨fun hyes => absurd hyes htrusted, fun _ => ?_⟩
  have hown : OwnSignature searchEnv (options [.url ['u'], .needSig]) (searched (some 0) []) :=
    ⟨['a'], ['a', '.', 's', 'i', 'g'], by decide +kernel, by decide +kernel, by decide +kernel⟩
  exact ⟨hown, fun hno => by cases hno⟩

/-- A candidate with an invalid signature is not deleted, and the good one behind it
is not found. One whose signature is valid and whose hash is not the expected one
makes an unsigned candidate behind it acceptable. -/
theorem need_sig_missed :
    ¬ NeedSigMet searchEnv (searchWorld [searched (some 1) [], searched (some 0) []]) [.url ['u'], .needSig] ∧
    realmain searchEnv (searchWorld [searched (some 1) [], searched (some 0) []]) [.url ['u'], .needSig] =
      .returned 1 [⟨some false, none, false⟩] ∧
    ¬ NeedSigMet searchEnv (searchWorld [searched (some 0) [1], searched none []])
      [.url ['u'], .needSig, .needHash, .hash (sha256 ++ [':', '0', '0'])] ∧
    realmain searchEnv (searchWorld [searched (some 0) [1], searched none []])
      [.url ['u'], .needSig, .needHash, .hash (sha256 ++ [':', '0', '0'])] =
        .returned 0 [⟨some true, some false, true⟩, ⟨none, some true, false⟩] := by
  have hinvalid : realmain searchEnv (searchWorld [searched (some 1) [], searched (some 0) []])
      [.url ['u'], .needSig] = .returned 1 [⟨some false, none, false⟩] := by decide +kernel
  have hcarried : realmain searchEnv (searchWorld [searched (some 0) [1], searched none []])
      [.url ['u'], .needSig, .needHash, .hash (sha256 ++ [':', '0', '0'])] =
        .returned 0 [⟨some true, some false, true⟩, ⟨none, some true, false⟩] := by decide +kernel
  refine ⟨?_, hinvalid, ?_, hcarried⟩
  · intro h
    have hown : OwnSignature searchEnv (options [.url ['u'], .needSig]) (searched (some 0) []) :=
      ⟨['a'], ['a', '.', 's', 'i', 'g'], by decide +kernel, by decide +kernel, by decide +kernel⟩
    obtain ⟨rounds, hrun | hrun⟩ := h.found ⟨false, none⟩ (by decide +kernel)
      ⟨searched (some 0) [], by simp [searchWorld], hown, fun hno => by cases hno⟩
    · rw [hinvalid] at hrun
      cases hrun
    · rw [hinvalid] at hrun
      cases hrun
  · intro h
    obtain ⟨c, r, hlast, hsig, _⟩ := h.verified _ hcarried
    cases hlast
    cases hsig

end OiUserland.Fetch.NeedSig
