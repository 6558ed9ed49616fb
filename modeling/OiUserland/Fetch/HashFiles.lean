import OiUserland.Fetch.Realmain

namespace OiUserland.Fetch.HashFiles

open Lib.Loops Checks Realmain

variable {env : Env} {o : Options}

def signed (env : Env) (f : HashFile) : Bool := f.name.bind (checkSignatures env f) == some true

def denied (env : Env) (o : Options) (f : HashFile) : Bool :=
  !signed env f && (!isSafe env f.scheme || o.needSig)

def decides (env : Env) (o : Options) (f : HashFile) : Bool := !denied env o f && truthy f.hash.join

def considered (env : Env) (o : Options) : List HashFile → List HashFile
  | [] => []
  | f :: fs => if decides env o f then [f] else f :: considered env o fs

def Trusted (env : Env) (o : Options) (w : World) : Prop :=
  (o.clobber || o.getHash) = true ∧
    ∃ f, (considered env o w.hashFiles).getLast? = some f ∧ signed env f = true

section Rounds

variable {s s' : HashState} {f : HashFile}

theorem hashFileRound_next (h : hashFileRound env o s f = ((), .next s')) :
    s'.validSig = signed env f ∧ decides env o f = false := by
  cases hn : f.name with
  | none =>
      simp only [hashFileRound, hn] at h
      cases h
  | some name =>
      cases hc : checkSignatures env f name with
      | none =>
          simp only [hashFileRound, hn, hc] at h
          cases h
      | some validSig =>
          have hsigned : signed env f = validSig := by
            simp [signed, hn, hc]
          simp only [hashFileRound, hn, hc] at h
          by_cases hd : (!validSig && (!isSafe env f.scheme || o.needSig)) = true
          · rw [if_pos hd] at h
            have hdenied : denied env o f = true := by rw [denied, hsigned, hd]
            by_cases hr : (f.removable && env.signatureExtensions ≠ []) = true
            · rw [if_pos hr] at h
              cases h
              exact ⟨hsigned.symm, by rw [decides, hdenied]; rfl⟩
            · rw [if_neg hr] at h
              cases h
          · rw [if_neg hd] at h
            cases hh : f.hash with
            | none =>
                simp only [hh] at h
                cases h
            | some hashArg =>
                simp only [hh] at h
                by_cases ht : truthy hashArg = true
                · rw [if_pos ht] at h
                  cases h
                · rw [if_neg ht] at h
                  cases h
                  refine ⟨hsigned.symm, ?_⟩
                  rw [decides, hh, Option.join_some, Bool.eq_false_iff.mpr ht, Bool.and_false]

theorem hashFileRound_stop (h : hashFileRound env o s f = ((), .stop s')) :
    s'.validSig = signed env f ∧ decides env o f = true := by
  cases hn : f.name with
  | none =>
      simp only [hashFileRound, hn] at h
      cases h
  | some name =>
      cases hc : checkSignatures env f name with
      | none =>
          simp only [hashFileRound, hn, hc] at h
          cases h
      | some validSig =>
          have hsigned : signed env f = validSig := by
            simp [signed, hn, hc]
          simp only [hashFileRound, hn, hc] at h
          by_cases hd : (!validSig && (!isSafe env f.scheme || o.needSig)) = true
          · rw [if_pos hd] at h
            by_cases hr : (f.removable && env.signatureExtensions ≠ []) = true
            · rw [if_pos hr] at h
              cases h
            · rw [if_neg hr] at h
              cases h
          · rw [if_neg hd] at h
            have hdenied : denied env o f = false := by
              rw [denied, hsigned, Bool.eq_false_iff.mpr hd]
            cases hh : f.hash with
            | none =>
                simp only [hh] at h
                cases h
            | some hashArg =>
                simp only [hh] at h
                by_cases ht : truthy hashArg = true
                · rw [if_pos ht] at h
                  cases h
                  refine ⟨hsigned.symm, ?_⟩
                  rw [decides, hdenied, hh, Option.join_some, ht]
                  rfl
                · rw [if_neg ht] at h
                  cases h

end Rounds

def final {State : Type} : Ending State → Option State
  | .exhausted s => some s
  | .stopped s => some s
  | .raised => none

theorem loop_validSig {fs : List HashFile} {s t : HashState}
    (h : final (loop (hashFileRound env o) s fs).2 = some t) :
    t.validSig = (((considered env o fs).getLast?.map (signed env)).getD s.validSig) := by
  induction fs generalizing s with
  | nil =>
      cases h
      rfl
  | cons f fs ih =>
      rcases hb : hashFileRound env o s f with ⟨_, s' | s' | _⟩
      · rw [loop_next hb] at h
        obtain ⟨hvalid, hdecides⟩ := hashFileRound_next hb
        rw [ih h, considered, if_neg (by rw [hdecides]; exact Bool.false_ne_true), List.getLast?_cons, hvalid]
        cases (considered env o fs).getLast? <;> rfl
      · rw [loop_stop hb] at h
        cases h
        obtain ⟨hvalid, hdecides⟩ := hashFileRound_stop hb
        rw [considered, if_pos hdecides]
        exact hvalid
      · rw [loop_raised hb] at h
        cases h

theorem sourceHashes_ready {w : World} {t : HashState} (h : sourceHashes env o w = .ready t) :
    final (loop (hashFileRound env o) ⟨false, o.hashArg⟩ w.hashFiles).2 = some t := by
  rw [sourceHashes] at h
  cases hm : w.mkdir with
  | noParent =>
      simp only [hm] at h
      cases h
  | raises =>
      simp only [hm] at h
      cases h
  | made =>
      simp only [hm] at h
      rcases hl : (loop (hashFileRound env o) ⟨false, o.hashArg⟩ w.hashFiles).2 with s | s | _
      · simp only [hl] at h
        by_cases hc : (o.clobber && !w.listable) = true
        · rw [if_pos hc] at h
          cases h
        · rw [if_neg hc] at h
          cases h
          rfl
      · simp only [hl] at h
        by_cases hc : (o.clobber && !w.listable) = true
        · rw [if_pos hc] at h
          cases h
        · rw [if_neg hc] at h
          cases h
          rfl
      · simp only [hl] at h
        cases h

theorem findHash_validSig {w : World} {t : HashState} (h : findHash env o w = .ready t) :
    t.validSig = true ↔ Trusted env o w := by
  rw [findHash] at h
  by_cases hs : (o.clobber || o.getHash) = true
  · rw [if_pos hs] at h
    rw [loop_validSig (sourceHashes_ready h), Trusted]
    cases (considered env o w.hashFiles).getLast? <;> simp [hs]
  · rw [if_neg hs] at h
    have hvalid : t.validSig = false := by
      by_cases hnone : o.hashArg = none
      · rw [if_pos hnone] at h
        cases hd : w.hashDir with
        | none =>
            simp only [hd] at h
            cases h
        | some hashArg =>
            simp only [hd] at h
            cases h
            rfl
      · rw [if_neg hnone] at h
        cases h
        rfl
    rw [hvalid]
    constructor
    · intro hno
      cases hno
    · exact fun htrusted => absurd htrusted.1 hs

theorem start_ready {w : World} {t : HashState} (h : start env o w = .ready t) :
    t.validSig = true ↔ Trusted env o w := by
  rw [start] at h
  by_cases hfile : o.urlArg = none ∧ o.fileArg = none
  · rw [if_pos hfile] at h
    cases h
  · rw [if_neg hfile] at h
    rcases hf : findHash env o w with _ | code | s
    · simp only [hf] at h
      cases h
    · simp only [hf] at h
      cases h
    · simp only [hf] at h
      by_cases hneed : (s.hashArg = none ∨ s.hashArg = some noneArg) ∧ o.needHash = true
      · rw [if_pos hneed] at h
        cases h
      · rw [if_neg hneed] at h
        cases h
        exact findHash_validSig hf

theorem findHash_returned {w : World} {code : Nat} (h : findHash env o w = .returned code) : code ≠ 0 := by
  rw [findHash] at h
  by_cases hs : (o.clobber || o.getHash) = true
  · rw [if_pos hs, sourceHashes] at h
    cases hm : w.mkdir with
    | noParent =>
        simp only [hm] at h
        cases h
        exact Nat.one_ne_zero
    | raises =>
        simp only [hm] at h
        cases h
    | made =>
        simp only [hm] at h
        rcases hl : (loop (hashFileRound env o) ⟨false, o.hashArg⟩ w.hashFiles).2 with s | s | _
        · simp only [hl] at h
          by_cases hc : (o.clobber && !w.listable) = true
          · rw [if_pos hc] at h
            cases h
          · rw [if_neg hc] at h
            cases h
        · simp only [hl] at h
          by_cases hc : (o.clobber && !w.listable) = true
          · rw [if_pos hc] at h
            cases h
          · rw [if_neg hc] at h
            cases h
        · simp only [hl] at h
          cases h
  · rw [if_neg hs] at h
    by_cases hnone : o.hashArg = none
    · rw [if_pos hnone] at h
      cases hd : w.hashDir with
      | none =>
          simp only [hd] at h
          cases h
      | some hashArg =>
          simp only [hd] at h
          cases h
    · rw [if_neg hnone] at h
      cases h

theorem start_returned {w : World} {code : Nat} (h : start env o w = .returned code) : code ≠ 0 := by
  rw [start] at h
  by_cases hfile : o.urlArg = none ∧ o.fileArg = none
  · rw [if_pos hfile] at h
    cases h
  · rw [if_neg hfile] at h
    rcases hf : findHash env o w with _ | code' | s
    · simp only [hf] at h
      cases h
    · simp only [hf] at h
      cases h
      exact findHash_returned hf
    · simp only [hf] at h
      by_cases hneed : (s.hashArg = none ∨ s.hashArg = some noneArg) ∧ o.needHash = true
      · rw [if_pos hneed] at h
        cases h
        exact Nat.succ_ne_zero _
      · rw [if_neg hneed] at h
        cases h

end OiUserland.Fetch.HashFiles
