import Mathlib.Algebra.GroupWithZero.Nat
import OiUserland.Lib.Runs
import OiUserland.Pkcs11.RsaKeySteps

namespace OiUserland.Pkcs11.RsaKeyRuns

open Lib.RefCounts Lib.Runs Types RsaKeys RsaKeyCounts RsaKeySteps

def cached (sessions : List Pk11Session) (h : Handle) : Nat := (sessions.map fun sp => caches sp h).sum

/-- No handle has two entries, and the count of an entry is the number of fields that cache its handle. -/
structure Counted (s : Keys) : Prop where
  oneEntry : OneEntry s.active
  count : ∀ h, h ≠ ckInvalidHandle → refs h s.active = cached s.sessions h

/-- A call destroys only objects that no session caches after it. A handle that it takes from the last
field is destroyed, unless a session that cached it is marked persistent. -/
structure Released (s s' : Keys) (destroyed : List Handle) : Prop where
  unused : ∀ h ∈ destroyed, h ≠ ckInvalidHandle → cached s'.sessions h = 0
  last : ∀ h, h ≠ ckInvalidHandle → 0 < cached s.sessions h → cached s'.sessions h = 0 →
    h ∈ destroyed ∨ ∃ sp ∈ s.sessions, sp.persistent = true ∧ 0 < caches sp h

/-- Every call keeps the counts and destroys what it has to. -/
def Exact : Keys → List (Keys × List Handle) → Prop
  | _, [] => True
  | s, c :: t => Counted c.1 ∧ Released s c.1 c.2 ∧ Exact c.1 t

/-- What PKCS#11 answers: an object that is created has the handle of no object that is cached. -/
def Answers : Op → Keys → Prop
  | .lookupPub i rsa r destroys, s => ∀ sp, s.sessions[i]? = some sp → FreshPub destroys rsa r sp s.active
  | .lookupPriv i rsa r destroys, s => ∀ sp, s.sessions[i]? = some sp → FreshPriv destroys rsa r sp s.active
  | .loadFile i isPrivate file r destroys, s =>
      ∀ sp, s.sessions[i]? = some sp → FreshFile isPrivate destroys file r sp s.active
  | .loadToken i isPrivate k r destroys, s =>
      ∀ sp, s.sessions[i]? = some sp → FreshToken isPrivate destroys k r sp s.active
  | .setupSession, _ => True
  | .destroy _ _, _ => True

/-- No handle is stored without being counted: the end of a search that found an object does not fail,
nor does a call after a token key was stored, and a key from a file is not cached already. -/
def Careful : Op → Keys → Prop
  | .lookupPub _ _ r _, _ => Ends r
  | .lookupPriv _ _ r _, _ => Ends r
  | .loadFile i isPrivate file r _, s => Ends r ∧ ∀ sp, s.sessions[i]? = some sp → Misses isPrivate file sp
  | .loadToken _ _ k r _, _ => Ends r ∧ Completes k
  | .setupSession, _ => True
  | .destroy _ _, _ => True

variable {s : Keys} {i : Nat} {sp : Pk11Session} {c : Called} {h : Handle} {destroys : Handle → Bool}

theorem cached_set {sessions : List Pk11Session} (hsp : sessions[i]? = some sp) (sp' : Pk11Session) (h : Handle) :
    cached (sessions.set i sp') h + caches sp h = cached sessions h + caches sp' h := by
  induction sessions generalizing i with
  | nil => cases hsp
  | cons a l ih =>
      cases i with
      | zero =>
          cases hsp
          simp only [cached, List.set_cons_zero, List.map_cons, List.sum_cons]
          omega
      | succ i =>
          have hl := ih hsp
          simp only [cached, List.set_cons_succ, List.map_cons, List.sum_cons] at hl ⊢
          omega

theorem caches_le {sessions : List Pk11Session} (hsp : sessions[i]? = some sp) (h : Handle) :
    caches sp h ≤ cached sessions h := by
  induction sessions generalizing i with
  | nil => cases hsp
  | cons a l ih =>
      rw [cached, List.map_cons, List.sum_cons]
      cases i with
      | zero =>
          cases hsp
          exact Nat.le_add_right _ _
      | succ i => exact Nat.le_trans (ih hsp) (Nat.le_add_left _ _)

theorem Counted.held (hs : Counted s) (hsp : s.sessions[i]? = some sp) : Held sp s.active := by
  refine ⟨hs.oneEntry, fun h hne => ?_⟩
  rw [hs.count h hne]
  exact caches_le hsp h

theorem Counted.put (hs : Counted s) (hsp : s.sessions[i]? = some sp) (hc : Sound sp s.active c) :
    Counted (s.put i c) := by
  refine ⟨hc.2, fun h hne => ?_⟩
  have hbalance := hc.1.balance h hne
  have hset := cached_set hsp c.sp h
  have hcount := hs.count h hne
  change refs h c.active = cached (s.sessions.set i c.sp) h
  omega

theorem Counted.released (hs : Counted s) (hsp : s.sessions[i]? = some sp) (hc : Sound sp s.active c) :
    Released s (s.put i c) c.destroyed := by
  have hput := hs.put hsp hc
  constructor
  · intro h hmem hne
    rw [← hput.count h hne]
    exact hc.1.unused h hmem
  · intro h hne hpos hzero
    rw [← hs.count h hne] at hpos
    rw [← hput.count h hne] at hzero
    rcases hc.1.last h hne hpos hzero with hmem | ⟨hp, hcaches⟩
    · exact .inl hmem
    · exact .inr ⟨sp, List.mem_of_getElem? hsp, hp, hcaches⟩

theorem put_session (hsp : s.sessions[i]? = some sp) (c : Called) : (s.put i c).sessions[i]? = some c.sp :=
  List.getElem?_set_self (List.getElem?_eq_some_iff.mp hsp).1

theorem put_put (s : Keys) (i : Nat) (c d : Called) : (s.put i c).put i d = s.put i d := by
  simp only [Keys.put, List.set_set]

theorem Counted.exact_calls {t : List Called} (hs : Counted s) (hsp : s.sessions[i]? = some sp)
    (ht : Each Sound sp s.active t) : Exact s (t.map fun c => (s.put i c, c.destroyed)) := by
  induction t generalizing s sp with
  | nil => exact trivial
  | cons c t ih =>
      have hrest := ih (hs.put hsp ht.1) (put_session hsp c) ht.2
      simp only [put_put] at hrest
      exact ⟨hs.put hsp ht.1, hs.released hsp ht.1, hrest⟩

theorem Counted.setup (hs : Counted s) : Exact s [(⟨s.sessions ++ [({} : Pk11Session)], s.active⟩, [])] := by
  have hsame (h : Handle) (hne : h ≠ ckInvalidHandle) : cached (s.sessions ++ [({} : Pk11Session)]) h = cached s.sessions h := by
    have hnew : caches {} h = 0 := by
      rw [caches, if_neg (Ne.symm hne)]
    simp only [cached, List.map_append, List.map_singleton, List.sum_append, List.sum_singleton, hnew, Nat.add_zero]
  refine ⟨⟨hs.oneEntry, fun h hne => (hs.count h hne).trans (hsame h hne).symm⟩, ⟨(fun _ h => by cases h), fun h hne hpos hzero => ?_⟩, trivial⟩
  have hzero' : cached (s.sessions ++ [({} : Pk11Session)]) h = 0 := hzero
  rw [hsame h hne] at hzero'
  omega

theorem Counted.exact_destroy (hs : Counted s) (destroys : Handle → Bool) (chain : List Nat) :
    Exact s (pk11DestroyRsaKeyObjects destroys chain s) := by
  induction chain generalizing s with
  | nil => exact trivial
  | cons i is ih =>
      rw [pk11DestroyRsaKeyObjects]
      cases hsp : s.sessions[i]? with
      | none => exact ih hs
      | some sp =>
          have hpub := (hs.held hsp).destroyPub destroys
          have hs' := hs.put hsp hpub
          dsimp only
          split
          · exact ⟨hs', hs.released hsp hpub, ih hs'⟩
          · have hpriv := (hs'.held (put_session hsp _)).destroyPriv destroys
            have hs'' := hs'.put (put_session hsp _) hpriv
            have hreleased := hs'.released (put_session hsp _) hpriv
            rw [put_put] at hs'' hreleased
            exact ⟨hs', hs.released hsp hpub, hs'', hreleased, ih hs''⟩

theorem Counted.onSession {f : Pk11Session → ActiveList → List Called} {t : List (Keys × List Handle)}
    (hs : Counted s) (hcalls : s.onSession i f = some t)
    (hf : ∀ sp, s.sessions[i]? = some sp → Held sp s.active → Each Sound sp s.active (f sp s.active)) : Exact s t := by
  obtain ⟨sp, hsp, rfl⟩ := Option.map_eq_some_iff.mp hcalls
  exact hs.exact_calls hsp (hf sp hsp (hs.held hsp))

theorem Counted.calls {o : Op} {t : List (Keys × List Handle)} (hs : Counted s) (ha : Answers o s) (hc : Careful o s)
    (hcalls : calls o s = some t) : Exact s t := by
  cases o with
  | setupSession =>
      cases hcalls
      exact hs.setup
  | lookupPub i rsa r destroys => exact hs.onSession hcalls fun sp hsp hh => hh.lookupPub hc (ha sp hsp)
  | lookupPriv i rsa r destroys => exact hs.onSession hcalls fun sp hsp hh => hh.lookupPriv hc (ha sp hsp)
  | loadFile i isPrivate file r destroys =>
      exact hs.onSession hcalls fun sp hsp hh => hh.loadFile hc.1 (ha sp hsp) (hc.2 sp hsp)
  | loadToken i isPrivate k r destroys =>
      refine hs.onSession hcalls fun sp hsp hh => ?_
      cases isPrivate with
      | true => exact hh.tokenPriv hc.2
      | false => exact hh.tokenPub hc.2 hc.1 (ha sp hsp)
  | destroy chain destroys =>
      cases hcalls
      exact hs.exact_destroy destroys chain

theorem Exact.last {t : List (Keys × List Handle)} (hs : Counted s) (ht : Exact s t) :
    Counted ((t.getLast?.map Prod.fst).getD s) := by
  induction t generalizing s with
  | nil => exact hs
  | cons c t ih =>
      have hlast := ih ht.1 ht.2.2
      cases t with
      | nil => exact ht.1
      | cons d t =>
          rw [List.getLast?_cons_cons]
          exact hlast

theorem single_mem {active : ActiveList} {t : List Called} (hone : OneEntry active) (ht : Each Single sp active t) :
    ∀ c ∈ t, OneEntry c.active := by
  induction t generalizing sp active with
  | nil =>
      intro c hc
      cases hc
  | cons c t ih =>
      intro d hd
      rcases List.mem_cons.mp hd with rfl | hd
      · exact ht.1 hone
      · exact ih (ht.1 hone) ht.2 d hd

theorem oneEntry_onSession {f : Pk11Session → ActiveList → List Called} {t : List (Keys × List Handle)}
    (hone : OneEntry s.active) (hcalls : s.onSession i f = some t) (hf : ∀ sp, Each Single sp s.active (f sp s.active)) :
    ∀ c ∈ t, OneEntry c.1.active := by
  obtain ⟨sp, -, rfl⟩ := Option.map_eq_some_iff.mp hcalls
  intro c hc
  obtain ⟨d, hd, rfl⟩ := List.mem_map.mp hc
  exact single_mem hone (hf sp) d hd

theorem oneEntry_destroy (hone : OneEntry s.active) (destroys : Handle → Bool) (chain : List Nat) :
    ∀ c ∈ pk11DestroyRsaKeyObjects destroys chain s, OneEntry c.1.active := by
  induction chain generalizing s with
  | nil =>
      intro c hc
      cases hc
  | cons i is ih =>
      rw [pk11DestroyRsaKeyObjects]
      cases s.sessions[i]? with
      | none => exact ih hone
      | some sp =>
          have hpub : OneEntry (pk11DestroyRsaObjectPub destroys sp s.active).2.active := oneEntry_destroyPub hone
          dsimp only
          split
          · intro c hc
            rcases List.mem_cons.mp hc with rfl | hc
            · exact hpub
            · exact ih (s := s.put i _) hpub c hc
          · intro c hc
            rcases List.mem_cons.mp hc with rfl | hc
            · exact hpub
            · rcases List.mem_cons.mp hc with rfl | hc
              · exact oneEntry_destroyPriv hpub
              · exact ih (s := s.put i _) (oneEntry_destroyPriv hpub) c hc

theorem oneEntry_calls {o : Op} {t : List (Keys × List Handle)} (hone : OneEntry s.active) (hcalls : calls o s = some t) :
    ∀ c ∈ t, OneEntry c.1.active := by
  cases o with
  | setupSession =>
      cases hcalls
      intro c hc
      rw [List.mem_singleton.mp hc]
      exact hone
  | lookupPub i rsa r destroys => exact oneEntry_onSession hone hcalls fun _ => single_lookupPub
  | lookupPriv i rsa r destroys => exact oneEntry_onSession hone hcalls fun _ => single_lookupPriv
  | loadFile i isPrivate file r destroys => exact oneEntry_onSession hone hcalls fun _ => single_loadFile
  | loadToken i isPrivate k r destroys =>
      refine oneEntry_onSession hone hcalls fun sp => ?_
      cases isPrivate with
      | true => exact single_tokenPriv
      | false => exact single_tokenPub
  | destroy chain destroys =>
      cases hcalls
      exact oneEntry_destroy hone destroys chain

theorem oneEntry_step {o : Op} {s' : Keys} (hone : OneEntry s.active) (hs : step o s = some s') : OneEntry s'.active := by
  obtain ⟨t, ht, rfl⟩ := Option.map_eq_some_iff.mp hs
  cases hlast : t.getLast? with
  | none => exact hone
  | some c => exact oneEntry_calls hone ht c (List.mem_of_getLast? hlast)

theorem counted_step {o : Op} {s' : Keys} (hs : Counted s) (hok : Answers o s ∧ Careful o s) (hstep : step o s = some s') :
    Counted s' := by
  obtain ⟨t, ht, rfl⟩ := Option.map_eq_some_iff.mp hstep
  exact (hs.calls hok.1 hok.2 ht).last hs

/-- In every run a handle has one entry at most. In a run whose operations count what they store, the
counts are the numbers of cached references at each call, and objects are destroyed with the last one. -/
theorem reachable_counted (s : Keys) (h : Reachable step (fun _ _ => True) Empty s) :
    OneEntry s.active ∧ (Reachable step (fun o s => Answers o s ∧ Careful o s) Empty s →
      Counted s ∧ ∀ o t, Answers o s → Careful o s → calls o s = some t → Exact s t) := by
  constructor
  · refine h.invariant (fun s => OneEntry s.active) (fun s hs => ?_) fun o s s' hs _ hstep => oneEntry_step hs hstep
    rw [hs.2]
    exact List.nodup_nil
  · intro hcareful
    have hs : Counted s := by
      refine hcareful.invariant Counted (fun s hs => ?_) fun o s s' hs hok hstep => counted_step hs hok hstep
      refine ⟨?_, fun h _ => ?_⟩
      · rw [hs.2]
        exact List.nodup_nil
      · rw [hs.1, hs.2]
        rfl
    exact ⟨hs, fun o t ha hc hcalls => hs.calls ha hc hcalls⟩

def tokenKey : Keys :=
  ⟨[{ persistent := true, rsa := { privKey := 7, priv := some 1, nNum := some 1, eNum := some 1 } }],
    [⟨7, 1, Nat.one_pos⟩]⟩

theorem started_counted {ok : Op → Keys → Prop} (hok : ∀ s, ok .setupSession s) :
    Reachable step ok Empty ⟨[({} : Pk11Session)], []⟩ :=
  .next (s := ⟨[], []⟩) .setupSession (.start ⟨rfl, rfl⟩) (hok _) rfl

theorem reachable_counted_tokenKey : OneEntry tokenKey.active ∧ Counted tokenKey := by
  have hany : Reachable step (fun _ _ => True) Empty tokenKey :=
    .next (.loadToken 0 true { object := some 7 } {} fun _ => true) (started_counted fun _ => trivial) trivial rfl
  have hcareful : Reachable step (fun o s => Answers o s ∧ Careful o s) Empty tokenKey := by
    refine .next (.loadToken 0 true { object := some 7 } {} fun _ => true) (started_counted fun _ => ⟨trivial, trivial⟩)
      ⟨fun sp _ _ h => (by cases h), nofun, ?_⟩ rfl
    intro h hobj
    cases hobj
    exact ⟨by decide, rfl, rfl, rfl, rfl, rfl⟩
  obtain ⟨hone, hcounted⟩ := reachable_counted tokenKey hany
  exact ⟨hone, (hcounted hcareful).1⟩

/-- When the session loads another key, the last reference to the first one goes and the object stays. -/
theorem token_key_kept : ¬ ∀ s, Reachable step Answers Empty s → ∀ o c t, Answers o s → calls o s = some (c :: t) →
    ∀ h, h ≠ ckInvalidHandle → 0 < cached s.sessions h → (h ∈ c.2 ↔ cached c.1.sessions h = 0) := by
  intro hall
  have hreach : Reachable step Answers Empty tokenKey :=
    .next (.loadToken 0 true { object := some 7 } {} fun _ => true) (started_counted fun _ => trivial)
      (fun sp _ _ h => by cases h) rfl
  have hkept := hall tokenKey hreach (.loadToken 0 true { object := some 9 } {} fun _ => true) _ _
    (fun sp _ _ h => by cases h) rfl 7 (by decide) (by decide)
  exact absurd (hkept.mpr (by decide)) (by decide)

end OiUserland.Pkcs11.RsaKeyRuns
