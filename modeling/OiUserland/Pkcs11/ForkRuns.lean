import OiUserland.Pkcs11.Ownership

namespace OiUserland.Pkcs11.ForkRuns

open Lib.Runs Lib.Chains Types Process Library Sessions SessionSteps QuietGet ForkedGet FreeLists Contexts Ownership

/-- A process with the free lists that still hold sessions from before the last
fork that was noticed, by pk11_get_session of another type. -/
structure Watched where
  world : World := {}
  leftover : Pk11OpType → Bool := fun _ => false

def leftoverAfter (o : Op) (v : Watched) (w' : World) : Pk11OpType → Bool :=
  match o with
  | .getSession _ t _ => fun t' =>
      decide ((if Forked v.world.eng then t' ≠ t else v.leftover t' = true) ∧ w'.eng.sessionCache t' ≠ 0)
  | _ => v.leftover

def watch (o : Op) (v : Watched) : Option Watched :=
  (step o v.world).map fun w' => ⟨w', leftoverAfter o v w'⟩

/-- Forks and calls of pk11_get_session and pk11_return_session, where a fork is
got over, and lists that were left over are not asked. -/
def Renews (o : Op) (v : Watched) : Prop :=
  match o with
  | .fork child => FreshPid v.world.eng child
  | .getSession _ t env =>
      (Forked v.world.eng → Recovers v.world.eng t env) ∧ (¬ Forked v.world.eng → v.leftover t = false)
  | .returnSession _ => True
  | _ => False

variable {v v' : Watched} {e e' : Engine} {o : Op} {t : Pk11OpType} {a r : Addr}
  {l : Pk11OpType → Bool} {env : GetResults}

def Listed (e : Engine) (t : Pk11OpType) (a : Addr) : Prop := ∃ l, IsChain e.next (e.sessionCache t) l ∧ a ∈ l

theorem listed_iff {lists : Pk11OpType → List Addr} (hc : IsChains e.next e.sessionCache lists) :
    Listed e t a ↔ a ∈ lists t := by
  constructor
  · intro ⟨l, hl, ha⟩
    rwa [(hc.chain t).unique hl]
  · intro ha
    exact ⟨lists t, hc.chain t, ha⟩

theorem not_listed (h : e.sessionCache t = 0) : ¬ Listed e t a := by
  intro ⟨l, hl, ha⟩
  rw [h] at hl
  rw [hl.zero] at ha
  cases ha

/-- Lists that were not left over hold sessions of this process, unless there is a
fork to notice. -/
def Own (e : Engine) (l : Pk11OpType → Bool) : Prop :=
  ¬ Forked e → ∀ t, l t = false → ∀ a, Listed e t a → ∀ s, e.session? a = some s → s.pid = e.self

structure Kept (v : Watched) : Prop where
  owned : Owned v.world
  processes : Processes v.world.eng
  own : Own v.world.eng v.leftover

theorem owned_chains {w : World} (hw : Owned w) : ∃ lists, IsChains w.eng.next w.eng.sessionCache lists := by
  obtain ⟨lists, hap⟩ := hw (.cipher 0)
  exact ⟨lists, hap.chains⟩

theorem own_quiet {lists : Pk11OpType → List Addr} (hc : IsChains e.next e.sessionCache lists) (hown : Own e l)
    (hquiet : ¬ Forked e) (hframe : QuietFrame e e' env) (h : Quiet e t env e' r) :
    Own e' fun t' => decide ((if Forked e then t' ≠ t else l t' = true) ∧ e'.sessionCache t' ≠ 0) := by
  intro _ t' hl a ha s hs
  obtain ⟨lists', hc', hsub⟩ := quiet_chains hc h
  obtain ⟨hold, hne⟩ := hsub t' a ((listed_iff hc').mp ha)
  have hl' : l t' = false := by
    by_contra hl'
    have hzero : e'.sessionCache t' = 0 := by
      by_contra hzero
      have := of_decide_eq_false hl
      rw [if_neg hquiet] at this
      exact this ⟨by simpa using hl', hzero⟩
    exact not_listed hzero ha
  rw [hframe.self]
  exact hown hquiet t' hl' a ((listed_iff hc).mpr hold) s ((quiet_others h hne).symm.trans hs)

theorem own_renewed {lists : Pk11OpType → List Addr} {sp : Addr} {tail : List Addr}
    (hc : IsChains e.next e.sessionCache lists) (horigin : Origin e t env.addr sp tail) (hforked : Forked e)
    (h : Renewed e t sp tail e' r) :
    Own e' fun t' => decide ((if Forked e then t' ≠ t else l t' = true) ∧ e'.sessionCache t' ≠ 0) := by
  intro _ t' hl a ha s hs
  obtain ⟨lists', hc', hsub⟩ := renewed_chains hc horigin h
  rcases hsub t' a ((listed_iff hc').mp ha) with ⟨rfl, -, -⟩ | ⟨-, ht, -, -⟩
  · rw [h.self]
    exact (h.ready s hs).pid
  · have hzero : e'.sessionCache t' = 0 := by
      by_contra hzero
      have := of_decide_eq_false hl
      rw [if_pos hforked] at this
      exact this ⟨ht, hzero⟩
    exact absurd ha (not_listed hzero)

/-- pk11_get_session keeps the invariant and hands out a session of this process. -/
theorem get_own (hv : Kept v) {k : Nat} (ho : Renews (.getSession k t env) v)
    (h : pk11GetSession v.world.eng t env = some (e', r)) :
    Kept ⟨v.world.withHolder k (e', r, t), leftoverAfter (.getSession k t env) v (v.world.withHolder k (e', r, t))⟩ ∧
      (r ≠ 0 → ∃ s, e'.session? r = some s ∧ s.pid = e'.self) := by
  obtain ⟨lists, hc⟩ := owned_chains hv.owned
  have hfree := (hv.owned (.holder k)).forget
  by_cases hforked : Forked v.world.eng
  · rcases pk11GetSession_forked h hforked hv.processes.self (ho.1 hforked) (hc.chain t) with
      ⟨rfl, hsame⟩ | ⟨sp, tail, horigin, hrenewed⟩
    · refine ⟨⟨hv.owned.withHolder (hfree.same hsame), hv.processes.same hsame,
        fun hno => absurd (hsame.forked hforked) hno⟩, fun hne => absurd rfl hne⟩
    · refine ⟨⟨hv.owned.withHolder (hfree.renewed horigin hrenewed), hv.processes.renewed hrenewed,
        own_renewed hc horigin hforked hrenewed⟩, fun hne => ?_⟩
      obtain ⟨rfl, hsome, -⟩ := hrenewed.given hne
      obtain ⟨s, hs⟩ := Option.isSome_iff_exists.mp hsome
      refine ⟨s, hs, ?_⟩
      rw [hrenewed.self]
      exact (hrenewed.ready s hs).pid
  · obtain ⟨hframe, hquiet⟩ := hv.processes.get_quiet hforked h
    refine ⟨⟨hv.owned.withHolder (hfree.quiet hquiet), hv.processes.quiet hframe hquiet,
      own_quiet hc hv.own hforked hframe hquiet⟩, fun hne => ?_⟩
    rw [hframe.self]
    cases hquiet with
    | nothing => exact absurd rfl hne
    | reused hhead hs hhere _ _ _ _ =>
        have hpid := hv.own hforked t (ho.2 hforked) _ ((listed_iff hc).mpr (head_mem hc hhead)) _ hs
        exact ⟨_, hhere, hpid⟩
    | new _ _ hhere _ _ _ => exact ⟨_, hhere, readySession_pid ..⟩

theorem owned_fork {w : World} {child : Nat} (hw : Owned w) : Owned { w with eng := forkInChild child w.eng } := by
  obtain ⟨hheap, hcache, -⟩ := forkInChild_frame child w.eng
  have hmem (a : Addr) : (forkInChild child w.eng).session? a = w.eng.session? a := by
    rw [Engine.session?, hheap, Engine.session?]
  intro o
  obtain ⟨lists, hap⟩ := hw o
  refine ⟨lists, ?_, fun b hb => (hap.others b hb).mono (fun hs => by rwa [hmem]) fun _ => id,
    fun hne => ⟨(hap.own hne).1.mono (fun hs => by rwa [hmem]) fun _ => id, (hap.own hne).2⟩⟩
  rw [show ({ w with eng := forkInChild child w.eng } : World).eng.sessionCache = _ from hcache]
  exact hap.chains.congr fun _ c _ => next_congr (hmem c)

theorem started_processes {w : World} (h : Started w) : Processes w.eng where
  self := h.self
  sessions := fun a s hs => by
    rw [h.heap] at hs
    cases hs
  unused := fun _ => h.heap
  inherited := fun _ a s hs => by
    rw [h.heap] at hs
    cases hs

theorem giveBack_own {k : Nat} (hv : Kept v)
    (h : pk11ReturnSession v.world.eng (v.world.holders k).1 (v.world.holders k).2 = some e') :
    Kept ⟨v.world.withHolder k (e', 0, (v.world.holders k).2), v.leftover⟩ := by
  have hheld := hv.owned (.holder k)
  refine ⟨hv.owned.withHolder (hheld.giveBack h), hv.processes.giveBack h, ?_⟩
  rcases pk11ReturnSession_cases h with rfl | ⟨hsp, s, hs, hpid, hput⟩
  · exact hv.own
  · intro _ t' hl a ha u hu
    have hquiet : ¬ Forked v.world.eng := fun hforked => hv.processes.inherited hforked _ s hs hpid
    obtain ⟨lists, hc, -, huse⟩ := hheld
    obtain ⟨lists', hc', hsub⟩ := putBack_chains hc hput hsp (huse hsp).1.notListed
    have hself : (v.world.withHolder k (e', 0, (v.world.holders k).2)).eng.self = v.world.eng.self := hput.self
    rw [hself]
    by_cases hne : a = (v.world.holders k).1
    · subst hne
      obtain rfl := Option.some.inj (hput.here.symm.trans hu)
      exact hpid
    · have hold := (hsub t' a ((listed_iff hc').mp ha)).resolve_left fun h => hne h.1
      exact hv.own hquiet t' hl a ((listed_iff hc).mpr hold) u ((hput.others a hne).symm.trans hu)

theorem fork_own {child : Nat} (hv : Kept v) (hfresh : FreshPid v.world.eng child) :
    Kept ⟨{ v.world with eng := forkInChild child v.world.eng }, v.leftover⟩ := by
  obtain ⟨hheap, hcache, hpid, hself, -⟩ := forkInChild_frame child v.world.eng
  have hmem (a : Addr) : (forkInChild child v.world.eng).session? a = v.world.eng.session? a := by
    rw [Engine.session?, hheap, Engine.session?]
  refine ⟨owned_fork hv.owned, hv.processes.fork hfresh, fun hquiet _ _ a _ s hs => ?_⟩
  · -- nothing is allocated before the first call
    have hzero : v.world.eng.pid = 0 := by
      by_contra hne
      refine hquiet ⟨?_, ?_⟩
      · rw [show ({ v.world with eng := forkInChild child v.world.eng } : World).eng.pid = _ from hpid]
        exact hne
      · rw [show ({ v.world with eng := forkInChild child v.world.eng } : World).eng.pid = _ from hpid,
          show ({ v.world with eng := forkInChild child v.world.eng } : World).eng.self = _ from hself]
        exact hfresh.ne_pid.symm
    have hnone := hv.processes.unused hzero a
    rw [← hmem a] at hnone
    rw [show (forkInChild child v.world.eng).session? a = some s from hs] at hnone
    cases hnone

theorem watch_kept (hv : Kept v) (ho : Renews o v) (h : watch o v = some v') : Kept v' := by
  obtain ⟨w', hstep, rfl⟩ := Option.map_eq_some_iff.mp h
  have hp := perform_of_step hstep
  cases o with
  | fork child =>
      obtain rfl := Option.some.inj hp
      exact fork_own hv ho
  | getSession k t env =>
      obtain ⟨⟨e₁, sp⟩, hget, rfl⟩ := Option.map_eq_some_iff.mp hp
      exact (get_own hv ho hget).1
  | returnSession k =>
      obtain ⟨e₁, hret, rfl⟩ := Option.map_eq_some_iff.mp hp
      exact giveBack_own hv hret
  | cipherInit | doCipher | cipherCleanup | digestInit | digestUpdate | digestFinal | digestCopy | digestCleanup =>
      exact absurd ho id

/-- An engine that has just been initialized, with nothing left over. -/
def Fresh (v : Watched) : Prop := Started v.world ∧ v.leftover = fun _ => false

theorem fresh_kept (h : Fresh v) : Kept v :=
  ⟨started_owned h.1, started_processes h.1, fun _ t _ _ ha => absurd ha (not_listed (h.1.cache t))⟩

/-- In every such run pk11_get_session returns, and hands out sessions of this
process only. Memory that is in use is not allocated again. -/
theorem reachable_ownSession {k : Nat} (hv : Reachable watch Renews Fresh v) (ho : Renews (.getSession k t env) v)
    (hmalloc : v.world.eng.sessionCache t = 0 → v.world.eng.session? env.addr = none) :
    ∃ e' r, pk11GetSession v.world.eng t env = some (e', r) ∧
      (r ≠ 0 → ∃ s, e'.session? r = some s ∧ s.pid = e'.self) := by
  have hkept := hv.invariant Kept (fun _ => fresh_kept) fun _ _ _ hv ho h => watch_kept hv ho h
  obtain ⟨lists, hc⟩ := owned_chains hkept.owned
  obtain ⟨⟨e', r⟩, hget⟩ := Option.isSome_iff_exists.mp (pk11GetSession_isSome (hc.chain t) hmalloc)
  exact ⟨e', r, hget, (get_own hkept ho hget).2⟩

/-- A child of a process that has used the engine gets its first session. -/
theorem reachable_ownSession_child : ∃ (e e' : Engine) (r : Addr), Forked e ∧
    pk11GetSession e .rsa { addr := 2 } = some (e', r) ∧ (r ≠ 0 → ∃ s, e'.session? r = some s ∧ s.pid = e'.self) := by
  have hrun : (watch (.getSession 0 .rsa {}) {}).any (fun v =>
      decide (v.world.eng.pid ≠ 2 ∧ ∀ p ∈ v.world.eng.heap.entries, p.2.pid ≠ 2) &&
        (watch (.fork 2) v).any fun v' => decide (Forked v'.world.eng ∧ v'.world.eng.sessionCache .rsa = 0 ∧
          v'.world.eng.session? 2 = none)) = true := by decide +kernel
  obtain ⟨v₁, hget, hrun⟩ := (Option.any_eq_true _ _).mp hrun
  obtain ⟨hpids, hrun⟩ := Bool.and_eq_true_iff.mp hrun
  obtain ⟨hpid, hentries⟩ := of_decide_eq_true hpids
  obtain ⟨v₂, hfork, hchild⟩ := (Option.any_eq_true _ _).mp hrun
  obtain ⟨hforked, hempty, hfree⟩ := of_decide_eq_true hchild
  have h₁ : Reachable watch Renews Fresh v₁ :=
    .next (.getSession 0 .rsa {}) (.start ⟨started_default, rfl⟩) ⟨fun h => absurd rfl h.1, fun _ => rfl⟩ hget
  have h₂ : Reachable watch Renews Fresh v₂ :=
    .next (.fork 2) h₁ ⟨by decide, hpid.symm, fun a s hs => hentries _ (AList.mem_lookup_iff.mp hs)⟩ hfork
  have hok : Renews (.getSession 1 .rsa { addr := 2 }) v₂ :=
    ⟨fun _ => ⟨fun _ _ => rfl, fun h => absurd hempty h, fun h => absurd hempty h, fun h => absurd hempty h,
      fun h => absurd hempty h⟩, fun h => absurd hforked h⟩
  obtain ⟨e', r, hget, hown⟩ := reachable_ownSession h₂ hok fun _ => hfree
  exact ⟨_, e', r, hforked, hget, hown⟩

/-- Sessions of two types are used, and the one of the digests is in its list when
the process forks. The child asks for one for RSA first. -/
def inheriting : List Op :=
  [.getSession 0 .rsa {}, .getSession 1 .digest { addr := 2 }, .returnSession 1, .fork 2, .getSession 2 .rsa { addr := 3 }]

/-- Then it is given the session for digests that its parent opened. -/
theorem inherited_session : ∃ w e' r s, exec step inheriting {} = some w ∧
    pk11GetSession w.eng .digest {} = some (e', r) ∧ r ≠ 0 ∧ e'.session? r = some s ∧ s.pid ≠ e'.self := by
  have hrun : (exec step inheriting {}).any (fun w => (pk11GetSession w.eng .digest {}).any fun p =>
      decide (p.2 ≠ 0) && (p.1.session? p.2).any fun s => decide (s.pid ≠ p.1.self)) = true := by decide +kernel
  obtain ⟨w, hw, hget⟩ := (Option.any_eq_true _ _).mp hrun
  obtain ⟨⟨e', r⟩, hget, hgiven⟩ := (Option.any_eq_true _ _).mp hget
  obtain ⟨hne, hs⟩ := Bool.and_eq_true_iff.mp hgiven
  obtain ⟨s, hs, hpid⟩ := (Option.any_eq_true _ _).mp hs
  exact ⟨w, e', r, s, hw, hget, of_decide_eq_true hne, hs, of_decide_eq_true hpid⟩

end OiUserland.Pkcs11.ForkRuns
