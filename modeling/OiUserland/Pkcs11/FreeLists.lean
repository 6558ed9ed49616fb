import OiUserland.Pkcs11.ForkedGet
import OiUserland.Pkcs11.QuietGet

namespace OiUserland.Pkcs11.FreeLists

open Lib.Chains Types Process Library Sessions SessionSteps QuietGet ForkedGet

variable {e e' : Engine} {lists : Pk11OpType → List Addr} {t : Pk11OpType} {a sp r addr : Addr} {tail : List Addr}
  {env : GetResults}

theorem next_congr (h : e'.session? a = e.session? a) : e'.next a = e.next a := by
  rw [next_eq, next_eq, h]

theorem allocated_of_mem (hc : IsChains e.next e.sessionCache lists) (ha : a ∈ lists t) :
    ∃ s, e.session? a = some s := (hc.chain t).lookup ha

theorem head_mem (hc : IsChains e.next e.sessionCache lists) (hhead : e.sessionCache t ≠ 0) :
    e.sessionCache t ∈ lists t := by
  obtain ⟨_, _, _, _, hlist⟩ := (hc.chain t).head_mem hhead
  rw [hlist]
  exact List.mem_cons_self ..

theorem quiet_others (h : Quiet e t env e' r) (ha : a ≠ r) : e'.session? a = e.session? a := by
  cases h with
  | nothing hmem _ => exact hmem a
  | reused _ _ _ hmem _ _ _ => exact hmem a ha
  | new _ _ _ hmem _ _ => exact hmem a ha

theorem quiet_given (h : Quiet e t env e' r) (hr : r ≠ 0) :
    (e'.session? r).isSome ∧ (r = e.sessionCache t ∨ e.session? r = none) := by
  cases h with
  | nothing => exact absurd rfl hr
  | reused _ _ hhere _ _ _ _ => exact ⟨by rw [hhere, Option.isSome_some], .inl rfl⟩
  | new _ hfresh hhere _ _ _ => exact ⟨by rw [hhere, Option.isSome_some], .inr hfresh⟩

/-- The free lists after pk11_get_session without a fork to notice. -/
theorem quiet_chains (hc : IsChains e.next e.sessionCache lists) (h : Quiet e t env e' r) :
    ∃ lists', IsChains e'.next e'.sessionCache lists' ∧ ∀ t' c, c ∈ lists' t' → c ∈ lists t' ∧ c ≠ r := by
  cases h with
  | nothing hmem hcache =>
      obtain ⟨lists', hc', hsub⟩ := (hc.congr fun _ c _ => next_congr (hmem c)).drop hcache
      exact ⟨lists', hc', fun t' c hin => ⟨hsub t' c hin, (hc'.chain t').ne_zero hin⟩⟩
  | reused hhead hs hhere hmem hcache =>
      obtain ⟨lists', hc', hout, hsub⟩ := hc.pop hhead (by rw [next_eq, hs, Option.map_some])
        fun c hc => next_congr (hmem c hc)
      rw [← hcache] at hc'
      refine ⟨lists', hc', fun t' c hin => ⟨hsub t' c hin, ?_⟩⟩
      rintro rfl
      exact hout t' hin
  | new haddr hfresh hhere hmem hcache =>
      have hne (t' : Pk11OpType) (c : Addr) (hin : c ∈ lists t') : c ≠ env.addr := by
        rintro rfl
        obtain ⟨s, hs⟩ := allocated_of_mem hc hin
        rw [hs] at hfresh
        cases hfresh
      obtain ⟨lists', hc', hsub⟩ := (hc.congr fun t' c hin => next_congr (hmem c (hne t' c hin))).drop hcache
      exact ⟨lists', hc', fun t' c hin => ⟨hsub t' c hin, hne t' c (hsub t' c hin)⟩⟩

theorem putBack_chains {s : Pk11Session} (hc : IsChains e.next e.sessionCache lists) (hput : PutBack e e' sp t s)
    (hsp : sp ≠ 0) (hout : ∀ t', sp ∉ lists t') :
    ∃ lists', IsChains e'.next e'.sessionCache lists' ∧
      ∀ t' c, c ∈ lists' t' → c = sp ∧ t' = t ∨ c ∈ lists t' := by
  have hpush := hc.push hsp hout (by rw [next_eq, hput.here, Option.map_some]) fun c hc => next_congr (hput.others c hc)
  rwa [← hput.cache] at hpush

theorem origin_ne_zero (h : Origin e t addr sp tail) : sp ≠ 0 := by
  rcases h with ⟨-, haddr, -, rfl, -⟩ | ⟨hhead, rfl, -⟩
  · exact haddr
  · exact hhead

theorem origin_lists (hc : IsChains e.next e.sessionCache lists) (h : Origin e t addr sp tail) :
    (∀ t', t' ≠ t → sp ∉ lists t') ∧ ∀ c, c ∈ tail → c ∈ lists t := by
  rcases h with ⟨-, -, hfresh, rfl, rfl⟩ | ⟨hhead, rfl, hchain⟩
  · refine ⟨fun t' _ hin => ?_, fun c hin => absurd hin (by simp)⟩
    obtain ⟨s, hs⟩ := allocated_of_mem hc hin
    rw [hs] at hfresh
    cases hfresh
  · have hlist := (hc.chain t).unique hchain
    refine ⟨fun t' ht hin => ht (hc.apart t' t _ hin (head_mem hc hhead)), fun c hin => ?_⟩
    rw [hlist]
    exact List.mem_cons_of_mem _ hin

/-- The free lists after pk11_get_session in a new process. -/
theorem renewed_chains (hc : IsChains e.next e.sessionCache lists) (horigin : Origin e t addr sp tail)
    (h : Renewed e t sp tail e' r) :
    ∃ lists', IsChains e'.next e'.sessionCache lists' ∧
      ∀ t' c, c ∈ lists' t' → c = sp ∧ t' = t ∧ r = 0 ∨ c ∈ lists t' ∧ t' ≠ t ∧ c ≠ sp ∧ c ∉ tail := by
  obtain ⟨hsp, htail⟩ := origin_lists hc horigin
  have hkept (t' : Pk11OpType) (ht : t' ≠ t) (c : Addr) (hin : c ∈ lists t') : c ≠ sp ∧ c ∉ tail := by
    refine ⟨?_, fun hfreed => ht (hc.apart t' t c hin (htail c hfreed))⟩
    rintro rfl
    exact hsp t' ht hin
  -- all lists but the one that was asked for
  have hheads (t' : Pk11OpType) :
      (e'.setHead t 0).sessionCache t' = e.sessionCache t' ∨ (e'.setHead t 0).sessionCache t' = 0 := by
    by_cases ht : t' = t
    · subst ht
      exact .inr (setHead_same ..)
    · rw [setHead_ne ht]
      exact h.cache t'
  obtain ⟨lists₁, hc₁, hsub⟩ := hc.drop hheads
  have hempty : lists₁ t = [] := by
    have hzero := hc₁.chain t
    rw [setHead_same] at hzero
    exact hzero.zero
  have hother (t' : Pk11OpType) (c : Addr) (hin : c ∈ lists₁ t') : c ∈ lists t' ∧ t' ≠ t ∧ c ≠ sp ∧ c ∉ tail := by
    have ht : t' ≠ t := by
      rintro rfl
      rw [hempty] at hin
      cases hin
    exact ⟨hsub t' c hin, ht, hkept t' ht c (hsub t' c hin)⟩
  have hc₂ : IsChains e'.next (e'.setHead t 0).sessionCache lists₁ := by
    refine hc₁.congr fun t' c hin => next_congr ?_
    obtain ⟨-, -, hne, hnot⟩ := hother t' c hin
    rw [h.others c hne, if_neg hnot]
  by_cases hhere : e'.sessionCache t = 0
  · have hcache : (e'.setHead t 0).sessionCache = e'.sessionCache := by
      funext t'
      by_cases ht : t' = t
      · rw [ht, setHead_same, hhere]
      · rw [setHead_ne ht]
    rw [hcache] at hc₂
    exact ⟨lists₁, hc₂, fun t' c hin => .inr (hother t' c hin)⟩
  · obtain ⟨hheadsp, s, hs, hnext⟩ := h.listed hhere
    have hr : r = 0 := by
      by_contra hr
      exact hhere (h.given hr).2.2
    have hlink : e'.next sp = some ((e'.setHead t 0).sessionCache t) := by
      rw [next_eq, hs, Option.map_some, hnext, setHead_same]
    obtain ⟨lists', hc', hmem⟩ := hc₂.push (origin_ne_zero horigin)
      (fun t' hin => (hother t' sp hin).2.2.1 rfl) hlink fun _ _ => rfl
    have hcache : Function.update (e'.setHead t 0).sessionCache t sp = e'.sessionCache := by
      funext t'
      by_cases ht : t' = t
      · rw [ht, Function.update_self, hheadsp]
      · rw [Function.update_of_ne ht, setHead_ne ht]
    rw [hcache] at hc'
    exact ⟨lists', hc', fun t' c hin => (hmem t' c hin).imp (fun ⟨hcsp, ht⟩ => ⟨hcsp, ht, hr⟩) (hother t' c)⟩

structure Processes (e : Engine) : Prop where
  self : e.self ≠ 0
  sessions : ∀ a s, e.session? a = some s → s.pid ≠ 0
  unused : e.pid = 0 → ∀ a, e.session? a = none
  inherited : Forked e → ∀ a s, e.session? a = some s → s.pid ≠ e.self

theorem processes_of_noticed (hself : e.self ≠ 0) (hpid : e'.pid = e.self) (hself' : e'.self = e.self)
    (hsessions : ∀ a s, e'.session? a = some s → s.pid ≠ 0) : Processes e' where
  self := by rw [hself']; exact hself
  sessions := hsessions
  unused := fun hzero => absurd (hpid.symm.trans hzero) hself
  inherited := fun hforked => absurd (hpid.trans hself'.symm) hforked.2

theorem Processes.quiet (hp : Processes e) (hframe : QuietFrame e e' env) (h : Quiet e t env e' r) : Processes e' := by
  refine processes_of_noticed hp.self hframe.pid hframe.self fun a s hs => ?_
  by_cases ha : a = r
  · subst ha
    cases h with
    | nothing hmem _ => exact hp.sessions _ s ((hmem 0).symm.trans hs)
    | reused _ hs₀ hhere _ _ _ _ =>
        obtain rfl := Option.some.inj (hhere.symm.trans hs)
        have hpid := hp.sessions _ _ hs₀
        exact hpid
    | new _ _ hhere _ _ _ =>
        obtain rfl := Option.some.inj (hhere.symm.trans hs)
        rw [readySession_pid]
        exact hp.self
  · exact hp.sessions a s ((quiet_others h ha).symm.trans hs)

theorem Processes.renewed (hp : Processes e) (h : Renewed e t sp tail e' r) : Processes e' := by
  refine processes_of_noticed hp.self h.pid h.self fun a s hs => ?_
  by_cases ha : a = sp
  · subst ha
    rw [(h.ready s hs).pid]
    exact hp.self
  · rw [h.others a ha] at hs
    split at hs
    · cases hs
    · exact hp.sessions a s hs

theorem Processes.congr (hp : Processes e) (hmem : ∀ a, (e'.session? a).map Pk11Session.pid = (e.session? a).map Pk11Session.pid)
    (hpid : e'.pid = e.pid) (hself : e'.self = e.self) : Processes e' := by
  have hback (a : Addr) (s : Pk11Session) (hs : e'.session? a = some s) : ∃ u, e.session? a = some u ∧ u.pid = s.pid := by
    have := hmem a
    rw [hs, Option.map_some] at this
    exact Option.map_eq_some_iff.mp this.symm
  constructor
  · rw [hself]
    exact hp.self
  · intro a s hs
    obtain ⟨u, hu, heq⟩ := hback a s hs
    rw [← heq]
    exact hp.sessions a u hu
  · intro hzero a
    have hnone := hmem a
    rw [hp.unused (hpid.symm.trans hzero) a, Option.map_none] at hnone
    exact Option.map_eq_none_iff.mp hnone
  · intro hforked a s hs
    obtain ⟨u, hu, heq⟩ := hback a s hs
    rw [← heq, hself]
    refine hp.inherited ⟨?_, ?_⟩ a u hu
    · rw [← hpid]
      exact hforked.1
    · rw [← hpid, ← hself]
      exact hforked.2

theorem Processes.same (hp : Processes e) (h : SameSessions e e') : Processes e' :=
  hp.congr (fun a => congrArg _ (h.session? a)) h.pid h.self

theorem Processes.giveBack (hp : Processes e) (h : pk11ReturnSession e sp t = some e') : Processes e' := by
  rcases pk11ReturnSession_cases h with rfl | ⟨-, s, hs, -, hput⟩
  · exact hp
  · refine hp.congr (fun a => ?_) hput.pid hput.self
    by_cases ha : a = sp
    · rw [ha, hput.here, hs, Option.map_some, Option.map_some]
    · rw [hput.others a ha]

structure FreshPid (e : Engine) (child : Nat) : Prop where
  ne_zero : child ≠ 0
  ne_pid : child ≠ e.pid
  sessions : ∀ a s, e.session? a = some s → s.pid ≠ child

theorem forkInChild_frame (child : Nat) (e : Engine) :
    (forkInChild child e).heap = e.heap ∧ (forkInChild child e).sessionCache = e.sessionCache ∧
      (forkInChild child e).pid = e.pid ∧ (forkInChild child e).self = child ∧ (forkInChild child e).opened = [] := by
  cases ha : e.atforkInitialized <;> cases hl : e.libraryInitialized <;>
    simp [forkInChild, pk11ForkPrepare, pk11ForkChild, ha, hl]

theorem Processes.fork {child : Nat} (hp : Processes e) (hfresh : FreshPid e child) : Processes (forkInChild child e) := by
  obtain ⟨hheap, -, hpid, hself, -⟩ := forkInChild_frame child e
  have hmem (a : Addr) : (forkInChild child e).session? a = e.session? a := by
    rw [Engine.session?, hheap, Engine.session?]
  constructor
  · rw [hself]
    exact hfresh.ne_zero
  · intro a s hs
    exact hp.sessions a s ((hmem a).symm.trans hs)
  · intro hzero a
    rw [hmem]
    exact hp.unused (hpid.symm.trans hzero) a
  · intro _ a s hs
    rw [hself]
    exact hfresh.sessions a s ((hmem a).symm.trans hs)

theorem Processes.get_quiet (hp : Processes e) (hquiet : ¬ Forked e) (h : pk11GetSession e t env = some (e', r)) :
    QuietFrame e e' env ∧ Quiet e t env e' r :=
  pk11GetSession_quiet h hquiet fun s hs => hp.sessions _ s hs

end OiUserland.Pkcs11.FreeLists
