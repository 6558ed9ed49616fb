import OiUserland.Pkcs11.SessionSteps

namespace OiUserland.Pkcs11.QuietGet

open Types Process Sessions SessionSteps

variable {e e' : Engine} {t : Pk11OpType} {r sp : Addr}

structure QuietFrame (e e' : Engine) (env : GetResults) : Prop where
  pid : e'.pid = e.self
  self : e'.self = e.self
  objects : e'.objects = e.objects ∨ e'.objects = fun _ => none
  opened : ¬ Restarts env.setup → e.opened ⊆ e'.opened

/-- What pk11_get_session hands out when there is no fork to notice: nothing, the
first session of the list, or a new one. Lists are never added to, and all of
them are emptied when the library is initialized again. -/
inductive Quiet (e : Engine) (t : Pk11OpType) (env : GetResults) (e' : Engine) : Addr → Prop
  | nothing (hmem : ∀ a, e'.session? a = e.session? a)
      (hcache : ∀ t', e'.sessionCache t' = e.sessionCache t' ∨ e'.sessionCache t' = 0) : Quiet e t env e' 0
  | reused {s : Pk11Session} (hhead : e.sessionCache t ≠ 0) (hs : e.session? (e.sessionCache t) = some s)
      (hhere : e'.session? (e.sessionCache t) = some { s with next := 0 })
      (hothers : ∀ a, a ≠ e.sessionCache t → e'.session? a = e.session? a)
      (hcache : e'.sessionCache = Function.update e.sessionCache t s.next)
      (hobjects : e'.objects = e.objects) (hopened : e'.opened = e.opened) : Quiet e t env e' (e.sessionCache t)
  | new (haddr : env.addr ≠ 0) (hfresh : e.session? env.addr = none)
      (hhere : e'.session? env.addr = some (readySession t {} (setupHandle env.setup) e.self))
      (hothers : ∀ a, a ≠ env.addr → e'.session? a = e.session? a)
      (hcache : ∀ t', e'.sessionCache t' = e.sessionCache t' ∨ e'.sessionCache t' = 0)
      (hopened : setupHandle env.setup ∈ e'.opened)
      (hrv : ¬ Restarts env.setup → env.setup.openFirst.rv = ckrOk) : Quiet e t env e' env.addr

variable {env : GetResults}

theorem quietFrame_of (t : Pk11OpType) (hpid : e'.pid = (underLock e t).pid) (hself : e'.self = (underLock e t).self)
    (hobjects : e'.objects = e.objects ∨ e'.objects = fun _ => none)
    (hopened : ¬ Restarts env.setup → e.opened ⊆ e'.opened) (hquiet : ¬ Forked e) : QuietFrame e e' env :=
  ⟨hpid.trans ((underLock_pid e t).mpr hquiet), hself, hobjects, hopened⟩

theorem session?_heap {a : Addr} (h : e'.heap = e.heap) : e'.session? a = e.session? a := by
  rw [Engine.session?, h, Engine.session?]

theorem opening_cache {senv : SetupResults} (h : Opening senv e e') (t : Pk11OpType) :
    e'.sessionCache t = e.sessionCache t ∨ e'.sessionCache t = 0 := by
  by_cases he : Empties senv
  · exact .inr (congrFun (h.emptied he) t)
  · exact .inl (congrFun (h.notEmptied he) t)

theorem opening_objects {senv : SetupResults} (h : Opening senv e e') :
    e'.objects = e.objects ∨ e'.objects = fun _ => none := by
  by_cases hr : Restarts senv
  · exact .inr (h.objects hr)
  · exact .inl (h.kept hr).1.objects

theorem quiet_new {k : Lock} (hempty : e.sessionCache t = 0) (haddr : env.addr ≠ 0)
    (hfresh : e.session? env.addr = none) (hquiet : ¬ Forked e)
    (h : GotQuietly ((underLock e t).store env.addr {}) t env.addr 0 k env e' r) :
    QuietFrame e e' env ∧ Quiet e t env e' r := by
  obtain ⟨e₁, sp₁, hinit, hleave⟩ := h
  obtain ⟨s, hs, hinit⟩ := initSession_spec hinit
  obtain rfl : {} = s := Option.some.inj ((session?_store _ _ _).symm.trans hs)
  rcases hinit with ⟨hpid, -⟩ | ⟨-, hinit⟩
  · exact absurd rfl hpid
  -- the memory that setting up starts from, and the lists at the end
  have hbase (a : Addr) (ha : a ≠ env.addr) :
      (((underLock e t).store env.addr {}).store env.addr {}).session? a = e.session? a := by
    rw [session?_store_ne ha, session?_store_ne ha]
    rfl
  have hcache {e₂ : Engine} (hopening : Opening env.setup (((underLock e t).store env.addr {}).store env.addr {}) e₂)
      (t' : Pk11OpType) : (e₂.setHead t 0).sessionCache t' = e.sessionCache t' ∨
        (e₂.setHead t 0).sessionCache t' = 0 := by
    by_cases ht : t' = t
    · subst ht
      exact .inr (setHead_same ..)
    · rw [setHead_ne ht]
      exact opening_cache hopening t'
  have hframe {e₂ : Engine} (hopening : Opening env.setup (((underLock e t).store env.addr {}).store env.addr {}) e₂)
      (e' : Engine) (hpid : e'.pid = e₂.pid) (hself : e'.self = e₂.self) (hobjects : e'.objects = e₂.objects)
      (hopened : e'.opened = e₂.opened) : QuietFrame e e' env := by
    refine quietFrame_of t (hpid.trans hopening.pid) (hself.trans hopening.self) ?_ (fun hr => ?_) hquiet
    · rw [hobjects]
      have hobj := opening_objects hopening
      exact hobj
    · rw [hopened]
      exact (hopening.kept hr).1.opened
  rcases hinit with ⟨hsetup, rfl⟩ | ⟨e₂, hsetup, rfl, rfl⟩
  · obtain ⟨s, e₂, hs, hopening, hfirst, ⟨h, -⟩ | ⟨-, rfl, hmem⟩⟩ := pk11SetupSession_spec hsetup
    · cases h
    obtain rfl : {} = s := Option.some.inj ((session?_store _ _ _).symm.trans hs)
    obtain ⟨rfl, ⟨hsp, -⟩ | ⟨-, s', hs', rfl⟩⟩ := leaveSession_spec hleave
    · exact absurd hsp haddr
    · obtain rfl : _ = s' := Option.some.inj ((session?_store _ _ _).symm.trans hs')
      refine ⟨hframe hopening _ rfl rfl rfl rfl, .new haddr hfresh ?_ (fun a ha => ?_) (fun t' => ?_) hmem fun hr => (hfirst hr).mp rfl⟩
      · rw [show ∀ e₃ : Engine, ∀ s₃, ((e₃.store env.addr s₃).release k).session? env.addr = some s₃ from
          fun e₃ s₃ => session?_store e₃ env.addr s₃]
        exact congrArg some (by cases t <;> rfl)
      · refine (session?_store_ne ha).trans ((session?_store_ne ha).trans ?_)
        exact (session?_heap hopening.heap).trans (hbase a ha)
      · have hlists := hcache hopening t'
        exact hlists
  · obtain ⟨s, e₂', hs, hopening, -, ⟨-, rfl⟩ | ⟨h, -⟩⟩ := pk11SetupSession_spec hsetup
    · obtain rfl : {} = s := Option.some.inj ((session?_store _ _ _).symm.trans hs)
      obtain ⟨rfl, ⟨-, rfl⟩ | ⟨h, -⟩⟩ := leaveSession_spec hleave
      · refine ⟨hframe hopening _ rfl rfl rfl rfl, .nothing (fun a => ?_) fun t' => ?_⟩
        · by_cases ha : a = env.addr
          · subst ha
            exact (session?_free _ _).trans hfresh.symm
          · exact (session?_free_ne ha).trans ((session?_heap hopening.heap).trans (hbase a ha))
        · have hlists := hcache hopening t'
          exact hlists
      · exact absurd rfl h
    · cases h

theorem quiet_reused {k : Lock} {s : Pk11Session} (hhead : e.sessionCache t ≠ 0)
    (hs : e.session? (e.sessionCache t) = some s) (hpid : s.pid ≠ 0) (hquiet : ¬ Forked e)
    (h : GotQuietly (underLock e t) t (e.sessionCache t) s.next k env e' r) :
    QuietFrame e e' env ∧ Quiet e t env e' r := by
  obtain ⟨e₁, sp₁, hinit, hleave⟩ := h
  obtain ⟨s', hs', ⟨-, rfl, rfl⟩ | ⟨hzero, -⟩⟩ := initSession_spec hinit
  · obtain ⟨rfl, ⟨hsp, -⟩ | ⟨-, s'', hs'', rfl⟩⟩ := leaveSession_spec hleave
    · exact absurd hsp hhead
    · obtain rfl : s'' = s := Option.some.inj (hs''.symm.trans hs)
      refine ⟨quietFrame_of t rfl rfl (.inl rfl) (fun _ => List.Subset.refl _) hquiet,
        .reused hhead hs (session?_store _ _ _) (fun a ha => session?_store_ne ha) rfl rfl rfl⟩
  · obtain rfl : s' = s := Option.some.inj (hs'.symm.trans hs)
    exact absurd hzero hpid

/-- pk11_get_session without a fork to notice. The sessions of the lists belong
to a process. -/
theorem pk11GetSession_quiet (h : pk11GetSession e t env = some (e', r)) (hquiet : ¬ Forked e)
    (hpid : ∀ s, e.session? (e.sessionCache t) = some s → s.pid ≠ 0) :
    QuietFrame e e' env ∧ Quiet e t env e' r := by
  obtain ⟨e₁, sp, freelist, htaken, ⟨hsp, rfl, rfl⟩ | ⟨hsp, -, hgot⟩ | ⟨-, hforked, -⟩⟩ := pk11GetSession_cases h
  · cases htaken with
    | noMemory =>
        exact ⟨quietFrame_of t rfl rfl (.inl rfl) (fun _ => List.Subset.refl _) hquiet,
          .nothing (fun _ => rfl) fun _ => .inl rfl⟩
    | new _ haddr _ => exact absurd hsp haddr
    | reused hhead _ => exact absurd hsp hhead
  · cases htaken with
    | noMemory => exact absurd rfl hsp
    | new hempty haddr hfresh => exact quiet_new hempty haddr hfresh hquiet hgot
    | reused hhead hs => exact quiet_reused hhead hs (hpid _ hs) hquiet hgot
  · exact absurd hforked hquiet

structure OneProcess (e : Engine) : Prop where
  self : e.self ≠ 0
  pid : e.pid = 0 ∨ e.pid = e.self
  sessions : ∀ a s, e.session? a = some s → s.pid = e.self

theorem OneProcess.notForked (h : OneProcess e) : ¬ Forked e :=
  fun hf => h.pid.elim hf.1 hf.2

theorem OneProcess.get (hone : OneProcess e) (h : pk11GetSession e t env = some (e', r)) :
    QuietFrame e e' env ∧ Quiet e t env e' r :=
  pk11GetSession_quiet h hone.notForked fun s hs => by
    rw [hone.sessions _ s hs]
    exact hone.self

theorem OneProcess.after_get (hone : OneProcess e) (h : pk11GetSession e t env = some (e', r)) : OneProcess e' := by
  obtain ⟨hframe, hquiet⟩ := hone.get h
  refine ⟨by rw [hframe.self]; exact hone.self, .inr (by rw [hframe.pid, hframe.self]), fun a s hs => ?_⟩
  rw [hframe.self]
  cases hquiet with
  | nothing hmem _ => exact hone.sessions a s (by rw [← hmem a, hs])
  | reused hhead hs₀ hhere hothers =>
      by_cases ha : a = e.sessionCache t
      · subst ha
        obtain rfl := Option.some.inj (hhere.symm.trans hs)
        have hpid := hone.sessions _ _ hs₀
        exact hpid
      · exact hone.sessions a s (by rw [← hothers a ha, hs])
  | new haddr hfresh hhere hothers =>
      by_cases ha : a = env.addr
      · subst ha
        obtain rfl := Option.some.inj (hhere.symm.trans hs)
        exact readySession_pid ..
      · exact hone.sessions a s (by rw [← hothers a ha, hs])

theorem OneProcess.store (hone : OneProcess e) {a : Addr} {s s' : Pk11Session} (hs : e.session? a = some s)
    (hpid : s'.pid = s.pid) : OneProcess (e.store a s') := by
  refine ⟨hone.self, hone.pid, fun b s'' hb => ?_⟩
  by_cases hba : b = a
  · subst hba
    obtain rfl := Option.some.inj ((session?_store _ _ _).symm.trans hb)
    exact hpid.trans (hone.sessions _ s hs)
  · exact hone.sessions b s'' ((session?_store_ne hba).symm.trans hb)

theorem OneProcess.returned (hone : OneProcess e) (hsp : sp ≠ 0) (h : pk11ReturnSession e sp t = some e') :
    ∃ s, e.session? sp = some s ∧ PutBack e e' sp t s := by
  have hsome := h
  rw [pk11ReturnSession, if_neg hsp] at hsome
  obtain ⟨s, hs, -⟩ := Option.map_eq_some_iff.mp hsome
  exact ⟨s, hs, putBack_own hsp hs (hone.sessions sp s hs) h⟩

theorem OneProcess.after_return (hone : OneProcess e) (h : pk11ReturnSession e sp t = some e') : OneProcess e' := by
  rcases pk11ReturnSession_cases h with rfl | ⟨-, s, hs, hpid, hput⟩
  · exact hone
  · refine ⟨by rw [hput.self]; exact hone.self, by rw [hput.pid, hput.self]; exact hone.pid, fun a s' hs' => ?_⟩
    rw [hput.self]
    by_cases ha : a = sp
    · subst ha
      obtain rfl := Option.some.inj (hput.here.symm.trans hs')
      exact hpid
    · exact hone.sessions a s' ((hput.others a ha).symm.trans hs')

end OiUserland.Pkcs11.QuietGet
