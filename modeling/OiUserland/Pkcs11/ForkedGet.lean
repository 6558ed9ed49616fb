import OiUserland.Pkcs11.SessionSteps

namespace OiUserland.Pkcs11.ForkedGet

open Lib.Chains Types Process Library UriLocks Sessions SessionSteps

variable {e e' e₁ e₂ : Engine} {t : Pk11OpType} {sp freelist r addr : Addr} {tail l : List Addr} {s s₀ : Pk11Session}
  {k : Lock}

def Origin (e : Engine) (t : Pk11OpType) (addr sp : Addr) (tail : List Addr) : Prop :=
  (e.sessionCache t = 0 ∧ addr ≠ 0 ∧ e.session? addr = none ∧ sp = addr ∧ tail = []) ∨
    (e.sessionCache t ≠ 0 ∧ sp = e.sessionCache t ∧ IsChain e.next sp (sp :: tail))

/-- The engine while pk11_get_session starts in a new process: the sessions `tail`
are freed, those besides `sp` are as they were, and lists are at most emptied. -/
structure Purged (e : Engine) (sp : Addr) (tail : List Addr) (e' : Engine) : Prop where
  others : ∀ a, a ≠ sp → e'.session? a = if a ∈ tail then none else e.session? a
  cache : ∀ t, e'.sessionCache t = e.sessionCache t ∨ e'.sessionCache t = 0
  pid : e'.pid = e.self
  self : e'.self = e.self

theorem Purged.step (h : Purged e sp tail e₁) (hmem : ∀ a, a ≠ sp → e₂.session? a = e₁.session? a)
    (hcache : ∀ t, e₂.sessionCache t = e₁.sessionCache t ∨ e₂.sessionCache t = 0) (hpid : e₂.pid = e₁.pid)
    (hself : e₂.self = e₁.self) : Purged e sp tail e₂ where
  others := fun a ha => (hmem a ha).trans (h.others a ha)
  cache := fun t => by
    rcases hcache t with heq | heq
    · rw [heq]
      exact h.cache t
    · exact .inr heq
  pid := hpid.trans h.pid
  self := hself.trans h.self

theorem Purged.opens (h : Purged e sp tail e₁) (hopens : Opens e₁ e₂) : Purged e sp tail e₂ := by
  refine h.step (fun a _ => ?_) (fun t => .inl ?_) hopens.pid hopens.self
  · rw [Engine.session?, hopens.heap, Engine.session?]
  · rw [hopens.sessionCache]

structure Ready (e e' : Engine) (t : Pk11OpType) (s : Pk11Session) : Prop where
  pid : s.pid = e.self
  opened : s.session ∈ e'.opened
  cipher : t = .cipher → s.cipher.cipherKey = ckInvalidHandle ∧ s.cipher.encrypt = -1

structure Renewed (e : Engine) (t : Pk11OpType) (sp : Addr) (tail : List Addr) (e' : Engine) (r : Addr) : Prop
    extends Purged e sp tail e' where
  ready : ∀ s, e'.session? sp = some s → Ready e e' t s
  given : r ≠ 0 → r = sp ∧ (e'.session? sp).isSome ∧ e'.sessionCache t = 0
  listed : e'.sessionCache t ≠ 0 → e'.sessionCache t = sp ∧ ∃ s, e'.session? sp = some s ∧ s.next = 0

theorem freed_renewed (h : Purged e sp tail e₁) (hcache : e₁.sessionCache t = 0) :
    Renewed e t sp tail ((e₁.free sp).release k) 0 where
  toPurged := h.step (fun _ ha => session?_free_ne ha) (fun _ => .inl rfl) rfl rfl
  ready := fun s hs => by
    have hnone : ((e₁.free sp).release k).session? sp = none := session?_free e₁ sp
    rw [hnone] at hs
    cases hs
  given := fun h => absurd rfl h
  listed := fun h => absurd hcache h

theorem kept_renewed (h : Purged e sp tail e₁) (hs : e₁.session? sp = some s) (hready : Ready e e₁ t s)
    (hlisted : e₁.sessionCache t ≠ 0 → e₁.sessionCache t = sp ∧ s.next = 0) :
    Renewed e t sp tail (e₁.release k) 0 where
  toPurged := h.step (fun _ _ => rfl) (fun _ => .inl rfl) rfl rfl
  ready := fun u hu => by
    obtain rfl := Option.some.inj (hs.symm.trans hu)
    exact ⟨hready.pid, hready.opened, hready.cipher⟩
  given := fun h => absurd rfl h
  listed := fun h => ⟨(hlisted h).1, s, hs, (hlisted h).2⟩

theorem given_renewed (h : Purged e sp tail e₁) (hready : Ready e e₁ t s) :
    Renewed e t sp tail (((e₁.setHead t 0).store sp { s with next := 0 }).release k) sp where
  toPurged := by
    refine h.step (fun _ ha => session?_store_ne ha) (fun t' => ?_) rfl rfl
    by_cases ht : t' = t
    · subst ht
      exact .inr (setHead_same ..)
    · exact .inl (setHead_ne ht)
  ready := fun u hu => by
    have hhere : (((e₁.setHead t 0).store sp { s with next := 0 }).release k).session? sp = some { s with next := 0 } :=
      session?_store (e₁.setHead t 0) sp _
    obtain rfl := Option.some.inj (hhere.symm.trans hu)
    exact ⟨hready.pid, hready.opened, hready.cipher⟩
  given := fun _ => ⟨rfl, by
    rw [show (((e₁.setHead t 0).store sp { s with next := 0 }).release k).session? sp = some { s with next := 0 } from
      session?_store (e₁.setHead t 0) sp _, Option.isSome_some], setHead_same ..⟩
  listed := fun h => absurd (setHead_same e₁ t 0) h

theorem setup_purged {env : SetupResults} {ok : Bool} (h : Purged e sp tail e₁) (hs : e₁.session? sp = some s₀)
    (hsetup : pk11SetupSession e₁ sp t env = some (e₂, ok)) :
    Purged e sp tail e₂ ∧ (Empties env → ∀ t, e₂.sessionCache t = 0) ∧
      e₂.passphrasedialog = e₁.passphrasedialog ∧ e₂.tokenPin = e₁.tokenPin ∧
      (env.openFirst.rv = ckrOk → ok = true) ∧
      (ok = true → ∃ s, e₂.session? sp = some s ∧ s.next = s₀.next ∧ Ready e e₂ t s) := by
  obtain ⟨s, e₃, hs', hopening, hfirst, hrest⟩ := pk11SetupSession_spec hsetup
  obtain rfl := Option.some.inj (hs.symm.trans hs')
  have hpurged : Purged e sp tail e₃ := by
    refine h.step (fun a ha => ?_) (fun t => ?_) hopening.pid hopening.self
    · rw [Engine.session?, hopening.heap]
      exact session?_store_ne ha
    · by_cases hempty : Empties env
      · exact .inr (congrFun (hopening.emptied hempty) t)
      · exact .inl (congrFun (hopening.notEmptied hempty) t)
  have hok (hrv : env.openFirst.rv = ckrOk) : ok = true := by
    refine (hfirst fun hr => ?_).mpr hrv
    have := hrv.symm.trans hr
    simp [ckrOk, ckrCryptokiNotInitialized] at this
  rcases hrest with ⟨rfl, rfl⟩ | ⟨rfl, rfl, hmem⟩
  · exact ⟨hpurged, fun he t => congrFun (hopening.emptied he) t, hopening.passphrasedialog, hopening.tokenPin,
      hok, fun hno => absurd hno (by simp)⟩
  · refine ⟨hpurged.step (fun _ ha => session?_store_ne ha) (fun _ => .inl rfl) rfl rfl,
      fun he t => congrFun (hopening.emptied he) t, hopening.passphrasedialog, hopening.tokenPin, hok,
      fun _ => ⟨_, session?_store _ _ _, readySession_next .., ?_, ?_, ?_⟩⟩
    · rw [readySession_pid]
      exact h.self
    · rw [readySession_session]
      exact hmem
    · rintro rfl
      exact ⟨rfl, rfl⟩

/-- How pk11_get_session gets over a fork: slots are chosen; and when there is a
list that it has begun to free, nothing fails that would leave the head of the
list behind. -/
structure Recovers (e : Engine) (t : Pk11OpType) (env : GetResults) : Prop where
  slots : e.sessionCache t ≠ 0 ∨ env.addr ≠ 0 → initialized env.cInitialize → env.slots.ok = true
  cInitialize : e.sessionCache t ≠ 0 → initialized env.cInitialize
  openGlobal : e.sessionCache t ≠ 0 → env.openGlobal.rv = ckrOk
  setup : e.sessionCache t ≠ 0 → env.setup.openFirst.rv = ckrOk ∨ Empties env.setup
  relogin : e.sessionCache t ≠ 0 → Relogs e env.relogin ∨ e.next (e.sessionCache t) = some 0 ∨ Empties env.setup

theorem taken_origin (h : Taken (underLock e t) t addr e₁ sp freelist) (hsp : sp ≠ 0)
    (hl : IsChain e.next (e.sessionCache t) l) :
    ∃ tail s₀, Origin e t addr sp tail ∧ IsChain e₁.next freelist tail ∧ sp ∉ tail ∧
      e₁.session? sp = some s₀ ∧ (e.sessionCache t ≠ 0 → e.next sp = some s₀.next) ∧
      (∀ a, a ≠ sp → e₁.session? a = e.session? a) ∧
      e₁.sessionCache = e.sessionCache ∧ e₁.self = e.self ∧ e₁.passphrasedialog = e.passphrasedialog ∧
      e₁.tokenPin = e.tokenPin := by
  cases h with
  | noMemory => exact absurd rfl hsp
  | new hempty haddr hfresh =>
      exact ⟨[], {}, .inl ⟨hempty, haddr, hfresh, rfl, rfl⟩, .nil, by simp, session?_store _ _ _,
        fun hne => absurd hempty hne, fun a ha => session?_store_ne ha, rfl, rfl, rfl, rfl⟩
  | reused hhead hs =>
      rename_i s
      obtain ⟨b, r, hb, hr, rfl⟩ := hl.head_mem hhead
      have hs' : e.session? (e.sessionCache t) = some s := hs
      rw [next_eq, hs', Option.map_some] at hb
      obtain rfl := Option.some.inj hb
      have hn : e.next (e.sessionCache t) = some s.next := by rw [next_eq, hs', Option.map_some]
      exact ⟨r, s, .inr ⟨hhead, rfl, hl⟩, hr, (List.nodup_cons.mp hl.nodup).1, hs, fun _ => hn, fun a _ => rfl,
        rfl, rfl, rfl, rfl⟩

theorem purged_freed {heap : Heap Pk11Session} {n : Nat} (hfree : freeFrom Pk11Session.next n e₁.heap freelist = some heap)
    (hchain : IsChain e₁.next freelist tail) (hn : tail.length ≤ n)
    (hmem : ∀ a, a ≠ sp → e₁.session? a = e.session? a) (hcache : e₁.sessionCache = e.sessionCache)
    (hself : e₁.self = e.self) (hs : e₁.session? sp = some s₀) (hsp : sp ∉ tail) :
    Purged e sp tail { e₁ with pid := e₁.self, heap := heap } ∧
      ({ e₁ with pid := e₁.self, heap := heap } : Engine).session? sp = some s₀ := by
  obtain ⟨heap', hfree', hlookup⟩ := freeFrom_lookup hchain hn
  obtain rfl := Option.some.inj (hfree.symm.trans hfree')
  refine ⟨⟨fun a ha => ?_, fun t => .inl (congrFun hcache t), hself, hself⟩, ?_⟩
  · rw [← hmem a ha]
    exact hlookup a
  · exact (hlookup sp).trans (by rw [if_neg hsp]; exact hs)

theorem origin_cache (h : Origin e t addr sp tail) : e.sessionCache t = 0 ∨ (e.sessionCache t ≠ 0 ∧ e.sessionCache t = sp) := by
  rcases h with ⟨hempty, -⟩ | ⟨hhead, heq, -⟩
  · exact .inl hempty
  · exact .inr ⟨hhead, heq.symm⟩

theorem cache_zero {env : SetupResults} (hp : Purged e sp tail e₂) (hempties : Empties env → ∀ t, e₂.sessionCache t = 0)
    (h : e.sessionCache t ≠ 0 → Empties env) : e₂.sessionCache t = 0 := by
  by_cases hempty : e.sessionCache t = 0
  · exact (hp.cache t).elim (fun heq => heq.trans hempty) id
  · exact hempties (h hempty) t

theorem started_renewed {env : GetResults} {exit : Option Addr} (hstart : Started e₁ sp t env e₂ exit)
    (hrec : Recovers e t env) (horigin : Origin e t env.addr sp tail) (hp : Purged e sp tail e₁)
    (hs : e₁.session? sp = some s₀) (hnext : e.sessionCache t ≠ 0 → e.next sp = some s₀.next)
    (hself : e.self ≠ 0) (hdialog : e₁.passphrasedialog = e.passphrasedialog) (hpin : e₁.tokenPin = e.tokenPin)
    (hexit : (∃ sp', exit = some sp' ∧ leaveSession e₂ sp' k = some (e', r)) ∨
      (exit = none ∧ ∃ e₃ sp₃, initSession e₂ sp t env.setup = some (e₃, sp₃) ∧
        leaveSession (e₃.setHead t 0) sp₃ k = some (e', r))) :
    Renewed e t sp tail e' r := by
  have hmem {e₂ : Engine} (hopens : Opens e₁ e₂) : e₂.session? sp = some s₀ := by
    rw [Engine.session?, hopens.heap]
    exact hs
  have havail : e.sessionCache t ≠ 0 ∨ env.addr ≠ 0 := by
    rcases horigin with ⟨-, haddr, -⟩ | ⟨hhead, -⟩
    · exact .inr haddr
    · exact .inl hhead
  -- the label err without a session
  have hleave {e₂ : Engine} (h : leaveSession e₂ 0 k = some (e', r)) : e' = e₂.release k ∧ r = 0 := by
    obtain ⟨rfl, ⟨-, rfl⟩ | ⟨hne, -⟩⟩ := leaveSession_spec h
    · exact ⟨rfl, rfl⟩
    · exact absurd rfl hne
  cases hstart with
  | notInitialized hopens hno =>
      obtain ⟨sp', hsp', hexit⟩ := hexit.resolve_right (fun h => by cases h.1)
      obtain rfl := Option.some.inj hsp'
      obtain ⟨rfl, rfl⟩ := hleave hexit
      refine freed_renewed (hp.opens hopens) ?_
      rw [hopens.sessionCache]
      exact (hp.cache t).elim (fun heq => heq.trans (by_contra fun h => hno (hrec.cInitialize h))) id
  | noSlots hopens hinit hno => exact absurd (hrec.slots havail hinit) (by simp [hno])
  | notOpened hopens hinit _ hno =>
      obtain ⟨sp', hsp', hexit⟩ := hexit.resolve_right (fun h => by cases h.1)
      obtain rfl := Option.some.inj hsp'
      obtain ⟨rfl, rfl⟩ := hleave hexit
      refine freed_renewed (hp.opens hopens) ?_
      rw [hopens.sessionCache]
      exact (hp.cache t).elim (fun heq => heq.trans (by_contra fun h => hno (hrec.openGlobal h))) id
  | notSetUp hopens _ _ _ hsetup =>
      obtain ⟨sp', hsp', hexit⟩ := hexit.resolve_right (fun h => by cases h.1)
      obtain rfl := Option.some.inj hsp'
      obtain ⟨rfl, rfl⟩ := hleave hexit
      obtain ⟨hp₂, hempties, -, -, hok, -⟩ := setup_purged (hp.opens hopens) (hmem hopens) hsetup
      refine freed_renewed hp₂ (cache_zero hp₂ hempties fun h => ?_)
      exact (hrec.setup h).resolve_left fun hrv => absurd (hok hrv) (by simp)
  | notLoggedIn hopens hsame hinit hslots hopened hsetup hlogin =>
      rename_i _ e₃
      obtain ⟨sp', hsp', hexit⟩ := hexit.resolve_right (fun h => by cases h.1)
      obtain rfl := Option.some.inj hsp'
      obtain ⟨rfl, rfl⟩ := hleave hexit
      obtain ⟨hp₂, hempties, hdialog₂, hpin₂, -, hready⟩ := setup_purged (hp.opens hopens) (hmem hopens) hsetup
      obtain ⟨s, hs₂, hnext₂, hready⟩ := hready rfl
      have hframe := pk11TokenRelogin_frame e₃ env.relogin
      rw [hlogin] at hframe
      obtain hframe : e₂ = { e₃ with pins := e₂.pins, locks := e₂.locks } := hframe
      have hno : ¬ Relogs e env.relogin := fun h => by
        have hr : Relogs e₃ env.relogin := by
          rwa [Relogs, hdialog₂, hpin₂, hopens.passphrasedialog, hopens.tokenPin, hdialog, hpin]
        have := (pk11TokenRelogin_ok e₃ env.relogin).mpr hr
        rw [hlogin] at this
        cases this
      have hp₃ : Purged e sp tail e₂ := by
        rw [hframe]
        exact hp₂.step (fun _ _ => rfl) (fun _ => .inl rfl) rfl rfl
      rw [hframe] at hp₃ ⊢
      refine kept_renewed hp₃ hs₂ ⟨hready.pid, hready.opened, hready.cipher⟩ fun hne => ?_
      by_cases hempty : e.sessionCache t = 0
      · exact absurd (cache_zero hp₂ hempties fun h => absurd hempty h) hne
      · have hhead := ((origin_cache horigin).resolve_left hempty).2
        refine ⟨((hp₂.cache t).resolve_right hne).trans hhead, ?_⟩
        rcases (hrec.relogin hempty).resolve_left hno with hlast | he
        · rw [hhead, hnext hempty] at hlast
          rw [hnext₂]
          exact Option.some.inj hlast
        · exact absurd (hempties he t) hne
  | ready hopens hsame hinit hslots hopened hsetup hlogin =>
      rename_i _ e₃
      obtain ⟨-, e₄, sp₄, hnew, hdone⟩ := hexit.resolve_left (by rintro ⟨_, ⟨⟩, _⟩)
      obtain ⟨hp₂, -, -, -, -, hready⟩ := setup_purged (hp.opens hopens) (hmem hopens) hsetup
      obtain ⟨s, hs₂, -, hready⟩ := hready rfl
      have hframe := pk11TokenRelogin_frame e₃ env.relogin
      rw [hlogin] at hframe
      obtain hframe : e₂ = { e₃ with pins := e₂.pins, locks := e₂.locks } := hframe
      have hs₃ : e₂.session? sp = some s := by
        rw [hframe]
        exact hs₂
      have hp₃ : Purged e sp tail e₂ := by
        rw [hframe]
        exact hp₂.step (fun _ _ => rfl) (fun _ => .inl rfl) rfl rfl
      have hready₃ : Ready e e₂ t s := by
        rw [hframe]
        exact ⟨hready.pid, hready.opened, hready.cipher⟩
      obtain ⟨u, hu, ⟨-, rfl, rfl⟩ | ⟨hzero, -⟩⟩ := initSession_spec hnew
      · obtain ⟨rfl, ⟨hsp, -⟩ | ⟨-, u', hu', rfl⟩⟩ := leaveSession_spec hdone
        · rcases horigin with ⟨-, haddr, -, rfl, -⟩ | ⟨hhead, rfl, -⟩
          · exact absurd hsp haddr
          · exact absurd hsp hhead
        · obtain rfl := Option.some.inj (hs₃.symm.trans hu')
          exact given_renewed hp₃ hready₃
      · obtain rfl := Option.some.inj (hs₃.symm.trans hu)
        exact absurd (hready.pid.symm.trans hzero) hself

structure SameSessions (e e' : Engine) : Prop where
  heap : e'.heap = e.heap
  sessionCache : e'.sessionCache = e.sessionCache
  pid : e'.pid = e.pid
  self : e'.self = e.self
  opened : e'.opened = e.opened

theorem SameSessions.session? (h : SameSessions e e') (a : Addr) : e'.session? a = e.session? a := by
  rw [Engine.session?, h.heap, Engine.session?]

theorem SameSessions.forked (h : SameSessions e e') (hforked : Forked e) : Forked e' := by
  rwa [Forked, h.pid, h.self]

/-- pk11_get_session in a new process. -/
theorem pk11GetSession_forked {env : GetResults} (h : pk11GetSession e t env = some (e', r)) (hforked : Forked e)
    (hself : e.self ≠ 0) (hrec : Recovers e t env) (hl : IsChain e.next (e.sessionCache t) l) :
    (r = 0 ∧ SameSessions e e') ∨ ∃ sp tail, Origin e t env.addr sp tail ∧ Renewed e t sp tail e' r := by
  obtain ⟨e₁, sp, freelist, htaken, ⟨hsp, hr, rfl⟩ | ⟨-, hquiet, -⟩ | ⟨hsp, -, hgot⟩⟩ := pk11GetSession_cases h
  · cases htaken with
    | noMemory =>
        have hpid : (underLock e t).pid = e.pid := if_neg hforked.1
        exact .inl ⟨hr, rfl, rfl, hpid, rfl, rfl⟩
    | new _ haddr _ => exact absurd hsp haddr
    | reused hhead _ => exact absurd hsp hhead
  · exact absurd hforked hquiet
  · obtain ⟨tail, s₀, horigin, hchain, hnotin, hs, hnext, hmem, hcache, hself₁, hdialog, hpin⟩ :=
      taken_origin htaken hsp hl
    obtain ⟨heap, e₂, exit, hfree, hstart, hexit⟩ := hgot
    obtain ⟨hp, hs₂⟩ := purged_freed hfree hchain hchain.length_le hmem hcache hself₁ hs hnotin
    have hbase (e : Engine) : pk11FreeActiveList e t = { e with locks := (pk11FreeActiveList e t).locks } := by
      rw [pk11FreeActiveList]
      split <;> rfl
    rw [hbase] at hstart
    refine .inr ⟨sp, tail, horigin, started_renewed hstart hrec horigin ?_ hs₂ hnext hself hdialog hpin hexit⟩
    exact hp.step (fun _ _ => rfl) (fun _ => .inl rfl) rfl rfl

end OiUserland.Pkcs11.ForkedGet
