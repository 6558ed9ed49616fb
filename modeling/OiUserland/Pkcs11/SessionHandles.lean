import OiUserland.Pkcs11.Ownership

namespace OiUserland.Pkcs11.SessionHandles

open Types Process Library Sessions SessionSteps QuietGet ForkedGet FreeLists SymmetricCiphers
  CipherSteps

variable {e e' e₁ e₂ : Engine} {t : Pk11OpType} {a sp r : Addr} {s s' : Pk11Session} {env : GetResults}
  {key : List UInt8} {ctx ctx' : CipherCtx} {ret : Bool}

structure OpenHandles (e : Engine) : Prop where
  opened : ∀ a s, e.session? a = some s → s.pid = e.self → s.session ∈ e.opened
  distinct : ∀ a b s u, e.session? a = some s → e.session? b = some u → s.pid = e.self → u.pid = e.self →
    s.session = u.session → a = b

/-- What the PKCS#11 library promises: the handle of a new session is in use
nowhere, and a library that is not initialized has no sessions. -/
structure Documented (e : Engine) (env : SetupResults) : Prop where
  fresh : env.openFirst.rv = ckrOk → env.openFirst.handle ∉ e.opened
  restarts : Restarts env → e.opened = []

theorem OpenHandles.quiet (ho : OpenHandles e) (hdoc : Documented e env.setup) (hframe : QuietFrame e e' env)
    (h : Quiet e t env e' r) : OpenHandles e' := by
  -- a session besides the one that is handed out
  have hold (b : Addr) (u : Pk11Session) (hb : b ≠ r) (hu : e'.session? b = some u) (hpid : u.pid = e'.self) :
      e.session? b = some u ∧ u.pid = e.self ∧ u.session ∈ e.opened ∧ ¬ Restarts env.setup := by
    have hu' := (quiet_others h hb).symm.trans hu
    rw [hframe.self] at hpid
    have hmem := ho.opened b u hu' hpid
    refine ⟨hu', hpid, hmem, fun hr => ?_⟩
    rw [hdoc.restarts hr] at hmem
    cases hmem
  -- and that one
  have hnew (u : Pk11Session) (hu : e'.session? r = some u) (hpid : u.pid = e'.self) (hr : r ≠ 0) :
      (∃ v, e.session? r = some v ∧ v.pid = e.self ∧ v.session = u.session ∧ e'.opened = e.opened) ∨
        (u.session = setupHandle env.setup ∧ u.session ∈ e'.opened ∧
          (¬ Restarts env.setup → u.session ∉ e.opened)) := by
    rw [hframe.self] at hpid
    cases h with
    | nothing => exact absurd rfl hr
    | reused hhead hs hhere _ _ _ hopened =>
        obtain rfl := Option.some.inj (hhere.symm.trans hu)
        exact .inl ⟨_, hs, hpid, rfl, hopened⟩
    | new haddr hfresh hhere _ _ hopened hrv =>
        obtain rfl := Option.some.inj (hhere.symm.trans hu)
        refine .inr ?_
        rw [readySession_session]
        refine ⟨rfl, hopened, fun hno => ?_⟩
        rw [setupHandle, if_neg (show ¬ env.setup.openFirst.rv = ckrCryptokiNotInitialized from hno)]
        exact hdoc.fresh (hrv hno)
  have hzero (u : Pk11Session) (hu : e'.session? r = some u) (hr : r = 0) : e.session? r = some u := by
    cases h with
    | nothing hmem _ => exact (hmem 0).symm.trans hu
    | reused hhead => exact absurd hr hhead
    | new haddr => exact absurd hr haddr
  constructor
  · intro a s hs hpid
    by_cases ha : a = r
    · subst ha
      by_cases hr : a = 0
      · have hs' := hzero s hs hr
        rw [hframe.self] at hpid
        have hmem := ho.opened a s hs' hpid
        refine hframe.opened (fun hrs => ?_) hmem
        rw [hdoc.restarts hrs] at hmem
        cases hmem
      · rcases hnew s hs hpid hr with ⟨v, hv, hvpid, hsame, hopened⟩ | ⟨-, hmem, -⟩
        · rw [← hsame, hopened]
          exact ho.opened a v hv hvpid
        · exact hmem
    · obtain ⟨-, -, hmem, hno⟩ := hold a s ha hs hpid
      exact hframe.opened hno hmem
  · -- the session that is handed out, against another one
    have hcross (b : Addr) (s u : Pk11Session) (hs : e'.session? r = some s) (hu : e'.session? b = some u)
        (hspid : s.pid = e'.self) (hupid : u.pid = e'.self) (heq : s.session = u.session) (hb : b ≠ r) : r = b := by
      obtain ⟨hu', hupid', hmem, hno⟩ := hold b u hb hu hupid
      by_cases hr : r = 0
      · rw [hframe.self] at hspid
        exact ho.distinct r b s u (hzero s hs hr) hu' hspid hupid' heq
      · rcases hnew s hs hspid hr with ⟨v, hv, hvpid, hsame, -⟩ | ⟨-, -, hfresh⟩
        · exact ho.distinct r b v u hv hu' hvpid hupid' (hsame.trans heq)
        · rw [heq] at hfresh
          exact absurd hmem (hfresh hno)
    intro a b s u hs hu hspid hupid heq
    by_cases ha : a = r
    · by_cases hb : b = r
      · rw [ha, hb]
      · subst ha
        exact hcross b s u hs hu hspid hupid heq hb
    · by_cases hb : b = r
      · subst hb
        exact (hcross a u s hu hs hupid hspid heq.symm ha).symm
      · obtain ⟨hs', hspid', -, -⟩ := hold a s ha hs hspid
        obtain ⟨hu', hupid', -, -⟩ := hold b u hb hu hupid
        exact ho.distinct a b s u hs' hu' hspid' hupid' heq

theorem openHandles_renewed {tail : List Addr} (hp : Processes e) (hforked : Forked e)
    (h : Renewed e t sp tail e' r) : OpenHandles e' := by
  have honly (a : Addr) (s : Pk11Session) (hs : e'.session? a = some s) (hpid : s.pid = e'.self) : a = sp := by
    by_contra ha
    rw [h.others a ha] at hs
    split at hs
    · cases hs
    · rw [h.self] at hpid
      exact hp.inherited hforked a s hs hpid
  constructor
  · intro a s hs hpid
    obtain rfl := honly a s hs hpid
    exact (h.ready s hs).opened
  · intro a b s u hs hu hspid hupid _
    rw [honly a s hs hspid, honly b u hu hupid]

structure Undisturbed (e e' : Engine) : Prop where
  sessions : ∀ a, (e'.session? a).map (fun s => (s.pid, s.session, s.cipher.encrypt)) =
    (e.session? a).map fun s => (s.pid, s.session, s.cipher.encrypt)
  self : e'.self = e.self
  opened : e'.opened = e.opened

theorem Undisturbed.refl (e : Engine) : Undisturbed e e := ⟨fun _ => rfl, rfl, rfl⟩

theorem Undisturbed.trans (h : Undisturbed e e₁) (h' : Undisturbed e₁ e₂) : Undisturbed e e₂ :=
  ⟨fun a => (h'.sessions a).trans (h.sessions a), h'.self.trans h.self, h'.opened.trans h.opened⟩

theorem Undisturbed.back (h : Undisturbed e e') (hs : e'.session? a = some s) :
    ∃ u, e.session? a = some u ∧ u.pid = s.pid ∧ u.session = s.session ∧ u.cipher.encrypt = s.cipher.encrypt := by
  have hmap := h.sessions a
  rw [hs, Option.map_some] at hmap
  obtain ⟨u, hu, heq⟩ := Option.map_eq_some_iff.mp hmap.symm
  obtain ⟨hpid, heq⟩ := Prod.mk.inj heq
  exact ⟨u, hu, hpid, (Prod.mk.inj heq).1, (Prod.mk.inj heq).2⟩

theorem undisturbed_store (hs : e.session? sp = some s) (hhere : e'.session? sp = some s')
    (hmem : ∀ a, a ≠ sp → e'.session? a = e.session? a) (hpid : s'.pid = s.pid) (hsession : s'.session = s.session)
    (hencrypt : s'.cipher.encrypt = s.cipher.encrypt) (hself : e'.self = e.self) (hopened : e'.opened = e.opened) :
    Undisturbed e e' := by
  refine ⟨fun a => ?_, hself, hopened⟩
  by_cases ha : a = sp
  · rw [ha, hhere, hs, Option.map_some, Option.map_some, hpid, hsession, hencrypt]
  · rw [hmem a ha]

theorem undisturbed_giveBack (h : pk11ReturnSession e sp t = some e') : Undisturbed e e' := by
  rcases pk11ReturnSession_cases h with rfl | ⟨-, s, hs, -, hput⟩
  · exact .refl _
  · exact undisturbed_store hs hput.here hput.others rfl rfl rfl hput.self hput.opened

theorem undisturbed_check {destroy : Rv} (h : checkNewCipherKey e sp key destroy = some e') : Undisturbed e e' := by
  obtain ⟨s, hs, -⟩ := Option.map_eq_some_iff.mp h
  rcases checkNewCipherKey_cases h hs with ⟨-, rfl⟩ | ⟨-, ⟨-, rfl⟩ | ⟨-, -, rfl⟩ | ⟨-, -, rfl⟩⟩
  · exact .refl _
  · exact .refl _
  · exact .refl _
  · exact undisturbed_store hs (session?_store _ _ _) (fun _ ha => session?_store_ne ha) rfl rfl rfl rfl rfl

theorem undisturbed_make {row : Pk11Cipher} {c : CreateResult} (h : makeKey e sp key row c = some e') :
    Undisturbed e e' := by
  obtain ⟨u, -, ⟨-, hcreate⟩ | ⟨-, rfl⟩⟩ := makeKey_cases h
  · obtain ⟨s, hs, hcreate⟩ := Option.map_eq_some_iff.mp hcreate
    split at hcreate
    · subst hcreate
      exact undisturbed_store hs (session?_store _ _ _) (fun _ ha => session?_store_ne ha) rfl rfl rfl rfl rfl
    · subst hcreate
      exact undisturbed_store hs (session?_store _ _ _) (fun _ ha => session?_store_ne ha) rfl rfl rfl rfl rfl
  · exact .refl _

theorem OpenHandles.back (ho : OpenHandles e)
    (hback : ∀ a s, e'.session? a = some s → ∃ u, e.session? a = some u ∧ u.pid = s.pid ∧ u.session = s.session)
    (hself : e'.self = e.self) (hopened : e'.opened = e.opened) : OpenHandles e' := by
  constructor
  · intro a s hs hpid
    obtain ⟨u, hu, hupid, husession⟩ := hback a s hs
    rw [← husession, hopened]
    refine ho.opened a u hu ?_
    rw [hupid, hpid, hself]
  · intro a b s u hs hu hspid hupid heq
    obtain ⟨s', hs', hspid', hssession⟩ := hback a s hs
    obtain ⟨u', hu', hupid', husession⟩ := hback b u hu
    refine ho.distinct a b s' u' hs' hu' ?_ ?_ ?_
    · rw [hspid', hspid, hself]
    · rw [hupid', hupid, hself]
    · rw [hssession, heq, husession]

theorem OpenHandles.congr (ho : OpenHandles e) (h : Undisturbed e e') : OpenHandles e' := by
  refine ho.back (fun a s hs => ?_) h.self h.opened
  obtain ⟨u, hu, hpid, hsession, -⟩ := h.back hs
  exact ⟨u, hu, hpid, hsession⟩

def OnlyHere (e : Engine) (sp : Addr) (h : Handle) : Prop :=
  ∀ b u, b ≠ sp → e.session? b = some u → u.pid = e.self → u.session ≠ h

def FinalSafe (e : Engine) (sp : Addr) (encrypt : Int) (env : CipherInitResults) : Prop :=
  ∀ s, e.session? sp = some s → s.cipher.encrypt ≠ encrypt → s.cipher.encrypt ≠ -1 → env.close = ckrOk →
    (s.pid = e.self → env.reopen.rv = ckrOk) ∧
      (env.reopen.rv = ckrOk → env.reopen.handle ∉ e.opened.erase s.session) ∧ OnlyHere e sp s.session

theorem FinalSafe.congr {encrypt : Int} {env : CipherInitResults} (hsafe : FinalSafe e sp encrypt env)
    (h : Undisturbed e e') : FinalSafe e' sp encrypt env := by
  intro s hs hne hne' hclose
  obtain ⟨u, hu, hpid, hsession, hencrypt⟩ := h.back hs
  rw [← hencrypt] at hne hne'
  obtain ⟨hown, hfresh, honly⟩ := hsafe u hu hne hne' hclose
  rw [h.self, h.opened, ← hpid, ← hsession]
  refine ⟨hown, hfresh, fun b v hb hv hvpid => ?_⟩
  obtain ⟨v', hv', hvpid', hvsession, -⟩ := h.back hv
  rw [← hvsession]
  refine honly b v' hb hv' ?_
  rw [hvpid', hvpid, h.self]

theorem OpenHandles.final {close : Rv} {reopen : OpenResult} {ok : Bool} (ho : OpenHandles e)
    (hs : e.session? sp = some s)
    (hsafe : close = ckrOk → (s.pid = e.self → reopen.rv = ckrOk) ∧
      (reopen.rv = ckrOk → reopen.handle ∉ e.opened.erase s.session) ∧ OnlyHere e sp s.session)
    (h : pk11CipherFinal e sp close reopen = some (e', ok)) : OpenHandles e' := by
  obtain ⟨s', hs', hrest⟩ := pk11CipherFinal_cases h
  obtain rfl := Option.some.inj (hs.symm.trans hs')
  have hother (honly : OnlyHere e sp s.session) (b : Addr) (u : Pk11Session) (hb : b ≠ sp) (hu : e.session? b = some u)
      (hpid : u.pid = e.self) : u.session ∈ e.opened.erase s.session :=
    (List.mem_erase_of_ne (honly b u hb hu hpid)).mpr (ho.opened b u hu hpid)
  rcases hrest with ⟨-, -, rfl⟩ | ⟨hclose, hreopen, -, rfl⟩ | ⟨hclose, hreopen, -, rfl⟩
  · exact ho
  · obtain ⟨hown, -, honly⟩ := hsafe hclose
    refine ⟨fun a u hu hpid => ?_, ho.distinct⟩
    refine hother honly a u (fun ha => ?_) hu hpid
    subst ha
    obtain rfl := Option.some.inj (hs.symm.trans hu)
    exact hreopen (hown hpid)
  · obtain ⟨-, hfresh, honly⟩ := hsafe hclose
    have hhere := session?_store { e with opened := reopen.handle :: e.opened.erase s.session } sp
      { s with session := reopen.handle }
    have hne (b : Addr) (hb : b ≠ sp) : (({ e with opened := reopen.handle :: e.opened.erase s.session } : Engine).store sp
        { s with session := reopen.handle }).session? b = e.session? b := session?_store_ne hb
    -- the new handle against those of the others
    have hcross (b : Addr) (u : Pk11Session) (hb : b ≠ sp) (hu : e.session? b = some u) (hpid : u.pid = e.self) :
        u.session ≠ reopen.handle := fun heq => hfresh hreopen (heq ▸ hother honly b u hb hu hpid)
    constructor
    · intro a u hu hpid
      by_cases ha : a = sp
      · subst ha
        obtain rfl := Option.some.inj (hhere.symm.trans hu)
        exact List.mem_cons_self ..
      · exact List.mem_cons_of_mem _ (hother honly a u ha ((hne a ha).symm.trans hu) hpid)
    · intro a b u v hu hv hupid hvpid heq
      by_cases ha : a = sp
      · by_cases hb : b = sp
        · rw [ha, hb]
        · subst ha
          obtain rfl := Option.some.inj (hhere.symm.trans hu)
          exact absurd heq.symm (hcross b v hb ((hne b hb).symm.trans hv) hvpid)
      · by_cases hb : b = sp
        · subst hb
          obtain rfl := Option.some.inj (hhere.symm.trans hv)
          exact absurd heq (hcross a u ha ((hne a ha).symm.trans hu) hupid)
        · exact ho.distinct a b u v ((hne a ha).symm.trans hu) ((hne b hb).symm.trans hv) hupid hvpid heq

theorem OpenHandles.initWithSession {row : Pk11Cipher} {env : CipherInitResults} (ho : OpenHandles e)
    (hsafe : FinalSafe e sp ctx.encrypt env) (h : initWithSession e ctx sp key row env = some (e', ctx', ret)) :
    OpenHandles e' := by
  obtain ⟨e₁, s, hcheck, hs, ⟨-, -, -, hsym⟩ | hkey⟩ := initWithSession_cases h
  · have ho₁ := ho.congr (undisturbed_check hcheck)
    rcases pk11InitSymmetric_cases hsym with ⟨-, -, rfl⟩ | ⟨-, -, hret⟩
    · exact ho₁
    · exact ho₁.congr (undisturbed_giveBack hret)
  · obtain ⟨e₂, e₃, ok, hmade, hended, hdone⟩ := initWithKey_cases hkey
    have hsame := (undisturbed_check hcheck).trans (undisturbed_make hmade)
    have ho₃ : OpenHandles e₃ := by
      obtain ⟨v, hv, ⟨hne, hne', hfinal⟩ | ⟨-, rfl⟩⟩ := terminatePrevious_cases hended
      · exact (ho.congr hsame).final hv (hsafe.congr hsame v hv hne hne') hfinal
      · exact ho.congr hsame
    rcases hdone with ⟨hret, -⟩ | ⟨-, -, -, u, hu, -, rfl⟩
    · exact ho₃.congr (undisturbed_giveBack hret)
    · -- the direction is not looked at
      refine ho₃.back (fun a v hv => ?_) rfl rfl
      by_cases ha : a = sp
      · subst ha
        obtain rfl := Option.some.inj ((session?_store _ _ _).symm.trans hv)
        exact ⟨u, hu, rfl, rfl⟩
      · exact ⟨v, (session?_store_ne ha).symm.trans hv, rfl, rfl⟩

theorem OpenHandles.fork {child : Nat} (hfresh : FreshPid e child) : OpenHandles (forkInChild child e) := by
  obtain ⟨hheap, -, -, hself, -⟩ := forkInChild_frame child e
  have hnone (a : Addr) (s : Pk11Session) (hs : (forkInChild child e).session? a = some s)
      (hpid : s.pid = (forkInChild child e).self) : False := by
    rw [Engine.session?, hheap] at hs
    exact hfresh.sessions a s hs (hpid.trans hself)
  exact ⟨fun a s hs hpid => (hnone a s hs hpid).elim, fun a _ s _ hs _ hpid _ _ => (hnone a s hs hpid).elim⟩

end OiUserland.Pkcs11.SessionHandles
