import OiUserland.Pkcs11.RsaKeys

namespace OiUserland.Pkcs11.KeyShutdown

open Types RsaKeys

structure Slot where
  key : Pk11Session → Handle
  clear : Pk11Session → Pk11Session

def Slot.destroy (slot : Slot) (destroys : Handle → Bool) (sp : Pk11Session) (active : ActiveList) : Int × Called :=
  if slot.key sp ≠ ckInvalidHandle then
    let r := tryObjDestroy destroys sp (slot.key sp) active
    (r.1, ⟨slot.clear sp, r.2.1, r.2.2⟩)
  else (0, ⟨sp, active, []⟩)

structure KeyPair where
  pub : Slot
  priv : Slot
  pub_pub : ∀ sp, pub.key (pub.clear sp) = ckInvalidHandle
  pub_priv : ∀ sp, priv.key (pub.clear sp) = priv.key sp
  priv_pub : ∀ sp, pub.key (priv.clear sp) = pub.key sp
  priv_priv : ∀ sp, priv.key (priv.clear sp) = ckInvalidHandle
  persistent : ∀ sp, (pub.clear sp).persistent = sp.persistent

def rsaPub : Slot :=
  ⟨fun sp => sp.rsa.pubKey, fun sp => { sp with rsa := destroyAllRsaParams { sp.rsa with pubKey := ckInvalidHandle, pub := none } }⟩

def rsaPriv : Slot :=
  ⟨fun sp => sp.rsa.privKey, fun sp => { sp with rsa := destroyAllRsaParams { sp.rsa with privKey := ckInvalidHandle, priv := none } }⟩

def dsaPub : Slot := ⟨fun sp => sp.dsa.pub.key, fun sp => { sp with dsa := { sp.dsa with pub := {} } }⟩

def dsaPriv : Slot := ⟨fun sp => sp.dsa.priv.key, fun sp => { sp with dsa := { sp.dsa with priv := {} } }⟩

def rsaKeys : KeyPair := ⟨rsaPub, rsaPriv, fun _ => rfl, fun _ => rfl, fun _ => rfl, fun _ => rfl, fun _ => rfl⟩

def dsaKeys : KeyPair := ⟨dsaPub, dsaPriv, fun _ => rfl, fun _ => rfl, fun _ => rfl, fun _ => rfl, fun _ => rfl⟩

theorem rsa_destroy : rsaPub.destroy = pk11DestroyRsaObjectPub ∧ rsaPriv.destroy = pk11DestroyRsaObjectPriv := ⟨rfl, rfl⟩

def pk11DestroyDsaObjectPub (destroys : Handle → Bool) (sp : Pk11Session) (active : ActiveList) : Int × Called :=
  dsaPub.destroy destroys sp active

def pk11DestroyDsaObjectPriv (destroys : Handle → Bool) (sp : Pk11Session) (active : ActiveList) : Int × Called :=
  dsaPriv.destroy destroys sp active

/-- What a walk over the sessions leaves: its value, the sessions, the active list, and the objects given
to C_DestroyObject. -/
structure Shutdown where
  ret : Int
  sessions : List Pk11Session
  active : ActiveList
  destroyed : List Handle

def destroyKeyObjects (keys : KeyPair) (destroys : Handle → Bool) : List Pk11Session → ActiveList → Shutdown
  | [], active => ⟨1, [], active, []⟩
  | sp :: rest, active =>
      let a := keys.pub.destroy destroys sp active
      if a.1 = 0 then
        let r := destroyKeyObjects keys destroys rest a.2.active
        ⟨0, a.2.sp :: r.sessions, r.active, a.2.destroyed ++ r.destroyed⟩
      else
        let b := keys.priv.destroy destroys a.2.sp a.2.active
        let r := destroyKeyObjects keys destroys rest b.2.active
        ⟨if b.1 = 0 then 0 else r.ret, b.2.sp :: r.sessions, r.active, a.2.destroyed ++ (b.2.destroyed ++ r.destroyed)⟩

/-- pk11_destroy_rsa_key_objects(NULL), over the free list of RSA sessions. -/
def pk11DestroyRsaKeyObjectsAll (destroys : Handle → Bool) (sessions : List Pk11Session) (active : ActiveList) : Shutdown :=
  destroyKeyObjects rsaKeys destroys sessions active

/-- pk11_destroy_dsa_key_objects(NULL). -/
def pk11DestroyDsaKeyObjectsAll (destroys : Handle → Bool) (sessions : List Pk11Session) (active : ActiveList) : Shutdown :=
  destroyKeyObjects dsaKeys destroys sessions active

/-- No session caches a key any more, and the value is 1 exactly when no destruction failed. -/
def ShutsDown (keys : KeyPair) (destroys : Handle → Bool) (r : Shutdown) : Prop :=
  (∀ sp ∈ r.sessions, keys.pub.key sp = ckInvalidHandle ∧ keys.priv.key sp = ckInvalidHandle) ∧
    (r.ret = 1 ↔ ∀ h ∈ r.destroyed, destroys h = true)

section Conditions

variable (destroys : Handle → Bool)

def Last (h : Handle) (active : ActiveList) : Prop := h ≠ ckInvalidHandle ∧ (pk11ActiveDelete h active).1 = 1

/-- The object is dropped with success: it is in the keystore or C_DestroyObject destroys it. -/
def Goes (sp : Pk11Session) (h : Handle) (active : ActiveList) : Prop :=
  Last h active ∧ (sp.persistent = true ∨ destroys h = true)

/-- C_DestroyObject is called and fails. -/
def Fails (sp : Pk11Session) (h : Handle) (active : ActiveList) : Prop :=
  Last h active ∧ sp.persistent = false ∧ destroys h = false

def dropped (h : Handle) (active : ActiveList) : ActiveList :=
  if h = ckInvalidHandle then active else (pk11ActiveDelete h active).2

/-- Every private key is cached with a public one that goes first. -/
def PublicFirst (keys : KeyPair) : List Pk11Session → ActiveList → Prop
  | [], _ => True
  | sp :: rest, active =>
      (keys.priv.key sp = ckInvalidHandle ∨ Goes destroys sp (keys.pub.key sp) active) ∧
        PublicFirst keys rest (dropped (keys.priv.key sp) (dropped (keys.pub.key sp) active))

def AnyFails (keys : KeyPair) : List Pk11Session → ActiveList → Prop
  | [], _ => False
  | sp :: rest, active =>
      Fails destroys sp (keys.pub.key sp) active ∨
        Fails destroys sp (keys.priv.key sp) (dropped (keys.pub.key sp) active) ∨
        AnyFails keys rest (dropped (keys.priv.key sp) (dropped (keys.pub.key sp) active))

/-- Every session caches both keys, and both go. -/
def AllGo (keys : KeyPair) : List Pk11Session → ActiveList → Prop
  | [], _ => True
  | sp :: rest, active =>
      Goes destroys sp (keys.pub.key sp) active ∧
        Goes destroys sp (keys.priv.key sp) (dropped (keys.pub.key sp) active) ∧
        AllGo keys rest (dropped (keys.priv.key sp) (dropped (keys.pub.key sp) active))

end Conditions

variable {keys : KeyPair} {slot : Slot} {destroys : Handle → Bool} {sp : Pk11Session} {active : ActiveList} {h : Handle}
  {sessions : List Pk11Session}

theorem destroy_spec (slot : Slot) (destroys : Handle → Bool) (sp : Pk11Session) (active : ActiveList) :
    let r := slot.destroy destroys sp active
    (r.1 ≠ 0 ↔ Goes destroys sp (slot.key sp) active) ∧ r.2.active = dropped (slot.key sp) active ∧
      r.2.sp = (if slot.key sp = ckInvalidHandle then sp else slot.clear sp) ∧
      ((∀ h ∈ r.2.destroyed, destroys h = true) ↔ ¬ Fails destroys sp (slot.key sp) active) := by
  rw [Slot.destroy]
  by_cases hkey : slot.key sp = ckInvalidHandle
  · rw [if_neg (not_not.mpr hkey)]
    refine ⟨?_, ?_, ?_, ?_⟩
    · simp [Goes, Last, hkey]
    · rw [dropped, if_pos hkey]
    · rw [if_pos hkey]
    · simp [Fails, Last, hkey]
  · rw [if_pos hkey, tryObjDestroy]
    have hlast : Last (slot.key sp) active ↔ (pk11ActiveDelete (slot.key sp) active).1 = 1 := and_iff_right hkey
    have hdropped : dropped (slot.key sp) active = (pk11ActiveDelete (slot.key sp) active).2 := if_neg hkey
    rw [Goes, Fails, hlast, hdropped, if_neg hkey]
    by_cases hone : (pk11ActiveDelete (slot.key sp) active).1 = 1
    · dsimp only
      rw [if_pos hone]
      cases hp : sp.persistent with
      | true => simp [hone]
      | false => cases hd : destroys (slot.key sp) <;> simp [hone, hd]
    · dsimp only
      rw [if_neg hone]
      simp [hone]

theorem key_destroyed (keys : KeyPair) (sp : Pk11Session) :
    let a := if keys.pub.key sp = ckInvalidHandle then sp else keys.pub.clear sp
    keys.pub.key a = ckInvalidHandle ∧ keys.priv.key a = keys.priv.key sp ∧ a.persistent = sp.persistent := by
  dsimp only
  by_cases hkey : keys.pub.key sp = ckInvalidHandle
  · rw [if_pos hkey]
    exact ⟨hkey, rfl, rfl⟩
  · rw [if_neg hkey]
    exact ⟨keys.pub_pub sp, keys.pub_priv sp, keys.persistent sp⟩

theorem keys_destroyed (hpub : keys.pub.key sp = ckInvalidHandle) :
    let b := if keys.priv.key sp = ckInvalidHandle then sp else keys.priv.clear sp
    keys.pub.key b = ckInvalidHandle ∧ keys.priv.key b = ckInvalidHandle := by
  dsimp only
  by_cases hkey : keys.priv.key sp = ckInvalidHandle
  · rw [if_pos hkey]
    exact ⟨hpub, hkey⟩
  · rw [if_neg hkey]
    exact ⟨(keys.priv_pub sp).trans hpub, keys.priv_priv sp⟩

theorem allGo_noneFails (h : AllGo destroys keys sessions active) : ¬ AnyFails destroys keys sessions active := by
  have hgoes {sp : Pk11Session} {k : Handle} {l : ActiveList} (hg : Goes destroys sp k l) : ¬ Fails destroys sp k l := by
    rintro ⟨-, hpersistent, hfails⟩
    rcases hg.2 with hp | hd
    · rw [hpersistent] at hp
      cases hp
    · rw [hfails] at hd
      cases hd
  induction sessions generalizing active with
  | nil => exact not_false
  | cons sp rest ih =>
      rintro (hpub | hpriv | hrest)
      · exact hgoes h.1 hpub
      · exact hgoes h.2.1 hpriv
      · exact ih h.2.2 hrest

theorem destroyKeyObjects_cons (keys : KeyPair) (destroys : Handle → Bool) (sp : Pk11Session) (rest : List Pk11Session)
    (active : ActiveList) : ∃ a b : Called,
    a.active = dropped (keys.pub.key sp) active ∧ keys.pub.key a.sp = ckInvalidHandle ∧ keys.priv.key a.sp = keys.priv.key sp ∧
    ((∀ h ∈ a.destroyed, destroys h = true) ↔ ¬ Fails destroys sp (keys.pub.key sp) active) ∧
    b.active = dropped (keys.priv.key sp) a.active ∧ keys.pub.key b.sp = ckInvalidHandle ∧ keys.priv.key b.sp = ckInvalidHandle ∧
    ((∀ h ∈ b.destroyed, destroys h = true) ↔ ¬ Fails destroys sp (keys.priv.key sp) a.active) ∧
    (¬ Goes destroys sp (keys.pub.key sp) active → destroyKeyObjects keys destroys (sp :: rest) active =
      ⟨0, a.sp :: (destroyKeyObjects keys destroys rest a.active).sessions, (destroyKeyObjects keys destroys rest a.active).active,
        a.destroyed ++ (destroyKeyObjects keys destroys rest a.active).destroyed⟩) ∧
    (Goes destroys sp (keys.pub.key sp) active → ∃ ret, (ret = 1 ↔ Goes destroys sp (keys.priv.key sp) a.active ∧
        (destroyKeyObjects keys destroys rest b.active).ret = 1) ∧ destroyKeyObjects keys destroys (sp :: rest) active =
      ⟨ret, b.sp :: (destroyKeyObjects keys destroys rest b.active).sessions, (destroyKeyObjects keys destroys rest b.active).active,
        a.destroyed ++ (b.destroyed ++ (destroyKeyObjects keys destroys rest b.active).destroyed)⟩) := by
  obtain ⟨hago, haactive, hasp, hafails⟩ := destroy_spec keys.pub destroys sp active
  obtain ⟨hpub, hpriv, hpersistent⟩ := key_destroyed keys sp
  rw [← hasp] at hpub hpriv hpersistent
  obtain ⟨hbgo, hbactive, hbsp, hbfails⟩ := destroy_spec keys.priv destroys (keys.pub.destroy destroys sp active).2.sp
    (keys.pub.destroy destroys sp active).2.active
  obtain ⟨hbpub, hbpriv⟩ := keys_destroyed hpub
  rw [← hbsp] at hbpub hbpriv
  rw [hpriv] at hbactive hbgo hbfails
  have hgoes {k : Handle} {l : ActiveList} : Goes destroys (keys.pub.destroy destroys sp active).2.sp k l ↔ Goes destroys sp k l := by
    rw [Goes, Goes, hpersistent]
  have hfails {k : Handle} {l : ActiveList} : Fails destroys (keys.pub.destroy destroys sp active).2.sp k l ↔ Fails destroys sp k l := by
    rw [Fails, Fails, hpersistent]
  rw [hgoes] at hbgo
  rw [hfails] at hbfails
  refine ⟨(keys.pub.destroy destroys sp active).2,
    (keys.priv.destroy destroys (keys.pub.destroy destroys sp active).2.sp (keys.pub.destroy destroys sp active).2.active).2,
    haactive, hpub, hpriv, hafails, hbactive, hbpub, hbpriv, hbfails, fun hno => ?_, fun hyes => ?_⟩
  · rw [destroyKeyObjects]
    exact if_pos (not_not.mp fun hne => hno (hago.mp hne))
  · rw [destroyKeyObjects]
    refine ⟨_, ?_, if_neg (hago.mpr hyes)⟩
    rw [← hbgo]
    split
    · next hzero => simp [hzero]
    · next hzero => simp [hzero]

theorem walk_empties : (∀ sp ∈ (destroyKeyObjects keys destroys sessions active).sessions,
      keys.pub.key sp = ckInvalidHandle ∧ keys.priv.key sp = ckInvalidHandle) ↔ PublicFirst destroys keys sessions active := by
  induction sessions generalizing active with
  | nil => exact ⟨fun _ => trivial, fun _ => List.forall_mem_nil _⟩
  | cons sp rest ih =>
      obtain ⟨a, b, haactive, hapub, hapriv, -, hbactive, hbpub, hbpriv, -, hno, hyes⟩ :=
        destroyKeyObjects_cons keys destroys sp rest active
      by_cases hgoes : Goes destroys sp (keys.pub.key sp) active
      · obtain ⟨ret, -, heq⟩ := hyes hgoes
        rw [heq, List.forall_mem_cons, ih, hbactive, haactive, PublicFirst]
        exact and_congr_left' ⟨fun _ => .inr hgoes, fun _ => ⟨hbpub, hbpriv⟩⟩
      · rw [hno hgoes, List.forall_mem_cons, ih, haactive, hapriv, PublicFirst]
        by_cases hkey : keys.priv.key sp = ckInvalidHandle
        · simp [hapub, hkey, dropped]
        · simp [hkey, hgoes]

theorem walk_destroys (h : PublicFirst destroys keys sessions active) :
    (∀ h ∈ (destroyKeyObjects keys destroys sessions active).destroyed, destroys h = true) ↔ ¬ AnyFails destroys keys sessions active := by
  induction sessions generalizing active with
  | nil => exact ⟨fun _ => not_false, fun _ => List.forall_mem_nil _⟩
  | cons sp rest ih =>
      obtain ⟨a, b, haactive, -, -, hafails, hbactive, -, -, hbfails, hno, hyes⟩ := destroyKeyObjects_cons keys destroys sp rest active
      have hrest := ih h.2
      rw [AnyFails, not_or, not_or]
      by_cases hgoes : Goes destroys sp (keys.pub.key sp) active
      · obtain ⟨ret, -, heq⟩ := hyes hgoes
        rw [haactive] at hbactive hbfails
        rw [heq, List.forall_mem_append, List.forall_mem_append, hafails, hbfails, hbactive, hrest]
      · have hkey := h.1.resolve_right hgoes
        have hnone : ¬ Fails destroys sp (keys.priv.key sp) (dropped (keys.pub.key sp) active) := fun hf => hf.1.1 hkey
        have hsame : dropped (keys.priv.key sp) (dropped (keys.pub.key sp) active) = dropped (keys.pub.key sp) active := if_pos hkey
        rw [hsame] at hrest ⊢
        rw [hno hgoes, List.forall_mem_append, hafails, haactive, hrest]
        exact and_congr_right' (and_iff_right hnone).symm

theorem walk_ret : (destroyKeyObjects keys destroys sessions active).ret = 1 ↔ AllGo destroys keys sessions active := by
  induction sessions generalizing active with
  | nil => exact ⟨fun _ => trivial, fun _ => rfl⟩
  | cons sp rest ih =>
      obtain ⟨a, b, haactive, -, -, -, hbactive, -, -, -, hno, hyes⟩ := destroyKeyObjects_cons keys destroys sp rest active
      by_cases hgoes : Goes destroys sp (keys.pub.key sp) active
      · obtain ⟨ret, hret, heq⟩ := hyes hgoes
        rw [heq, hret, ih, hbactive, haactive, AllGo]
        exact (and_iff_right hgoes).symm
      · rw [hno hgoes, AllGo]
        exact ⟨fun hzero => absurd hzero Int.zero_ne_one, fun hgo => absurd hgo.1 hgoes⟩

theorem shutsDown_iff : ShutsDown keys destroys (destroyKeyObjects keys destroys sessions active) ↔
    PublicFirst destroys keys sessions active ∧ (AnyFails destroys keys sessions active ∨ AllGo destroys keys sessions active) := by
  rw [ShutsDown, walk_empties, walk_ret]
  refine and_congr_right fun hfirst => ?_
  rw [walk_destroys hfirst]
  constructor
  · intro hiff
    by_cases hfails : AnyFails destroys keys sessions active
    · exact .inl hfails
    · exact .inr (hiff.mpr hfails)
  · rintro (hfails | hgo)
    · exact ⟨allGo_noneFails, fun hno => absurd hfails hno⟩
    · exact ⟨allGo_noneFails, fun _ => hgo⟩

/-- Both functions drop all keys and tell so when no private key is cached without a public one that goes
before it, and either a destruction fails or every session has both keys and both go. -/
theorem key_objects_shutDown_iff (destroys : Handle → Bool) (sessions : List Pk11Session) (active : ActiveList) :
    (ShutsDown rsaKeys destroys (pk11DestroyRsaKeyObjectsAll destroys sessions active) ↔ PublicFirst destroys rsaKeys sessions active ∧
      (AnyFails destroys rsaKeys sessions active ∨ AllGo destroys rsaKeys sessions active)) ∧
    (ShutsDown dsaKeys destroys (pk11DestroyDsaKeyObjectsAll destroys sessions active) ↔ PublicFirst destroys dsaKeys sessions active ∧
      (AnyFails destroys dsaKeys sessions active ∨ AllGo destroys dsaKeys sessions active)) :=
  ⟨shutsDown_iff, shutsDown_iff⟩

/-- A session with a private key alone keeps it. -/
theorem private_key_kept : ¬ ShutsDown rsaKeys (fun _ => true)
    (pk11DestroyRsaKeyObjectsAll (fun _ => true) [{ rsa := { privKey := 7 } }] [⟨7, 1, Nat.one_pos⟩]) := by
  intro h
  exact absurd (h.1 { rsa := { privKey := 7 } } (List.mem_singleton_self _)).2 (by decide)

end OiUserland.Pkcs11.KeyShutdown
