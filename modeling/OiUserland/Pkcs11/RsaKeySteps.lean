import OiUserland.Pkcs11.RsaKeyCounts

namespace OiUserland.Pkcs11.RsaKeySteps

open Lib.RefCounts Types RsaKeys RsaKeyCounts

def Each (P : Pk11Session → ActiveList → Called → Prop) : Pk11Session → ActiveList → List Called → Prop
  | _, _, [] => True
  | sp, active, c :: t => P sp active c ∧ Each P c.sp c.active t

structure Held (sp : Pk11Session) (active : ActiveList) : Prop where
  oneEntry : OneEntry active
  counted : ∀ h, h ≠ ckInvalidHandle → caches sp h ≤ refs h active

def Sound (sp : Pk11Session) (active : ActiveList) (c : Called) : Prop := Moves sp active c ∧ OneEntry c.active

def Single (_ : Pk11Session) (active : ActiveList) (c : Called) : Prop := OneEntry active → OneEntry c.active

variable {P : Pk11Session → ActiveList → Called → Prop} {sp : Pk11Session} {active : ActiveList} {c : Called}
  {t : List Called} {destroys : Handle → Bool} {rsa : Rsa} {r : KeyResults} {k : TokenResults}

theorem Each.append (ht : Each P sp active t) (hc : P (after sp active t).1 (after sp active t).2 c) :
    Each P sp active (t ++ [c]) := by
  induction t generalizing sp active with
  | nil => exact ⟨hc, trivial⟩
  | cons d t ih => exact ⟨ht.1, ih ht.2 hc⟩

theorem Held.moves (hh : Held sp active) (hc : Sound sp active c) : Held c.sp c.active := by
  refine ⟨hc.2, fun h hne => ?_⟩
  have hbalance := hc.1.balance h hne
  have hcounted := hh.counted h hne
  omega

theorem Held.after (hh : Held sp active) (ht : Each Sound sp active t) :
    Held (after sp active t).1 (after sp active t).2 := by
  induction t generalizing sp active with
  | nil => exact hh
  | cons c t ih => exact ih (hh.moves ht.1) ht.2

theorem Held.destroyPub (hh : Held sp active) (destroys : Handle → Bool) : Sound sp active (pk11DestroyRsaObjectPub destroys sp active).2 :=
  ⟨moves_destroyPub hh.oneEntry hh.counted, oneEntry_destroyPub hh.oneEntry⟩

theorem Held.destroyPriv (hh : Held sp active) (destroys : Handle → Bool) : Sound sp active (pk11DestroyRsaObjectPriv destroys sp active).2 :=
  ⟨moves_destroyPriv hh.oneEntry hh.counted, oneEntry_destroyPriv hh.oneEntry⟩

theorem Held.checkPub (hh : Held sp active) : Each Sound sp active (pk11CheckNewRsaKeyPub destroys rsa sp active) := by
  rw [pk11CheckNewRsaKeyPub]
  split
  · exact trivial
  · exact ⟨hh.destroyPub _, (hh.moves (hh.destroyPub _)).destroyPriv _, trivial⟩

theorem Held.checkPriv (hh : Held sp active) : Each Sound sp active (pk11CheckNewRsaKeyPriv destroys rsa sp active) := by
  rw [pk11CheckNewRsaKeyPriv]
  split
  · exact trivial
  · exact ⟨hh.destroyPriv _, (hh.moves (hh.destroyPriv _)).destroyPub _, trivial⟩

theorem single_checkPub : Each Single sp active (pk11CheckNewRsaKeyPub destroys rsa sp active) := by
  rw [pk11CheckNewRsaKeyPub]
  split
  · exact trivial
  · exact ⟨oneEntry_destroyPub, oneEntry_destroyPriv, trivial⟩

theorem single_checkPriv : Each Single sp active (pk11CheckNewRsaKeyPriv destroys rsa sp active) := by
  rw [pk11CheckNewRsaKeyPriv]
  split
  · exact trivial
  · exact ⟨oneEntry_destroyPriv, oneEntry_destroyPub, trivial⟩

def FreshPub (destroys : Handle → Bool) (rsa : Rsa) (r : KeyResults) (sp : Pk11Session) (active : ActiveList) : Prop :=
  Fresh r (after sp active (pk11CheckNewRsaKeyPub destroys rsa sp active)).2

def FreshPriv (destroys : Handle → Bool) (rsa : Rsa) (r : KeyResults) (sp : Pk11Session) (active : ActiveList) : Prop :=
  Fresh r (after sp active (pk11CheckNewRsaKeyPriv destroys rsa sp active)).2

theorem Held.getPub (hh : Held sp active) (hends : Ends r) (hfresh : Fresh r active)
    (hempty : sp.rsa.pubKey = ckInvalidHandle) : Sound sp active (storePub (pk11GetPublicRsaKey rsa r sp active)) :=
  ⟨moves_storePub (gets_pub hends hfresh) hempty rfl, oneEntry_pub hh.oneEntry⟩

theorem Held.getPriv (hh : Held sp active) (hends : Ends r) (hfresh : Fresh r active)
    (hempty : sp.rsa.privKey = ckInvalidHandle) : Sound sp active (storePriv (pk11GetPrivateRsaKey rsa r sp active)) :=
  ⟨moves_storePriv (gets_priv hends hfresh) hempty, oneEntry_priv hh.oneEntry⟩

theorem Held.lookupPub (hh : Held sp active) (hends : Ends r) (hfresh : FreshPub destroys rsa r sp active) :
    Each Sound sp active (lookupPub destroys rsa r sp active) := by
  have hcheck : Each Sound sp active (pk11CheckNewRsaKeyPub destroys rsa sp active) := hh.checkPub
  rw [RsaKeys.lookupPub]
  split
  · next hempty => exact hcheck.append ((hh.after hcheck).getPub hends hfresh hempty)
  · exact hcheck

theorem Held.lookupPriv (hh : Held sp active) (hends : Ends r) (hfresh : FreshPriv destroys rsa r sp active) :
    Each Sound sp active (lookupPriv destroys rsa r sp active) := by
  have hcheck : Each Sound sp active (pk11CheckNewRsaKeyPriv destroys rsa sp active) := hh.checkPriv
  rw [RsaKeys.lookupPriv]
  split
  · next hempty => exact hcheck.append ((hh.after hcheck).getPriv hends hfresh hempty)
  · exact hcheck

theorem destroyPub_pubKey : (pk11DestroyRsaObjectPub destroys sp active).2.sp.rsa.pubKey = ckInvalidHandle := by
  rw [pk11DestroyRsaObjectPub]
  split
  · rfl
  · next h => simpa using h

theorem destroyPub_privKey : (pk11DestroyRsaObjectPub destroys sp active).2.sp.rsa.privKey = sp.rsa.privKey := by
  rw [pk11DestroyRsaObjectPub]
  split <;> rfl

theorem destroyPriv_privKey : (pk11DestroyRsaObjectPriv destroys sp active).2.sp.rsa.privKey = ckInvalidHandle := by
  rw [pk11DestroyRsaObjectPriv]
  split
  · rfl
  · next h => simpa using h

theorem destroyPriv_pubKey : (pk11DestroyRsaObjectPriv destroys sp active).2.sp.rsa.pubKey = sp.rsa.pubKey := by
  rw [pk11DestroyRsaObjectPriv]
  split <;> rfl

def Misses (isPrivate : Bool) (file : Option Rsa) (sp : Pk11Session) : Prop :=
  ∀ rsa, file = some rsa →
    if isPrivate then SameRsa sp.rsa.priv sp.rsa rsa → sp.rsa.privKey = ckInvalidHandle
    else SameRsa sp.rsa.pub sp.rsa rsa → sp.rsa.pubKey = ckInvalidHandle

theorem checkPub_pubKey (h : SameRsa sp.rsa.pub sp.rsa rsa → sp.rsa.pubKey = ckInvalidHandle) :
    (after sp active (pk11CheckNewRsaKeyPub destroys rsa sp active)).1.rsa.pubKey = ckInvalidHandle := by
  rw [pk11CheckNewRsaKeyPub]
  split
  · next hsame => exact h hsame
  · exact destroyPriv_pubKey.trans destroyPub_pubKey

theorem checkPriv_privKey (h : SameRsa sp.rsa.priv sp.rsa rsa → sp.rsa.privKey = ckInvalidHandle) :
    (after sp active (pk11CheckNewRsaKeyPriv destroys rsa sp active)).1.rsa.privKey = ckInvalidHandle := by
  rw [pk11CheckNewRsaKeyPriv]
  split
  · next hsame => exact h hsame
  · exact destroyPub_privKey.trans destroyPriv_privKey

def FreshFile (isPrivate : Bool) (destroys : Handle → Bool) (file : Option Rsa) (r : KeyResults) (sp : Pk11Session)
    (active : ActiveList) : Prop :=
  ∀ rsa, file = some rsa → if isPrivate then FreshPriv destroys rsa r sp active else FreshPub destroys rsa r sp active

theorem Held.loadFile {isPrivate : Bool} {file : Option Rsa} (hh : Held sp active) (hends : Ends r)
    (hfresh : FreshFile isPrivate destroys file r sp active) (hmiss : Misses isPrivate file sp) :
    Each Sound sp active (commonGetKeyFromFile isPrivate destroys file r sp active) := by
  cases file with
  | none => exact trivial
  | some rsa =>
      have hf := hfresh rsa rfl
      have hm := hmiss rsa rfl
      cases isPrivate with
      | true =>
          rw [if_pos rfl] at hf hm
          have hcheck : Each Sound sp active (pk11CheckNewRsaKeyPriv destroys rsa sp active) := hh.checkPriv
          exact hcheck.append ((hh.after hcheck).getPriv hends hf (checkPriv_privKey hm))
      | false =>
          rw [if_neg Bool.false_ne_true] at hf hm
          have hcheck : Each Sound sp active (pk11CheckNewRsaKeyPub destroys rsa sp active) := hh.checkPub
          exact hcheck.append ((hh.after hcheck).getPub hends hf (checkPub_pubKey hm))

def Completes (k : TokenResults) : Prop :=
  ∀ h, k.object = some h → h ≠ ckInvalidHandle ∧ k.rsaNew.isSome ∧ k.getAttributes = ckrOk ∧ k.evpNew = true ∧
    k.evpSet = true ∧ k.malloc = true

def FreshToken (isPrivate : Bool) (destroys : Handle → Bool) (k : TokenResults) (r : KeyResults) (sp : Pk11Session)
    (active : ActiveList) : Prop :=
  k.object.isSome → isPrivate = false → Fresh r (pk11DestroyRsaObjectPub destroys sp active).2.active

theorem moves_dropRsa (hc : Moves sp active c) : Moves sp active (dropRsa c) := ⟨hc.balance, hc.unused, hc.last⟩

theorem Held.tokenPriv (hh : Held sp active) (hk : Completes k) :
    Each Sound sp active (loadTokenPriv destroys k sp active) := by
  rw [loadTokenPriv]
  cases hobj : k.object with
  | none => exact trivial
  | some h =>
      obtain ⟨hne, hrsa, hget, hnew, hset, hmalloc⟩ := hk h hobj
      have hd : Sound sp active (pk11DestroyRsaObjectPriv destroys sp active).2 := hh.destroyPriv _
      obtain ⟨active', hadd⟩ := activeAdd_isSome (pk11DestroyRsaObjectPriv destroys sp active).2.active hne
      have hnone : k.rsaNew.isNone = false := by simpa using hrsa
      simp only [hnone, hget, hnew, hset, hmalloc, hadd, ne_eq, not_true_eq_false, Bool.not_true, Bool.or_self,
        Bool.false_eq_true, if_false]
      have hgets : Gets (pk11DestroyRsaObjectPriv destroys sp active).2.sp (pk11DestroyRsaObjectPriv destroys sp active).2.active
          (h, ⟨{ (pk11DestroyRsaObjectPriv destroys sp active).2.sp with
            rsa := { (pk11DestroyRsaObjectPriv destroys sp active).2.sp.rsa with
              priv := k.rsaNew, nNum := some k.n, eNum := some k.e }
            persistent := true }, active', []⟩) :=
        ⟨fun h' _ => activeAdd_refs hadd h', nofun, rfl, rfl⟩
      exact ⟨hd, ⟨moves_storePriv hgets destroyPriv_privKey, oneEntry_add hd.2 hadd⟩, trivial⟩

theorem Held.tokenPub (hh : Held sp active) (hk : Completes k) (hends : Ends r)
    (hfresh : FreshToken false destroys k r sp active) : Each Sound sp active (loadTokenPub destroys k r sp active) := by
  rw [loadTokenPub]
  cases hobj : k.object with
  | none => exact trivial
  | some h =>
      obtain ⟨hne, hrsa, hget, hnew, hset, hmalloc⟩ := hk h hobj
      obtain ⟨addr, haddr⟩ := Option.isSome_iff_exists.mp hrsa
      have hd : Sound sp active (pk11DestroyRsaObjectPub destroys sp active).2 := hh.destroyPub _
      have hf : Fresh r (pk11DestroyRsaObjectPub destroys sp active).2.active := hfresh (by rw [hobj]; rfl) rfl
      simp only [haddr, hget, hnew, hset, ne_eq, not_true_eq_false, Bool.not_true, Bool.or_self,
        Bool.false_eq_true, if_false]
      -- the handle of the token key is overwritten by that of the session key
      have hgets : Gets _ (pk11DestroyRsaObjectPub destroys sp active).2.active (pk11GetPublicRsaKey ⟨addr, k.n, k.e, none⟩ r
          { (pk11DestroyRsaObjectPub destroys sp active).2.sp with
            rsa := { (pk11DestroyRsaObjectPub destroys sp active).2.sp.rsa with pubKey := h, pub := some addr } }
          (pk11DestroyRsaObjectPub destroys sp active).2.active) := gets_pub hends hf
      have hempty : (pk11DestroyRsaObjectPub destroys sp active).2.sp.rsa.pubKey = ckInvalidHandle := destroyPub_pubKey
      have hmoves := moves_storePub hgets hempty rfl
      split
      · exact ⟨hd, ⟨moves_dropRsa hmoves, oneEntry_pub hd.2⟩, trivial⟩
      · exact ⟨hd, ⟨hmoves, oneEntry_pub hd.2⟩, trivial⟩

theorem single_lookupPub : Each Single sp active (lookupPub destroys rsa r sp active) := by
  rw [lookupPub]
  split
  · exact single_checkPub.append oneEntry_pub
  · exact single_checkPub

theorem single_lookupPriv : Each Single sp active (lookupPriv destroys rsa r sp active) := by
  rw [lookupPriv]
  split
  · exact single_checkPriv.append oneEntry_priv
  · exact single_checkPriv

theorem single_loadFile {isPrivate : Bool} {file : Option Rsa} :
    Each Single sp active (commonGetKeyFromFile isPrivate destroys file r sp active) := by
  cases file with
  | none => exact trivial
  | some rsa =>
      cases isPrivate with
      | true => exact single_checkPriv.append oneEntry_priv
      | false => exact single_checkPub.append oneEntry_pub

theorem single_tokenPriv : Each Single sp active (loadTokenPriv destroys k sp active) := by
  rw [loadTokenPriv]
  cases k.object with
  | none => exact trivial
  | some h =>
      dsimp only
      split
      · exact ⟨oneEntry_destroyPriv, id, trivial⟩
      · split
        · exact ⟨oneEntry_destroyPriv, id, trivial⟩
        · split
          · exact ⟨oneEntry_destroyPriv, id, trivial⟩
          · split
            · exact ⟨oneEntry_destroyPriv, id, trivial⟩
            · next hadd => exact ⟨oneEntry_destroyPriv, fun hone => oneEntry_add hone hadd, trivial⟩

theorem single_tokenPub : Each Single sp active (loadTokenPub destroys k r sp active) := by
  rw [loadTokenPub]
  cases k.object with
  | none => exact trivial
  | some h =>
      dsimp only
      split
      · exact ⟨oneEntry_destroyPub, id, trivial⟩
      · split
        · exact ⟨oneEntry_destroyPub, id, trivial⟩
        · split
          · exact ⟨oneEntry_destroyPub, id, trivial⟩
          · split
            · exact ⟨oneEntry_destroyPub, oneEntry_pub, trivial⟩
            · exact ⟨oneEntry_destroyPub, oneEntry_pub, trivial⟩

end OiUserland.Pkcs11.RsaKeySteps
