import OiUserland.Pkcs11.RsaKeys

namespace OiUserland.Pkcs11.RsaKeyCounts

open Lib.RefCounts Types RsaKeys

def caches (sp : Pk11Session) (h : Handle) : Nat :=
  (if sp.rsa.pubKey = h then 1 else 0) + if sp.rsa.privKey = h then 1 else 0

structure Moves (sp : Pk11Session) (active : ActiveList) (c : Called) : Prop where
  balance : ∀ h, h ≠ ckInvalidHandle → refs h c.active + caches sp h = refs h active + caches c.sp h
  unused : ∀ h ∈ c.destroyed, refs h c.active = 0
  last : ∀ h, h ≠ ckInvalidHandle → 0 < refs h active → refs h c.active = 0 →
    h ∈ c.destroyed ∨ sp.persistent = true ∧ 0 < caches sp h

variable {sp : Pk11Session} {active active' : ActiveList} {h : Handle} {malloc : Bool} {destroys : Handle → Bool}
  {rsa : Rsa} {r : KeyResults}

theorem oneEntry_add (hone : OneEntry active) (hadd : pk11ActiveAdd h malloc active = some active') :
    OneEntry active' := by
  rw [pk11ActiveAdd] at hadd
  by_cases hh : h = ckInvalidHandle
  · rw [if_pos hh] at hadd
    cases hadd
  · rw [if_neg hh] at hadd
    cases hhold : hold h active with
    | some a =>
        rw [hhold] at hadd
        cases hadd
        exact hone.hold hhold
    | none =>
        rw [hhold] at hadd
        cases malloc with
        | false => cases hadd
        | true =>
            cases hadd
            exact hone.insert (hold_none.mp hhold)

theorem activeAdd_refs (hadd : pk11ActiveAdd h malloc active = some active') (h' : Handle) :
    refs h' active' = refs h' active + if h = h' then 1 else 0 := by
  rw [pk11ActiveAdd] at hadd
  by_cases hh : h = ckInvalidHandle
  · rw [if_pos hh] at hadd
    cases hadd
  · rw [if_neg hh] at hadd
    cases hhold : hold h active with
    | some a =>
        rw [hhold] at hadd
        cases hadd
        exact hold_refs hhold h'
    | none =>
        rw [hhold] at hadd
        cases malloc with
        | false => cases hadd
        | true =>
            cases hadd
            exact insert_refs (hold_none.mp hhold) h'

theorem activeAdd_isSome (active : ActiveList) (hh : h ≠ ckInvalidHandle) : ∃ active', pk11ActiveAdd h true active = some active' := by
  rw [pk11ActiveAdd, if_neg hh]
  cases hold h active with
  | some a => exact ⟨a, rfl⟩
  | none => exact ⟨_, rfl⟩

theorem oneEntry_delete (hone : OneEntry active) : OneEntry (pk11ActiveDelete h active).2 := by
  rw [pk11ActiveDelete]
  cases hr : release h active with
  | none => exact hone
  | some p => exact hone.release hr

theorem tryObjDestroy_spec (destroys : Handle → Bool) (sp : Pk11Session) (hone : OneEntry active) (hrefs : 0 < refs h active) :
    let t := tryObjDestroy destroys sp h active
    (∀ h', refs h' t.2.1 + (if h = h' then 1 else 0) = refs h' active) ∧
      t.2.2 = if refs h t.2.1 = 0 ∧ sp.persistent = false then [h] else [] := by
  rw [tryObjDestroy, pk11ActiveDelete]
  cases hr : release h active with
  | none => exact absurd (release_none.mp hr) (by omega)
  | some p =>
      obtain ⟨last, a⟩ := p
      have hlast := release_last hone hr
      have hrefs' := release_refs hone hr
      cases last with
      | true =>
          have hzero := hlast.mp rfl
          cases hp : sp.persistent with
          | true => simpa [hzero] using hrefs'
          | false => simpa [hzero] using hrefs'
      | false =>
          have hsome : refs h a ≠ 0 := fun hzero => Bool.false_ne_true (hlast.mpr hzero)
          simpa [hsome] using hrefs'

theorem oneEntry_try (hone : OneEntry active) : OneEntry (tryObjDestroy destroys sp h active).2.1 := by
  have hdelete := oneEntry_delete (h := h) hone
  rw [tryObjDestroy]
  split
  · split
    · exact hdelete
    · exact hdelete
  · exact hdelete

theorem oneEntry_destroyPub (hone : OneEntry active) : OneEntry (pk11DestroyRsaObjectPub destroys sp active).2.active := by
  rw [pk11DestroyRsaObjectPub]
  split
  · exact oneEntry_try hone
  · exact hone

theorem oneEntry_destroyPriv (hone : OneEntry active) : OneEntry (pk11DestroyRsaObjectPriv destroys sp active).2.active := by
  rw [pk11DestroyRsaObjectPriv]
  split
  · exact oneEntry_try hone
  · exact hone

theorem moves_none : Moves sp active ⟨sp, active, []⟩ :=
  ⟨fun _ _ => rfl, nofun, fun _ _ hpos hzero => absurd hzero (Nat.ne_of_gt hpos)⟩

theorem moves_try {k : Handle} {sp' : Pk11Session} (hone : OneEntry active) (hpos : 0 < refs k active)
    (hcaches : ∀ h, h ≠ ckInvalidHandle → caches sp h = caches sp' h + if k = h then 1 else 0) (hk : 0 < caches sp k) :
    Moves sp active ⟨sp', (tryObjDestroy destroys sp k active).2.1, (tryObjDestroy destroys sp k active).2.2⟩ := by
  obtain ⟨hcount, hdestroyed⟩ := tryObjDestroy_spec destroys sp hone hpos
  constructor
  · intro h hh
    have hcounted := hcount h
    have hcached := hcaches h hh
    dsimp only
    omega
  · intro h hmem
    dsimp only at hmem ⊢
    rw [hdestroyed] at hmem
    split at hmem
    · next hlast =>
        rw [List.mem_singleton.mp hmem]
        exact hlast.1
    · cases hmem
  · intro h _ hsome hzero
    dsimp only at hzero ⊢
    have hcounted := hcount h
    have hkh : k = h := by
      by_contra hne
      rw [if_neg hne] at hcounted
      omega
    subst hkh
    cases hp : sp.persistent with
    | true => exact .inr ⟨rfl, hk⟩
    | false =>
        left
        rw [hdestroyed, if_pos ⟨hzero, hp⟩]
        exact List.mem_singleton.mpr rfl

theorem moves_destroyPub (hone : OneEntry active) (hrefs : ∀ h, h ≠ ckInvalidHandle → caches sp h ≤ refs h active) :
    Moves sp active (pk11DestroyRsaObjectPub destroys sp active).2 := by
  rw [pk11DestroyRsaObjectPub]
  by_cases hk : sp.rsa.pubKey = ckInvalidHandle
  · rw [if_neg (by simpa using hk)]
    exact moves_none
  · have hcaches : 0 < caches sp sp.rsa.pubKey := by
      rw [caches, if_pos rfl]
      omega
    rw [if_pos hk]
    refine moves_try hone (Nat.lt_of_lt_of_le hcaches (hrefs _ hk)) ?_ hcaches
    intro h hh
    change _ = ((if ckInvalidHandle = h then 1 else 0) + if sp.rsa.privKey = h then 1 else 0) + _
    rw [if_neg (Ne.symm hh), caches]
    omega

theorem moves_destroyPriv (hone : OneEntry active) (hrefs : ∀ h, h ≠ ckInvalidHandle → caches sp h ≤ refs h active) :
    Moves sp active (pk11DestroyRsaObjectPriv destroys sp active).2 := by
  rw [pk11DestroyRsaObjectPriv]
  by_cases hk : sp.rsa.privKey = ckInvalidHandle
  · rw [if_neg (by simpa using hk)]
    exact moves_none
  · have hcaches : 0 < caches sp sp.rsa.privKey := by
      rw [caches, if_pos rfl]
      omega
    rw [if_pos hk]
    refine moves_try hone (Nat.lt_of_lt_of_le hcaches (hrefs _ hk)) ?_ hcaches
    intro h hh
    change _ = ((if sp.rsa.pubKey = h then 1 else 0) + if ckInvalidHandle = h then 1 else 0) + _
    rw [if_neg (Ne.symm hh), caches]
    omega

def Ends (r : KeyResults) : Prop := r.findInit = ckrOk → r.find = ckrOk → r.found ≠ 0 → r.findFinal = ckrOk

def Fresh (r : KeyResults) (active : ActiveList) : Prop :=
  r.found = 0 → r.create = ckrOk → refs r.createdKey active = 0

theorem findKey_stops {creates : Bool} (hr : Ends r) (hf : findKey creates r = (h, false)) : h = ckInvalidHandle := by
  rw [findKey] at hf
  by_cases h1 : r.findInit = ckrOk
  · rw [if_neg (by simpa using h1)] at hf
    by_cases h2 : r.find = ckrOk
    · rw [if_neg (by simpa using h2)] at hf
      dsimp only at hf
      by_cases h4 : r.found = 0
      · rw [if_pos h4] at hf
        split at hf
        · exact (congrArg Prod.fst hf).symm
        · rw [if_neg (by simpa using h4)] at hf
          split at hf
          · exact (congrArg Prod.fst hf).symm
          · split at hf
            · exact (congrArg Prod.fst hf).symm
            · cases hf
      · rw [if_neg (by simpa using hr h1 h2 h4), if_pos h4] at hf
        cases hf
    · rw [if_pos h2] at hf
      exact (congrArg Prod.fst hf).symm
  · rw [if_pos h1] at hf
    exact (congrArg Prod.fst hf).symm

theorem findKey_created {creates : Bool} (hf : findKey creates r = (h, true)) (h0 : r.found = 0) :
    r.create = ckrOk ∧ h = r.createdKey := by
  rw [findKey, if_pos h0] at hf
  split at hf
  · cases hf
  · split at hf
    · cases hf
    · dsimp only at hf
      split at hf
      · cases hf
      · rw [if_neg (by simpa using h0)] at hf
        split at hf
        · cases hf
        · split at hf
          · cases hf
          · next hc => exact ⟨by simpa using hc, (congrArg Prod.fst hf).symm⟩

structure Gets (sp : Pk11Session) (active : ActiveList) (g : Handle × Called) : Prop where
  counted : ∀ h, h ≠ ckInvalidHandle → refs h g.2.active = refs h active + if g.1 = h then 1 else 0
  unused : ∀ h ∈ g.2.destroyed, refs h g.2.active = 0
  pubKey : g.2.sp.rsa.pubKey = sp.rsa.pubKey
  privKey : g.2.sp.rsa.privKey = sp.rsa.privKey

theorem gets_nothing {sp' : Pk11Session} {destroyed : List Handle} (hd : ∀ h ∈ destroyed, refs h active = 0)
    (hpub : sp'.rsa.pubKey = sp.rsa.pubKey) (hpriv : sp'.rsa.privKey = sp.rsa.privKey) :
    Gets sp active (ckInvalidHandle, ⟨sp', active, destroyed⟩) := by
  refine ⟨fun h hh => ?_, hd, hpub, hpriv⟩
  dsimp only
  rw [if_neg (Ne.symm hh), Nat.add_zero]

theorem gets_rollback {sp' : Pk11Session} (hfresh : r.found = 0 → refs h active = 0)
    (hpub : sp'.rsa.pubKey = sp.rsa.pubKey) (hpriv : sp'.rsa.privKey = sp.rsa.privKey) :
    Gets sp active (rollback r h sp' active) := by
  refine gets_nothing (fun h' hmem => ?_) hpub hpriv
  split at hmem
  · next h0 =>
      rw [List.mem_singleton.mp hmem]
      exact hfresh h0
  · cases hmem

theorem gets_record {keep : RsaData → RsaData} {sp' : Pk11Session} (hfresh : r.found = 0 → refs h active = 0)
    (hkeep : ∀ d, (keep d).pubKey = d.pubKey ∧ (keep d).privKey = d.privKey)
    (hpub : sp'.rsa.pubKey = sp.rsa.pubKey) (hpriv : sp'.rsa.privKey = sp.rsa.privKey) :
    Gets sp active (recordKey rsa r h keep sp' active) := by
  rw [recordKey]
  by_cases hn : r.dupN = true
  · rw [if_neg (by simpa using hn)]
    by_cases he : r.dupE = true
    · rw [if_neg (by simpa using he)]
      dsimp only
      cases hadd : pk11ActiveAdd h r.malloc active with
      | none => exact gets_rollback hfresh hpub hpriv
      | some a =>
          obtain ⟨hkpub, hkpriv⟩ := hkeep (withNumbers sp' (some rsa.n) (some rsa.e)).rsa
          exact ⟨fun h' _ => activeAdd_refs hadd h', nofun, hkpub.trans hpub, hkpriv.trans hpriv⟩
    · rw [if_pos (by simpa using he)]
      exact gets_rollback hfresh hpub hpriv
  · rw [if_pos (by simpa using hn)]
    exact gets_rollback hfresh hpub hpriv

theorem gets_pub (hends : Ends r) (hfresh : Fresh r active) : Gets sp active (pk11GetPublicRsaKey rsa r sp active) := by
  rw [pk11GetPublicRsaKey]
  by_cases ht : r.template = true
  · rw [if_neg (by simpa using ht)]
    cases hf : findKey true r with
    | mk h more =>
        cases more with
        | false =>
            rw [findKey_stops hends hf]
            exact gets_nothing nofun rfl rfl
        | true =>
            refine gets_record (fun h0 => ?_) (fun _ => ⟨rfl, rfl⟩) rfl rfl
            obtain ⟨hcreate, rfl⟩ := findKey_created hf h0
            exact hfresh h0 hcreate
  · rw [if_pos (by simpa using ht)]
    exact gets_nothing nofun rfl rfl

theorem gets_priv (hends : Ends r) (hfresh : Fresh r active) : Gets sp active (pk11GetPrivateRsaKey rsa r sp active) := by
  rw [pk11GetPrivateRsaKey]
  by_cases ht : r.template = true
  · rw [if_neg (by simpa using ht)]
    cases hf : findKey rsa.d.isSome r with
    | mk h more =>
        cases more with
        | false =>
            rw [findKey_stops hends hf]
            exact gets_nothing nofun rfl rfl
        | true =>
            have hnew : r.found = 0 → refs h active = 0 := by
              intro h0
              obtain ⟨hcreate, rfl⟩ := findKey_created hf h0
              exact hfresh h0 hcreate
            dsimp only
            cases rsa.d with
            | none => exact gets_record hnew (fun _ => ⟨rfl, rfl⟩) rfl rfl
            | some d =>
                by_cases hd : r.dupD = true
                · dsimp only
                  rw [if_neg (by simpa using hd)]
                  exact gets_record hnew (fun _ => ⟨rfl, rfl⟩) rfl rfl
                · dsimp only
                  rw [if_pos (by simpa using hd)]
                  exact gets_rollback hnew rfl rfl
  · rw [if_pos (by simpa using ht)]
    exact gets_nothing nofun rfl rfl

theorem moves_storePub {g : Handle × Called} {sp' : Pk11Session} (hg : Gets sp' active g)
    (hempty : sp.rsa.pubKey = ckInvalidHandle) (hpriv : sp'.rsa.privKey = sp.rsa.privKey) :
    Moves sp active (storePub g) := by
  refine ⟨fun h hh => ?_, hg.unused, fun h hh hpos hzero => ?_⟩
  · have hcounted := hg.counted h hh
    change refs h g.2.active + _ = _ + ((if g.1 = h then 1 else 0) + if g.2.sp.rsa.privKey = h then 1 else 0)
    rw [caches, hempty, if_neg (Ne.symm hh), hg.privKey, hpriv]
    omega
  · have hcounted := hg.counted h hh
    have hsome : refs h g.2.active = 0 := hzero
    omega

theorem moves_storePriv {g : Handle × Called} (hg : Gets sp active g) (hempty : sp.rsa.privKey = ckInvalidHandle) :
    Moves sp active (storePriv g) := by
  refine ⟨fun h hh => ?_, hg.unused, fun h hh hpos hzero => ?_⟩
  · have hcounted := hg.counted h hh
    change refs h g.2.active + _ = _ + ((if g.2.sp.rsa.pubKey = h then 1 else 0) + if g.1 = h then 1 else 0)
    rw [caches, hempty, if_neg (Ne.symm hh), hg.pubKey]
    omega
  · have hcounted := hg.counted h hh
    have hsome : refs h g.2.active = 0 := hzero
    omega

theorem oneEntry_record {keep : RsaData → RsaData} (hone : OneEntry active) :
    OneEntry (recordKey rsa r h keep sp active).2.active := by
  rw [recordKey]
  split
  · exact hone
  · split
    · exact hone
    · dsimp only
      cases hadd : pk11ActiveAdd h r.malloc active with
      | none => exact hone
      | some a => exact oneEntry_add hone hadd

theorem oneEntry_pub (hone : OneEntry active) : OneEntry (pk11GetPublicRsaKey rsa r sp active).2.active := by
  rw [pk11GetPublicRsaKey]
  split
  · exact hone
  · split
    · exact hone
    · exact oneEntry_record hone

theorem oneEntry_priv (hone : OneEntry active) : OneEntry (pk11GetPrivateRsaKey rsa r sp active).2.active := by
  rw [pk11GetPrivateRsaKey]
  split
  · exact hone
  · split
    · exact hone
    · dsimp only
      split
      · split
        · exact hone
        · exact oneEntry_record hone
      · exact oneEntry_record hone

end OiUserland.Pkcs11.RsaKeyCounts
