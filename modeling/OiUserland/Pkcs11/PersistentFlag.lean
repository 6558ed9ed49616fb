import OiUserland.Pkcs11.RsaKeyRuns

namespace OiUserland.Pkcs11.PersistentFlag

open Lib.RefCounts Lib.Runs Types RsaKeys RsaKeyCounts RsaKeySteps

/-- What CKA_TOKEN and CKA_CLASS say of an object. -/
structure Attributes where
  token : Bool
  isPrivate : Bool

def Matches (attrs : Handle → Attributes) (isPrivate byReference : Bool) (r : KeyResults) : Prop :=
  (r.found ≠ 0 → attrs r.foundKey = ⟨byReference, isPrivate⟩) ∧
    (r.create = ckrOk → attrs r.createdKey = ⟨false, isPrivate⟩)

/-- What PKCS#11 answers, where `attrs` are the attributes of its objects. -/
def Promised (attrs : Handle → Attributes) : Op → Prop
  | .lookupPub _ _ r _ => Matches attrs false false r
  | .lookupPriv _ rsa r _ => Matches attrs true rsa.d.isNone r
  | .loadFile _ isPrivate file r _ => ∀ rsa, file = some rsa → Matches attrs isPrivate (isPrivate && rsa.d.isNone) r
  | .loadToken _ isPrivate k r _ =>
      (∀ h, k.object = some h → h ≠ ckInvalidHandle ∧ attrs h = ⟨true, isPrivate⟩) ∧
        (isPrivate = false → Matches attrs false false r)
  | .setupSession => True
  | .destroy _ _ => True

def Refers (rsa : Rsa) (r : KeyResults) (active : ActiveList) : Prop :=
  rsa.d = none ∧ r.template = true ∧ r.findInit = ckrOk ∧ r.find = ckrOk ∧ r.found ≠ 0 ∧
    r.foundKey ≠ ckInvalidHandle ∧
    (r.findFinal = ckrOk → r.dupN = true ∧ r.dupE = true ∧ (r.malloc = true ∨ 0 < refs r.foundKey active))

def Shares (sp : Pk11Session) (active : ActiveList) : Prop :=
  sp.persistent = true → sp.rsa.pubKey ≠ ckInvalidHandle → refs sp.rsa.pubKey active ≠ 1

def Fits (destroys : Handle → Bool) (rsa : Rsa) (r : KeyResults) (sp : Pk11Session) (active : ActiveList) : Prop :=
  (¬ SameRsa sp.rsa.priv sp.rsa rsa → Shares sp active) ∧
    (sp.persistent = true ↔ Refers rsa r (after sp active (pk11CheckNewRsaKeyPriv destroys rsa sp active)).2)

/-- The walk of pk11_destroy_rsa_key_objects takes no public key from a marked session that has its last
reference. -/
def WalkShares (destroys : Handle → Bool) : List Nat → Keys → Prop
  | [], _ => True
  | i :: is, s =>
      match s.sessions[i]? with
      | none => WalkShares destroys is s
      | some sp =>
          let a := pk11DestroyRsaObjectPub destroys sp s.active
          Shares sp s.active ∧
            if a.1 = 0 then WalkShares destroys is (s.put i a.2)
            else WalkShares destroys is (s.put i (pk11DestroyRsaObjectPriv destroys a.2.sp a.2.active).2)

/-- The mark still fits the keys of the session after an operation. -/
def Keeps : Op → Keys → Prop
  | .lookupPub i rsa _ _, s => ∀ sp, s.sessions[i]? = some sp → sp.persistent = true → SameRsa sp.rsa.pub sp.rsa rsa
  | .lookupPriv i rsa r destroys, s => ∀ sp, s.sessions[i]? = some sp →
      (SameRsa sp.rsa.priv sp.rsa rsa → sp.rsa.privKey = ckInvalidHandle) → Fits destroys rsa r sp s.active
  | .loadFile i isPrivate file r destroys, s => ∀ sp, s.sessions[i]? = some sp → ∀ rsa, file = some rsa →
      if isPrivate then Fits destroys rsa r sp s.active else sp.persistent = true → SameRsa sp.rsa.pub sp.rsa rsa
  | .loadToken i isPrivate k _ _, s => ∀ sp, s.sessions[i]? = some sp →
    isPrivate = false → k.object.isSome = true → Shares sp s.active
  | .setupSession, _ => True
  | .destroy chain destroys, s => WalkShares destroys chain s

section Invariant

def Marked (attrs : Handle → Attributes) (sp : Pk11Session) : Prop :=
  sp.persistent = true ↔ sp.rsa.privKey ≠ ckInvalidHandle ∧ (attrs sp.rsa.privKey).token = true

structure Fields (attrs : Handle → Attributes) (sp : Pk11Session) : Prop where
  pub : sp.rsa.pubKey ≠ ckInvalidHandle → (attrs sp.rsa.pubKey).isPrivate = false
  priv : sp.rsa.privKey ≠ ckInvalidHandle → (attrs sp.rsa.privKey).isPrivate = true

structure Listed (attrs : Handle → Attributes) (active : ActiveList) : Prop where
  oneEntry : OneEntry active
  tokens : ∀ h, 0 < refs h active → (attrs h).token = true → (attrs h).isPrivate = true

structure Cleared (attrs : Handle → Attributes) (active active' : ActiveList) (destroyed : List Handle) : Prop where
  kept : ∀ h ∈ destroyed, (attrs h).token = false
  last : ∀ h, 0 < refs h active → refs h active' = 0 → (attrs h).token = false → h ∈ destroyed

def Clean (attrs : Handle → Attributes) (_ : Pk11Session) (active : ActiveList) (c : Called) : Prop :=
  Cleared attrs active c.active c.destroyed

structure Sane (attrs : Handle → Attributes) (sp : Pk11Session) (active : ActiveList) : Prop where
  marked : Marked attrs sp
  fields : Fields attrs sp
  listed : Listed attrs active

variable {attrs : Handle → Attributes} {active active' : ActiveList}
    {destroyed : List Handle}

theorem cleared_of_le (hrefs : ∀ h, refs h active ≤ refs h active')
    (hkept : ∀ h ∈ destroyed, (attrs h).token = false) :
    Cleared attrs active active' destroyed := by
  refine ⟨hkept, fun h hpos hzero _ => ?_⟩
  have hle := hrefs h
  omega

end Invariant

section Destroying

variable {attrs : Handle → Attributes} {sp : Pk11Session} {active active' : ActiveList} {h : Handle}
    {destroys : Handle → Bool}

theorem activeDelete_refs (hone : OneEntry active) (h : Handle) :
    (∀ h', refs h' (pk11ActiveDelete h active).2 = refs h' active - if h = h' then 1 else 0) ∧
    ((pk11ActiveDelete h active).1 = 1 ↔ refs h active = 1) := by
  rw [pk11ActiveDelete]
  cases hr : release h active with
  | none =>
      have hzero := release_none.mp hr
      dsimp only
      refine ⟨fun h' => ?_, by omega⟩
      by_cases hh : h = h'
      · rw [← hh, hzero, Nat.zero_sub]
      · rw [if_neg hh, Nat.sub_zero]
  | some p =>
      obtain ⟨last, a⟩ := p
      have hlast := release_last hone hr
      have hrefs := release_refs hone hr
      have hself := hrefs h
      rw [if_pos rfl] at hself
      refine ⟨fun h' => (Nat.sub_eq_of_eq_add (hrefs h').symm).symm, ?_⟩
      cases last with
      | true =>
          have hzero := hlast.mp rfl
          refine iff_of_true rfl ?_
          omega
      | false =>
          have hsome : refs h a ≠ 0 := fun hzero => Bool.false_ne_true (hlast.mpr hzero)
          refine iff_of_false (by decide : (0 : Int) ≠ 1) ?_
          omega

theorem tryObjDestroy_refs (destroys : Handle → Bool) (sp : Pk11Session) (hone : OneEntry active) (h : Handle) :
    (∀ h', refs h' (tryObjDestroy destroys sp h active).2.1 = refs h' active - if h = h' then 1 else 0) ∧
      (tryObjDestroy destroys sp h active).2.2 = (if refs h active = 1 ∧ sp.persistent = false then [h] else []) ∧
      (refs h active ≠ 1 → (tryObjDestroy destroys sp h active).1 = 0) := by
  obtain ⟨hrefs, hone'⟩ := activeDelete_refs hone h
  rw [tryObjDestroy]
  by_cases hlast : refs h active = 1
  · simp only [if_pos (hone'.mpr hlast)]
    cases hp : sp.persistent with
    | true => simpa using ⟨hrefs, hlast⟩
    | false => simpa [hlast] using hrefs
  · simp only [if_neg fun hall => hlast (hone'.mp hall)]
    exact ⟨hrefs, (if_neg fun hall => hlast hall.1).symm, fun _ => trivial⟩

theorem cleared_try (hone : OneEntry active)
    (hmark : refs h active = 1 → (sp.persistent = false ↔ (attrs h).token = false)) :
    Cleared attrs active (tryObjDestroy destroys sp h active).2.1 (tryObjDestroy destroys sp h active).2.2 := by
  obtain ⟨hrefs, hdestroyed, -⟩ := tryObjDestroy_refs destroys sp hone h
  refine ⟨fun h' hmem => ?_, fun h' hpos hzero htoken => ?_⟩
  · rw [hdestroyed] at hmem
    split at hmem
    · next hlast =>
        rw [List.mem_singleton.mp hmem]
        exact (hmark hlast.1).mp hlast.2
    · cases hmem
  · have hrefs' := hrefs h'
    by_cases hh : h = h'
    · subst hh
      rw [if_pos rfl] at hrefs'
      have hlast : refs h active = 1 := by omega
      rw [hdestroyed, if_pos ⟨hlast, (hmark hlast).mpr htoken⟩]
      exact List.mem_singleton_self _
    · rw [if_neg hh] at hrefs'
      omega

theorem listed_of_le (hl : Listed attrs active) (hone : OneEntry active')
    (hle : ∀ h, refs h active' ≤ refs h active) : Listed attrs active' :=
  ⟨hone, fun h hpos => hl.tokens h (Nat.lt_of_lt_of_le hpos (hle h))⟩

theorem listed_try (hl : Listed attrs active) (h : Handle) :
    Listed attrs (tryObjDestroy destroys sp h active).2.1 := by
  refine listed_of_le hl (oneEntry_try hl.oneEntry) fun h' => ?_
  rw [(tryObjDestroy_refs destroys sp hl.oneEntry h).1]
  exact Nat.sub_le _ _

theorem destroyPub_sp : (pk11DestroyRsaObjectPub destroys sp active).2.sp.persistent = sp.persistent ∧
    (pk11DestroyRsaObjectPub destroys sp active).2.sp.rsa.pubKey = ckInvalidHandle ∧
    (pk11DestroyRsaObjectPub destroys sp active).2.sp.rsa.privKey = sp.rsa.privKey := by
  refine ⟨?_, destroyPub_pubKey, destroyPub_privKey⟩
  rw [pk11DestroyRsaObjectPub]
  split <;> rfl

theorem destroyPriv_sp : (pk11DestroyRsaObjectPriv destroys sp active).2.sp.persistent = sp.persistent ∧
    (pk11DestroyRsaObjectPriv destroys sp active).2.sp.rsa.privKey = ckInvalidHandle ∧
    (pk11DestroyRsaObjectPriv destroys sp active).2.sp.rsa.pubKey = sp.rsa.pubKey := by
  refine ⟨?_, destroyPriv_privKey, destroyPriv_pubKey⟩
  rw [pk11DestroyRsaObjectPriv]
  split <;> rfl

theorem clean_destroyPub (hf : Fields attrs sp) (hl : Listed attrs active) (hshares : Shares sp active) :
    Clean attrs sp active (pk11DestroyRsaObjectPub destroys sp active).2 ∧
    Listed attrs (pk11DestroyRsaObjectPub destroys sp active).2.active := by
  rw [pk11DestroyRsaObjectPub]
  by_cases hk : sp.rsa.pubKey = ckInvalidHandle
  · rw [if_neg (not_not.mpr hk)]
    exact ⟨cleared_of_le (fun _ => Nat.le_refl _) (fun _ h => by cases h), hl⟩
  · rw [if_pos hk]
    refine ⟨cleared_try hl.oneEntry fun hlast => iff_of_true ?_ ?_, listed_try hl _⟩
    · exact Bool.eq_false_iff.mpr fun hp => hshares hp hk hlast
    · refine Bool.eq_false_iff.mpr fun htoken => ?_
      have hpriv := hl.tokens sp.rsa.pubKey (by omega) htoken
      rw [hf.pub hk] at hpriv
      exact Bool.false_ne_true hpriv

theorem clean_destroyPriv (hm : Marked attrs sp) (hl : Listed attrs active) :
    Clean attrs sp active (pk11DestroyRsaObjectPriv destroys sp active).2 ∧
    Listed attrs (pk11DestroyRsaObjectPriv destroys sp active).2.active := by
  rw [pk11DestroyRsaObjectPriv]
  by_cases hk : sp.rsa.privKey = ckInvalidHandle
  · rw [if_neg (not_not.mpr hk)]
    exact ⟨cleared_of_le (fun _ => Nat.le_refl _) (fun _ h => by cases h), hl⟩
  · rw [if_pos hk]
    refine ⟨cleared_try hl.oneEntry fun _ => ?_, listed_try hl _⟩
    rw [Bool.eq_false_iff, Bool.eq_false_iff]
    exact not_congr (hm.trans (and_iff_right hk))

end Destroying

section Getting

variable {attrs : Handle → Attributes} {sp sp' : Pk11Session} {active : ActiveList} {h : Handle}
     {rsa : Rsa}
  {r : KeyResults} {a : Attributes} {isPrivate byReference creates more : Bool} {g : Handle × Called}

structure Obtains (attrs : Handle → Attributes) (a : Attributes) (sp : Pk11Session)
    (active : ActiveList) (g : Handle × Called) : Prop where
  handle : g.1 ≠ ckInvalidHandle → attrs g.1 = a
  oneEntry : OneEntry active → OneEntry g.2.active
  le : ∀ h, refs h active ≤ refs h g.2.active
  added : ∀ h, 0 < refs h g.2.active → 0 < refs h active ∨ attrs h = a
  destroyed : ∀ h ∈ g.2.destroyed, (attrs h).token = false
  persistent : g.2.sp.persistent = sp.persistent
  pubKey : g.2.sp.rsa.pubKey = sp.rsa.pubKey
  privKey : g.2.sp.rsa.privKey = sp.rsa.privKey

theorem findKey_cases (hf : findKey creates r = (h, more)) : (h = ckInvalidHandle ∧ more = false) ∨
    (r.found ≠ 0 ∧ h = r.foundKey) ∨
    (r.found = 0 ∧ creates = true ∧ r.create = ckrOk ∧ h = r.createdKey) := by
  rw [findKey] at hf
  split at hf
  · exact .inl ⟨(congrArg Prod.fst hf).symm, (congrArg Prod.snd hf).symm⟩
  · split at hf
    · exact .inl ⟨(congrArg Prod.fst hf).symm, (congrArg Prod.snd hf).symm⟩
    · dsimp only at hf
      by_cases h0 : r.found = 0
      · rw [if_pos h0, if_neg (not_not.mpr h0)] at hf
        split at hf
        · exact .inl ⟨(congrArg Prod.fst hf).symm, (congrArg Prod.snd hf).symm⟩
        · cases creates with
          | false =>
              rw [Bool.not_false, if_pos rfl] at hf
              exact .inl ⟨(congrArg Prod.fst hf).symm, (congrArg Prod.snd hf).symm⟩
          | true =>
              rw [Bool.not_true, if_neg Bool.false_ne_true] at hf
              split at hf
              · exact .inl ⟨(congrArg Prod.fst hf).symm, (congrArg Prod.snd hf).symm⟩
              · next hc => exact .inr (.inr ⟨h0, rfl, not_not.mp hc, (congrArg Prod.fst hf).symm⟩)
      · rw [if_neg h0, if_pos h0] at hf
        refine .inr (.inl ⟨h0, ?_⟩)
        split at hf
        · exact (congrArg Prod.fst hf).symm
        · exact (congrArg Prod.fst hf).symm

theorem Matches.handle (hm : Matches attrs isPrivate byReference r) (hf : findKey creates r = (h, more))
    (hc : creates = true → byReference = false)
    (hh : h ≠ ckInvalidHandle ∨ more = true) : attrs h = ⟨byReference, isPrivate⟩ := by
  rcases findKey_cases hf with ⟨rfl, rfl⟩ | ⟨h0, rfl⟩ | ⟨-, hcreates, hcreate, rfl⟩
  · exact hh.elim (absurd rfl) (fun h => absurd h Bool.false_ne_true)
  · exact hm.1 h0
  · rw [hm.2 hcreate, hc hcreates]

theorem Matches.created (hm : Matches attrs isPrivate byReference r)
    (hf : findKey creates r = (h, true)) (h0 : r.found = 0) : (attrs h).token = false := by
  rcases findKey_cases hf with ⟨-, hno⟩ | ⟨hno, -⟩ | ⟨-, -, hcreate, rfl⟩
  · cases hno
  · exact absurd h0 hno
  · rw [hm.2 hcreate]

theorem obtains_nothing {destroyed : List Handle} (hh : h ≠ ckInvalidHandle → attrs h = a)
    (hd : ∀ h ∈ destroyed, (attrs h).token = false)
    (hp : sp'.persistent = sp.persistent) (hpub : sp'.rsa.pubKey = sp.rsa.pubKey)
    (hpriv : sp'.rsa.privKey = sp.rsa.privKey) :
    Obtains attrs a sp active (h, ⟨sp', active, destroyed⟩) :=
  ⟨hh, id, fun _ => Nat.le_refl _, fun _ => .inl, hd, hp, hpub, hpriv⟩

theorem obtains_rollback (hd : r.found = 0 → (attrs h).token = false) (hp : sp'.persistent = sp.persistent)
    (hpub : sp'.rsa.pubKey = sp.rsa.pubKey) (hpriv : sp'.rsa.privKey = sp.rsa.privKey) :
    Obtains attrs a sp active (rollback r h sp' active) := by
  refine obtains_nothing (absurd rfl) (fun h' hmem => ?_) hp hpub hpriv
  split at hmem
  · next h0 =>
      rw [List.mem_singleton.mp hmem]
      exact hd h0
  · cases hmem

theorem obtains_record {keep : RsaData → RsaData} (ha : attrs h = a) (hd : r.found = 0 → (attrs h).token = false)
    (hkeep : ∀ d, (keep d).pubKey = d.pubKey ∧ (keep d).privKey = d.privKey) (hp : sp'.persistent = sp.persistent)
    (hpub : sp'.rsa.pubKey = sp.rsa.pubKey) (hpriv : sp'.rsa.privKey = sp.rsa.privKey) :
    Obtains attrs a sp active (recordKey rsa r h keep sp' active) := by
  rw [recordKey]
  split
  · exact obtains_rollback hd hp hpub hpriv
  · split
    · exact obtains_rollback hd hp hpub hpriv
    · dsimp only
      cases hadd : pk11ActiveAdd h r.malloc active with
      | none => exact obtains_rollback hd hp hpub hpriv
      | some added =>
          have hrefs := activeAdd_refs hadd
          obtain ⟨hkpub, hkpriv⟩ := hkeep (withNumbers sp' (some rsa.n) (some rsa.e)).rsa
          refine ⟨fun _ => ha, fun hone => oneEntry_add hone hadd, fun h' => ?_, fun h' hpos => ?_,
            (fun _ h => by cases h), hp, hkpub.trans hpub, hkpriv.trans hpriv⟩
          · exact Nat.le.intro (hrefs h').symm
          · by_cases hh : h = h'
            · exact .inr (hh ▸ ha)
            · have hsame := hrefs h'
              rw [if_neg hh, Nat.add_zero] at hsame
              exact .inl (hsame ▸ hpos)

theorem obtains_pub (hm : Matches attrs false false r) :
    Obtains attrs ⟨false, false⟩ sp active (pk11GetPublicRsaKey rsa r sp active) := by
  rw [pk11GetPublicRsaKey]
  by_cases ht : r.template = true
  · rw [ht, Bool.not_true, if_neg Bool.false_ne_true]
    cases hf : findKey true r with
    | mk h more =>
        cases more with
        | false => exact obtains_nothing (fun hh => hm.handle hf (fun _ => rfl) (.inl hh)) (fun _ h => by cases h) rfl rfl rfl
        | true =>
          exact obtains_record (hm.handle hf (fun _ => rfl) (.inr rfl)) (hm.created hf)
            (fun _ => ⟨rfl, rfl⟩) rfl rfl rfl
  · rw [if_pos (by simpa using ht)]
    exact obtains_nothing (absurd rfl) (fun _ h => by cases h) rfl rfl rfl

theorem obtains_priv (hm : Matches attrs true rsa.d.isNone r) :
    Obtains attrs ⟨rsa.d.isNone, true⟩ sp active (pk11GetPrivateRsaKey rsa r sp active) := by
  have hcreates : rsa.d.isSome = true → rsa.d.isNone = false := by cases rsa.d <;> simp
  rw [pk11GetPrivateRsaKey]
  by_cases ht : r.template = true
  · rw [ht, Bool.not_true, if_neg Bool.false_ne_true]
    cases hf : findKey rsa.d.isSome r with
    | mk h more =>
        cases more with
        | false => exact obtains_nothing (fun hh => hm.handle hf hcreates (.inl hh)) (fun _ h => by cases h) rfl rfl rfl
        | true =>
            have ha := hm.handle hf hcreates (.inr rfl)
            have hd := hm.created hf
            dsimp only
            split
            · split
              · exact obtains_rollback hd rfl rfl rfl
              · exact obtains_record ha hd (fun _ => ⟨rfl, rfl⟩) rfl rfl rfl
            · exact obtains_record ha hd (fun _ => ⟨rfl, rfl⟩) rfl rfl rfl
  · rw [if_pos (by simpa using ht)]
    exact obtains_nothing (absurd rfl) (fun _ h => by cases h) rfl rfl rfl

theorem recordKey_invalid (keep : RsaData → RsaData) :
    (recordKey rsa r ckInvalidHandle keep sp active).1 = ckInvalidHandle := by
  rw [recordKey]
  split
  · rfl
  · split
    · rfl
    · rfl

theorem recordKey_ne (keep : RsaData → RsaData) (hh : h ≠ ckInvalidHandle) :
    (recordKey rsa r h keep sp active).1 ≠ ckInvalidHandle ↔
    r.dupN = true ∧ r.dupE = true ∧ (r.malloc = true ∨ 0 < refs h active) := by
  rw [recordKey]
  cases r.dupN with
  | false => exact iff_of_false (absurd rfl) fun hall => Bool.false_ne_true hall.1
  | true =>
      cases r.dupE with
      | false => exact iff_of_false (absurd rfl) fun hall => Bool.false_ne_true hall.2.1
      | true =>
          simp only [Bool.not_true, Bool.false_eq_true, if_false, true_and]
          rw [pk11ActiveAdd, if_neg hh]
          cases hhold : hold h active with
          | some added =>
              refine iff_of_true hh (.inr (Nat.pos_of_ne_zero fun hzero => ?_))
              rw [hold_none.mpr hzero] at hhold
              cases hhold
          | none =>
              rw [hold_none.mp hhold]
              cases r.malloc with
              | true => exact iff_of_true hh (.inl rfl)
              | false => exact iff_of_false (absurd rfl) (by decide)

theorem findKey_token (r : KeyResults) : findKey false r =
    if r.findInit = ckrOk ∧ r.find = ckrOk ∧ r.found ≠ 0 then (r.foundKey, decide (r.findFinal = ckrOk))
    else (ckInvalidHandle, false) := by
  rw [findKey]
  by_cases hinit : r.findInit = ckrOk
  · by_cases hfind : r.find = ckrOk
    · by_cases hfound : r.found = 0
      · simp [hinit, hfind, hfound]
      · by_cases hfinal : r.findFinal = ckrOk
        · simp [hinit, hfind, hfound, hfinal]
        · simp [hinit, hfind, hfound, hfinal]
    · simp [hinit, hfind]
  · simp [hinit]

theorem getPriv_ne : (rsa.d = none ∧ (pk11GetPrivateRsaKey rsa r sp active).1 ≠ ckInvalidHandle) ↔
    Refers rsa r active := by
  rw [Refers]
  refine and_congr_right fun hd => ?_
  rw [pk11GetPrivateRsaKey, hd, Option.isSome_none, findKey_token]
  cases r.template with
  | false => exact iff_of_false (absurd rfl) fun hall => Bool.false_ne_true hall.1
  | true =>
      rw [Bool.not_true, if_neg Bool.false_ne_true, and_iff_right rfl]
      by_cases hfound : r.findInit = ckrOk ∧ r.find = ckrOk ∧ r.found ≠ 0
      · rw [if_pos hfound, and_iff_right hfound.1, and_iff_right hfound.2.1, and_iff_right hfound.2.2]
        by_cases hfinal : r.findFinal = ckrOk
        · rw [decide_eq_true hfinal]
          by_cases hh : r.foundKey = ckInvalidHandle
          · rw [hh]
            exact iff_of_false (absurd (recordKey_invalid _)) fun hall => hall.1 rfl
          · exact (recordKey_ne _ hh).trans (by rw [and_iff_right hh, imp_iff_right hfinal])
        · rw [decide_eq_false hfinal]
          exact (and_iff_left fun hall => absurd hall hfinal).symm
      · rw [if_neg hfound]
        exact iff_of_false (absurd rfl) fun hall => hfound ⟨hall.1, hall.2.1, hall.2.2.1⟩

end Getting

section Sessions

variable {attrs : Handle → Attributes} {sp sp' : Pk11Session} {active : ActiveList} {c : Called}
    {t : List Called}
  {destroys : Handle → Bool} {rsa : Rsa} {r : KeyResults} {k : TokenResults} {g : Handle × Called}

def Leaves (attrs : Handle → Attributes) (sp : Pk11Session) (active : ActiveList) (t : List Called) : Prop :=
  Each (Clean attrs) sp active t ∧ Sane attrs (after sp active t).1 (after sp active t).2

theorem after_append (sp : Pk11Session) (active : ActiveList) (t : List Called) (c : Called) :
    after sp active (t ++ [c]) = (c.sp, c.active) := by
  induction t generalizing sp active with
  | nil => rfl
  | cons d t ih => exact ih d.sp d.active

theorem leaves_nothing (hs : Sane attrs sp active) : Leaves attrs sp active [] := ⟨trivial, hs⟩

theorem Fields.emptyPub (hf : Fields attrs sp) (hpub : sp'.rsa.pubKey = ckInvalidHandle)
    (hpriv : sp'.rsa.privKey = sp.rsa.privKey) : Fields attrs sp' := by
  refine ⟨fun hk => absurd hpub hk, fun hk => ?_⟩
  rw [hpriv] at hk ⊢
  exact hf.priv hk

theorem Fields.emptyPriv (hf : Fields attrs sp) (hpriv : sp'.rsa.privKey = ckInvalidHandle)
    (hpub : sp'.rsa.pubKey = sp.rsa.pubKey) : Fields attrs sp' := by
  refine ⟨fun hk => ?_, fun hk => absurd hpriv hk⟩
  rw [hpub] at hk ⊢
  exact hf.pub hk

theorem Marked.same (hm : Marked attrs sp) (hp : sp'.persistent = sp.persistent)
    (hpriv : sp'.rsa.privKey = sp.rsa.privKey) : Marked attrs sp' := by
  rw [Marked, hp, hpriv]
  exact hm

theorem Sane.destroyPub (hs : Sane attrs sp active) (hshares : Shares sp active) :
    Clean attrs sp active (pk11DestroyRsaObjectPub destroys sp active).2 ∧
    Sane attrs (pk11DestroyRsaObjectPub destroys sp active).2.sp
    (pk11DestroyRsaObjectPub destroys sp active).2.active := by
  obtain ⟨hclean, hlisted⟩ := @clean_destroyPub attrs sp active destroys hs.fields hs.listed hshares
  obtain ⟨hp, hpub, hpriv⟩ := @destroyPub_sp sp active destroys
  exact ⟨hclean, hs.marked.same hp hpriv, hs.fields.emptyPub hpub hpriv, hlisted⟩

theorem Sane.destroyPriv (hs : Sane attrs sp active) (hnot : sp.persistent = false) :
    Clean attrs sp active (pk11DestroyRsaObjectPriv destroys sp active).2 ∧
    Sane attrs (pk11DestroyRsaObjectPriv destroys sp active).2.sp
    (pk11DestroyRsaObjectPriv destroys sp active).2.active := by
  obtain ⟨hclean, hlisted⟩ := @clean_destroyPriv attrs sp active destroys hs.marked hs.listed
  obtain ⟨hp, hpriv, hpub⟩ := @destroyPriv_sp sp active destroys
  refine ⟨hclean, ?_, hs.fields.emptyPriv hpriv hpub, hlisted⟩
  rw [Marked, hp, hnot, hpriv]
  exact iff_of_false Bool.false_ne_true fun hall => hall.1 rfl

theorem shares_of_not (hnot : sp.persistent = false) : Shares sp active :=
  fun hp => absurd (hnot.symm.trans hp) Bool.false_ne_true

theorem Sane.checkPub (hs : Sane attrs sp active) (hsame : sp.persistent = true → SameRsa sp.rsa.pub sp.rsa rsa) :
    Leaves attrs sp active (pk11CheckNewRsaKeyPub destroys rsa sp active) := by
  rw [pk11CheckNewRsaKeyPub]
  split
  · exact leaves_nothing hs
  · next hno =>
      have hnot : sp.persistent = false := Bool.eq_false_iff.mpr fun hp => hno (hsame hp)
      obtain ⟨hclean, hs'⟩ := @Sane.destroyPub attrs sp active destroys hs (shares_of_not hnot)
      obtain ⟨hclean', hs''⟩ := @Sane.destroyPriv attrs _ _ destroys hs' (destroyPub_sp.1.trans hnot)
      exact ⟨⟨hclean, hclean', trivial⟩, hs''⟩

theorem Obtains.clean {a : Attributes} (hg : Obtains attrs a sp active g) :
    Cleared attrs active g.2.active g.2.destroyed :=
  cleared_of_le hg.le hg.destroyed

theorem Obtains.listed {a : Attributes} (hg : Obtains attrs a sp active g) (hl : Listed attrs active)
    (ha : a.token = true → a.isPrivate = true) :
    Listed attrs g.2.active := by
  refine ⟨hg.oneEntry hl.oneEntry, fun h hpos htoken => ?_⟩
  rcases hg.added h hpos with hold | hnew
  · exact hl.tokens h hold htoken
  · rw [hnew] at htoken ⊢
    exact ha htoken

theorem Obtains.storePub (hg : Obtains attrs ⟨false, false⟩ sp' active g) (hs : Sane attrs sp active)
    (hp : sp'.persistent = sp.persistent)
    (hpriv : sp'.rsa.privKey = sp.rsa.privKey) : Clean attrs sp active (storePub g) ∧
    Sane attrs (storePub g).sp (storePub g).active := by
  refine ⟨hg.clean, hs.marked.same (hg.persistent.trans hp) (hg.privKey.trans hpriv),
    ⟨fun hk => ?_, fun hk => ?_⟩, hg.listed hs.listed nofun⟩
  · exact congrArg Attributes.isPrivate (hg.handle hk)
  · have hpriv' : (RsaKeys.storePub g).sp.rsa.privKey = sp.rsa.privKey := hg.privKey.trans hpriv
    rw [hpriv'] at hk ⊢
    exact hs.fields.priv hk

theorem Leaves.append (ht : Leaves attrs sp active t)
    (hc : Clean attrs (after sp active t).1 (after sp active t).2 c ∧ Sane attrs c.sp c.active) :
    Leaves attrs sp active (t ++ [c]) := by
  refine ⟨ht.1.append hc.1, ?_⟩
  rw [after_append]
  exact hc.2

theorem Sane.lookupPub (hs : Sane attrs sp active) (hm : Matches attrs false false r)
    (hsame : sp.persistent = true → SameRsa sp.rsa.pub sp.rsa rsa) :
    Leaves attrs sp active (lookupPub destroys rsa r sp active) := by
  have hcheck := @Sane.checkPub attrs sp active destroys rsa hs hsame
  rw [RsaKeys.lookupPub]
  split
  · exact hcheck.append ((obtains_pub hm).storePub hcheck.2 rfl rfl)
  · exact hcheck

theorem destroyPriv_refs (hone : OneEntry active) {h : Handle}
    (hne : sp.rsa.privKey ≠ ckInvalidHandle → sp.rsa.privKey ≠ h) :
    refs h (pk11DestroyRsaObjectPriv destroys sp active).2.active = refs h active := by
  rw [pk11DestroyRsaObjectPriv]
  by_cases hk : sp.rsa.privKey = ckInvalidHandle
  · rw [if_neg (not_not.mpr hk)]
  · rw [if_pos hk]
    refine ((tryObjDestroy_refs destroys sp hone sp.rsa.privKey).1 h).trans ?_
    rw [if_neg (hne hk), Nat.sub_zero]

theorem Sane.checkPriv (hs : Sane attrs sp active) (hshares : ¬ SameRsa sp.rsa.priv sp.rsa rsa → Shares sp active) :
    let d := after sp active (pk11CheckNewRsaKeyPriv destroys rsa sp active)
    Each (Clean attrs) sp active (pk11CheckNewRsaKeyPriv destroys rsa sp active) ∧
    d.1.persistent = sp.persistent ∧ Fields attrs d.1 ∧ Listed attrs d.2 := by
  rw [pk11CheckNewRsaKeyPriv]
  split
  · exact ⟨trivial, rfl, hs.fields, hs.listed⟩
  · next hno =>
      obtain ⟨hclean, hlisted⟩ := @clean_destroyPriv attrs sp active destroys hs.marked hs.listed
      obtain ⟨hp, hpriv, hpub⟩ := @destroyPriv_sp sp active destroys
      have hfields := hs.fields.emptyPriv hpriv hpub
      have hshares' : Shares (pk11DestroyRsaObjectPriv destroys sp active).2.sp
        (pk11DestroyRsaObjectPriv destroys sp active).2.active := by
        intro hp' hk
        rw [hp] at hp'
        rw [hpub] at hk ⊢
        rw [destroyPriv_refs hs.listed.oneEntry fun hk' heq => ?_]
        · exact hshares hno hp' hk
        · have hclass := hs.fields.priv hk'
          rw [heq, hs.fields.pub hk] at hclass
          exact Bool.false_ne_true hclass
      obtain ⟨hclean', hlisted'⟩ := @clean_destroyPub attrs _ _ destroys hfields hlisted hshares'
      obtain ⟨hp', hpub', hpriv'⟩ := @destroyPub_sp (pk11DestroyRsaObjectPriv destroys sp active).2.sp
        (pk11DestroyRsaObjectPriv destroys sp active).2.active destroys
      exact ⟨⟨hclean, hclean', trivial⟩, hp'.trans hp, hfields.emptyPub hpub' hpriv', hlisted'⟩

theorem Obtains.storePriv (hg : Obtains attrs ⟨rsa.d.isNone, true⟩ sp active g) (hf : Fields attrs sp)
    (hl : Listed attrs active)
    (hmark : sp.persistent = true ↔ rsa.d = none ∧ g.1 ≠ ckInvalidHandle) :
    Clean attrs sp active (storePriv g) ∧ Sane attrs (storePriv g).sp (storePriv g).active := by
  refine ⟨hg.clean, ?_, ⟨fun hk => ?_, fun hk => ?_⟩, hg.listed hl fun _ => rfl⟩
  · rw [Marked]
    refine (iff_of_eq (congrArg (· = true) hg.persistent)).trans
      (hmark.trans (and_comm.trans (and_congr_right fun hk => ?_)))
    rw [← Option.isNone_iff_eq_none]
    exact iff_of_eq (congrArg (Attributes.token · = true) (hg.handle hk)).symm
  · have hpub : (RsaKeys.storePriv g).sp.rsa.pubKey = sp.rsa.pubKey := hg.pubKey
    rw [hpub] at hk ⊢
    exact hf.pub hk
  · exact congrArg Attributes.isPrivate (hg.handle hk)

theorem Sane.checkGetPriv (hs : Sane attrs sp active) (hm : Matches attrs true rsa.d.isNone r)
    (hfits : Fits destroys rsa r sp active) :
    let d := after sp active (pk11CheckNewRsaKeyPriv destroys rsa sp active)
    Leaves attrs sp active (pk11CheckNewRsaKeyPriv destroys rsa sp active ++
      [storePriv (pk11GetPrivateRsaKey rsa r d.1 d.2)]) := by
  obtain ⟨hclean, hp, hfields, hlisted⟩ := @Sane.checkPriv attrs sp active destroys rsa hs hfits.1
  have hstored := (obtains_priv hm).storePriv hfields hlisted (by rw [hp, hfits.2]; exact getPriv_ne.symm)
  refine ⟨hclean.append hstored.1, ?_⟩
  rw [after_append]
  exact hstored.2

theorem Sane.lookupPriv (hs : Sane attrs sp active) (hm : Matches attrs true rsa.d.isNone r)
    (hfits : (SameRsa sp.rsa.priv sp.rsa rsa → sp.rsa.privKey = ckInvalidHandle) → Fits destroys rsa r sp active) :
    Leaves attrs sp active (lookupPriv destroys rsa r sp active) := by
  rw [RsaKeys.lookupPriv]
  by_cases hmiss : SameRsa sp.rsa.priv sp.rsa rsa → sp.rsa.privKey = ckInvalidHandle
  · rw [if_pos (checkPriv_privKey hmiss)]
    exact hs.checkGetPriv hm (hfits hmiss)
  · obtain ⟨hsame, hk⟩ := Classical.not_imp.mp hmiss
    rw [pk11CheckNewRsaKeyPriv, if_pos hsame]
    exact (if_neg hk).symm ▸ leaves_nothing hs

theorem Sane.loadFile {isPrivate : Bool} {file : Option Rsa} (hs : Sane attrs sp active)
    (hm : ∀ rsa, file = some rsa → Matches attrs isPrivate (isPrivate && rsa.d.isNone) r)
    (hfits : ∀ rsa, file = some rsa →
      if isPrivate then Fits destroys rsa r sp active else sp.persistent = true → SameRsa sp.rsa.pub sp.rsa rsa) :
    Leaves attrs sp active (commonGetKeyFromFile isPrivate destroys file r sp active) := by
  cases file with
  | none => exact leaves_nothing hs
  | some rsa =>
      have hm := hm rsa rfl
      have hfits := hfits rsa rfl
      cases isPrivate with
      | true => exact hs.checkGetPriv hm hfits
      | false =>
          have hcheck := @Sane.checkPub attrs sp active destroys rsa hs hfits
          exact hcheck.append ((obtains_pub hm).storePub hcheck.2 rfl rfl)

theorem sane_token {ksKey : Handle} (hf : Fields attrs sp) (hl : Listed attrs active)
    (hk : ksKey ≠ ckInvalidHandle) (ha : attrs ksKey = ⟨true, true⟩)
    (hp : sp'.persistent = true) (hpriv : sp'.rsa.privKey = ksKey)
    (hpub : sp'.rsa.pubKey = sp.rsa.pubKey) : Sane attrs sp' active := by
  refine ⟨?_, ⟨fun hk' => ?_, fun _ => ?_⟩, hl⟩
  · rw [Marked, hp, hpriv, ha]
    exact iff_of_true rfl ⟨hk, rfl⟩
  · rw [hpub] at hk' ⊢
    exact hf.pub hk'
  · rw [hpriv, ha]

theorem Sane.tokenPriv (hs : Sane attrs sp active)
    (hk : ∀ h, k.object = some h → h ≠ ckInvalidHandle ∧ attrs h = ⟨true, true⟩) :
    Leaves attrs sp active (loadTokenPriv destroys k sp active) := by
  rw [loadTokenPriv]
  cases hobj : k.object with
  | none => exact leaves_nothing hs
  | some ksKey =>
      obtain ⟨hne, ha⟩ := hk ksKey hobj
      obtain ⟨hclean, hlisted⟩ := @clean_destroyPriv attrs sp active destroys hs.marked hs.listed
      obtain ⟨-, hpriv, hpub⟩ := @destroyPriv_sp sp active destroys
      have hfields := hs.fields.emptyPriv hpriv hpub
      have hsame : Cleared attrs (pk11DestroyRsaObjectPriv destroys sp active).2.active
        (pk11DestroyRsaObjectPriv destroys sp active).2.active [] :=
        cleared_of_le (fun _ => Nat.le_refl _) fun _ h => by cases h
      dsimp only
      split
      · exact ⟨⟨hclean, hsame, trivial⟩, sane_token hfields hlisted hne ha rfl rfl rfl⟩
      · split
        · exact ⟨⟨hclean, hsame, trivial⟩, sane_token hfields hlisted hne ha rfl rfl rfl⟩
        · split
          · exact ⟨⟨hclean, hsame, trivial⟩, sane_token hfields hlisted hne ha rfl rfl rfl⟩
          · cases hadd : pk11ActiveAdd ksKey k.malloc (pk11DestroyRsaObjectPriv destroys sp active).2.active with
            | none => exact ⟨⟨hclean, hsame, trivial⟩, sane_token hfields hlisted hne ha rfl rfl rfl⟩
            | some active' =>
                have hrefs := activeAdd_refs hadd
                have hlisted' : Listed attrs active' := by
                  refine ⟨oneEntry_add hlisted.oneEntry hadd, fun h hpos htoken => ?_⟩
                  by_cases hh : ksKey = h
                  · rw [← hh, ha]
                  · have hold := hrefs h
                    rw [if_neg hh, Nat.add_zero] at hold
                    exact hlisted.tokens h (hold ▸ hpos) htoken
                exact ⟨⟨hclean, cleared_of_le (fun h => Nat.le.intro (hrefs h).symm) (fun _ h => by cases h), trivial⟩,
                  sane_token hfields hlisted' hne ha rfl rfl rfl⟩

theorem sane_dropRsa (hs : Sane attrs c.sp active) : Sane attrs (dropRsa c).sp active :=
  ⟨hs.marked, ⟨hs.fields.pub, hs.fields.priv⟩, hs.listed⟩

theorem Sane.tokenPub (hs : Sane attrs sp active)
    (hk : ∀ h, k.object = some h → h ≠ ckInvalidHandle ∧ attrs h = ⟨true, false⟩)
    (hm : Matches attrs false false r) (hshares : k.object.isSome = true → Shares sp active) :
    Leaves attrs sp active (loadTokenPub destroys k r sp active) := by
  rw [loadTokenPub]
  cases hobj : k.object with
  | none => exact leaves_nothing hs
  | some ksKey =>
      obtain ⟨-, ha⟩ := hk ksKey hobj
      rw [hobj] at hshares
      obtain ⟨hclean, hs'⟩ := @Sane.destroyPub attrs sp active destroys hs (hshares rfl)
      have hclass : (attrs ksKey).isPrivate = false := by rw [ha]
      have hsame : Cleared attrs (pk11DestroyRsaObjectPub destroys sp active).2.active
        (pk11DestroyRsaObjectPub destroys sp active).2.active [] :=
        cleared_of_le (fun _ => Nat.le_refl _) fun _ h => by cases h
      -- the key of the token is in the session, but is not counted
      have hset (addr : Option Nat) : Sane attrs { (pk11DestroyRsaObjectPub destroys sp active).2.sp with
          rsa := { (pk11DestroyRsaObjectPub destroys sp active).2.sp.rsa with pubKey := ksKey, pub := addr } }
          (pk11DestroyRsaObjectPub destroys sp active).2.active :=
        ⟨hs'.marked.same rfl rfl, ⟨fun _ => hclass, hs'.fields.priv⟩, hs'.listed⟩
      dsimp only
      cases k.rsaNew with
      | none => exact ⟨⟨hclean, hsame, trivial⟩, hset none⟩
      | some addr =>
          dsimp only
          split
          · exact ⟨⟨hclean, hsame, trivial⟩, sane_dropRsa (c := ⟨_, _, []⟩) (hset (some addr))⟩
          · split
            · exact ⟨⟨hclean, hsame, trivial⟩, sane_dropRsa (c := ⟨_, _, []⟩) (hset (some addr))⟩
            · obtain ⟨hgot, hs''⟩ := Obtains.storePub
                (g := pk11GetPublicRsaKey ⟨addr, k.n, k.e, none⟩ r _ _) (obtains_pub hm) (hset (some addr)) rfl rfl
              split
              · exact ⟨⟨hclean, hgot, trivial⟩, sane_dropRsa hs''⟩
              · exact ⟨⟨hclean, hgot, trivial⟩, hs''⟩

end Sessions

section Runs

variable {attrs : Handle → Attributes} {s : Keys} {sp : Pk11Session} {active : ActiveList} {i : Nat}
    {t : List Called} {o : Op}
  {calls' : List (Keys × List Handle)} {destroys : Handle → Bool}

/-- What each call of an operation destroys. -/
def Tidy (attrs : Handle → Attributes) : ActiveList → List (Keys × List Handle) → Prop
  | _, [] => True
  | active, c :: t => Cleared attrs active c.1.active c.2 ∧ Tidy attrs c.1.active t

structure Good (attrs : Handle → Attributes) (s : Keys) : Prop where
  sessions : ∀ sp ∈ s.sessions, Marked attrs sp ∧ Fields attrs sp
  listed : Listed attrs s.active

def final (s : Keys) (t : List (Keys × List Handle)) : Keys := (t.getLast?.map Prod.fst).getD s

theorem final_cons (s : Keys) (c : Keys × List Handle) (t : List (Keys × List Handle)) :
    final s (c :: t) = final c.1 t := by
  cases t with
  | nil => rfl
  | cons d t =>
      rw [final, final, List.getLast?_cons_cons]
      cases hlast : (d :: t).getLast? with
      | none => exact absurd (List.getLast?_eq_none_iff.mp hlast) (List.cons_ne_nil _ _)
      | some e => rfl

theorem Good.sane (hs : Good attrs s) (hsp : s.sessions[i]? = some sp) : Sane attrs sp s.active := by
  obtain ⟨hm, hf⟩ := hs.sessions sp (List.mem_of_getElem? hsp)
  exact ⟨hm, hf, hs.listed⟩

theorem Good.put (hs : ∀ sp ∈ s.sessions, Marked attrs sp ∧ Fields attrs sp) (i : Nat) {c : Called}
    (hc : Sane attrs c.sp c.active) :
    Good attrs (s.put i c) := by
  refine ⟨fun sp hsp => ?_, hc.listed⟩
  rcases List.mem_or_eq_of_mem_set hsp with hold | rfl
  · exact hs sp hold
  · exact ⟨hc.marked, hc.fields⟩

theorem tidy_calls (s : Keys) (i : Nat) (ht : Each (Clean attrs) sp active t) :
    Tidy attrs active (t.map fun c => (s.put i c, c.destroyed)) := by
  induction t generalizing sp active with
  | nil => trivial
  | cons c t ih => exact ⟨ht.1, ih ht.2⟩

theorem final_calls (s₀ s : Keys) (i : Nat) (c : Called) (t : List Called) :
    final s₀ ((c :: t).map fun c => (s.put i c, c.destroyed)) =
    s.put i ⟨(after c.sp c.active t).1, (after c.sp c.active t).2, []⟩ := by
  induction t generalizing s₀ c with
  | nil => rfl
  | cons d t ih =>
      rw [List.map_cons, final_cons]
      exact ih (s.put i c) d

theorem Good.onSession {f : Pk11Session → ActiveList → List Called} (hs : Good attrs s)
    (hcalls : s.onSession i f = some calls')
    (hf : ∀ sp, s.sessions[i]? = some sp → Sane attrs sp s.active → Leaves attrs sp s.active (f sp s.active)) :
    Tidy attrs s.active calls' ∧ Good attrs (final s calls') := by
  obtain ⟨sp, hsp, rfl⟩ := Option.map_eq_some_iff.mp hcalls
  obtain ⟨hclean, hsane⟩ := hf sp hsp (hs.sane hsp)
  refine ⟨tidy_calls s i hclean, ?_⟩
  cases ht : f sp s.active with
  | nil => exact hs
  | cons c t =>
      rw [final_calls]
      rw [ht] at hsane
      exact Good.put hs.sessions i hsane

theorem Good.setup (hs : Good attrs s) : Good attrs ⟨s.sessions ++ [({} : Pk11Session)], s.active⟩ := by
  refine ⟨fun sp hsp => ?_, hs.listed⟩
  rcases List.mem_append.mp hsp with hold | hnew
  · exact hs.sessions sp hold
  · rw [List.mem_singleton.mp hnew]
    exact ⟨iff_of_false Bool.false_ne_true fun hall => hall.1 rfl, fun hk => absurd rfl hk, fun hk => absurd rfl hk⟩

theorem destroyPub_kept (hone : OneEntry active) (hshares : Shares sp active) (hp : sp.persistent = true) :
    (pk11DestroyRsaObjectPub destroys sp active).1 = 0 := by
  rw [pk11DestroyRsaObjectPub]
  by_cases hk : sp.rsa.pubKey = ckInvalidHandle
  · rw [if_neg (not_not.mpr hk)]
  · rw [if_pos hk]
    exact (tryObjDestroy_refs destroys sp hone sp.rsa.pubKey).2.2 (hshares hp hk)

theorem Good.destroy (hs : Good attrs s) {chain : List Nat} (hwalk : WalkShares destroys chain s) :
    Tidy attrs s.active (pk11DestroyRsaKeyObjects destroys chain s) ∧
    Good attrs (final s (pk11DestroyRsaKeyObjects destroys chain s)) := by
  induction chain generalizing s with
  | nil => exact ⟨trivial, hs⟩
  | cons i is ih =>
      rw [pk11DestroyRsaKeyObjects]
      rw [WalkShares] at hwalk
      cases hsp : s.sessions[i]? with
      | none =>
          rw [hsp] at hwalk
          exact ih hs hwalk
      | some sp =>
          rw [hsp] at hwalk
          obtain ⟨hshares, hrest⟩ := hwalk
          obtain ⟨hclean, hsane⟩ := @Sane.destroyPub attrs sp s.active destroys (hs.sane hsp) hshares
          dsimp only at hrest ⊢
          have hput := Good.put hs.sessions i hsane
          by_cases hzero : (pk11DestroyRsaObjectPub destroys sp s.active).1 = 0
          · rw [if_pos hzero] at hrest ⊢
            obtain ⟨htidy, hfinal⟩ := ih hput hrest
            refine ⟨⟨hclean, htidy⟩, ?_⟩
            rw [final_cons]
            exact hfinal
          · rw [if_neg hzero] at hrest ⊢
            have hnot : sp.persistent = false :=
              Bool.eq_false_iff.mpr fun hp => hzero (destroyPub_kept hs.listed.oneEntry hshares hp)
            obtain ⟨hclean', hsane'⟩ := @Sane.destroyPriv attrs _ _ destroys hsane (destroyPub_sp.1.trans hnot)
            obtain ⟨htidy, hfinal⟩ := ih (Good.put hs.sessions i hsane') hrest
            refine ⟨⟨hclean, hclean', htidy⟩, ?_⟩
            rw [final_cons, final_cons]
            exact hfinal

theorem Good.calls (hs : Good attrs s) (hp : Promised attrs o) (hk : Keeps o s) (hcalls : calls o s = some calls') :
    Tidy attrs s.active calls' ∧ Good attrs (final s calls') := by
  cases o with
  | setupSession =>
      cases hcalls
      exact ⟨⟨cleared_of_le (fun _ => Nat.le_refl _) nofun, trivial⟩, hs.setup⟩
  | lookupPub i rsa r destroys => exact hs.onSession hcalls fun sp hsp hsane => hsane.lookupPub hp (hk sp hsp)
  | lookupPriv i rsa r destroys => exact hs.onSession hcalls fun sp hsp hsane => hsane.lookupPriv hp (hk sp hsp)
  | loadFile i isPrivate file r destroys =>
    exact hs.onSession hcalls fun sp hsp hsane => hsane.loadFile hp (hk sp hsp)
  | loadToken i isPrivate k r destroys =>
      refine hs.onSession hcalls fun sp hsp hsane => ?_
      cases isPrivate with
      | true => exact hsane.tokenPriv hp.1
      | false => exact hsane.tokenPub hp.1 (hp.2 rfl) (hk sp hsp rfl)
  | destroy chain destroys =>
      cases hcalls
      exact hs.destroy hk

/-- In a run that keeps the marks, a session is marked exactly when its private key is one of the token, and
each call destroys what it should. -/
theorem persistent_marks (h : Reachable step (fun o s => Promised attrs o ∧ Keeps o s) Empty s) :
    (∀ sp ∈ s.sessions, sp.persistent = true ↔
      sp.rsa.privKey ≠ ckInvalidHandle ∧ (attrs sp.rsa.privKey).token = true) ∧
      ∀ o t, Promised attrs o → Keeps o s → calls o s = some t → Tidy attrs s.active t := by
  have hs : Good attrs s := by
    refine h.invariant (Good attrs) (fun s hs => ?_) fun o s s' hs hok hstep => ?_
    · refine ⟨fun sp hsp => ?_, ?_, fun h hpos => ?_⟩
      · rw [hs.1] at hsp
        cases hsp
      · rw [hs.2]
        exact List.nodup_nil
      · rw [hs.2] at hpos
        cases hpos
    · obtain ⟨t, ht, rfl⟩ := Option.map_eq_some_iff.mp hstep
      exact (hs.calls hok.1 hok.2 ht).2
  exact ⟨fun sp hsp => (hs.sessions sp hsp).1, fun o t hp hk hcalls => (hs.calls hp hk hcalls).1⟩

/-- One object of the token, and private keys besides. -/
def someAttributes (h : Handle) : Attributes := ⟨h = 7, true⟩

theorem promised_tokenKey : Promised someAttributes (.loadToken 0 true { object := some 7 } {} fun _ => true) :=
  ⟨fun h hobj => by cases hobj; exact ⟨by decide, rfl⟩, nofun⟩

theorem persistent_marks_tokenKey : (∀ sp ∈ RsaKeyRuns.tokenKey.sessions,
    sp.persistent = true ↔ sp.rsa.privKey ≠ ckInvalidHandle ∧ (someAttributes sp.rsa.privKey).token = true) ∧
      ∀ o t, Promised someAttributes o → Keeps o RsaKeyRuns.tokenKey → calls o RsaKeyRuns.tokenKey = some t →
        Tidy someAttributes RsaKeyRuns.tokenKey.active t :=
  persistent_marks (.next (.loadToken 0 true { object := some 7 } {} fun _ => true)
    (RsaKeyRuns.started_counted fun _ => ⟨trivial, trivial⟩) ⟨promised_tokenKey, fun _ _ => nofun⟩ rfl)

def fileKey : Keys :=
  ⟨[{ persistent := true,
      rsa := { privKey := 3, priv := some 2, nNum := some 5, eNum := some 3, dNum := some 9 } }],
    [⟨3, 1, Nat.one_pos⟩]⟩

/-- The mark of a token key stays when the session gets another key. -/
theorem mark_left : ¬ ∀ attrs s, Reachable step (fun o _ => Promised attrs o) Empty s →
    ∀ sp ∈ s.sessions, sp.persistent = true ↔
      sp.rsa.privKey ≠ ckInvalidHandle ∧ (attrs sp.rsa.privKey).token = true := by
  intro hall
  have hfile : Promised someAttributes (.loadFile 0 true
    (some ⟨2, 5, 3, some 9⟩) { createdKey := 3 } fun _ => true) := by
    intro rsa hrsa
    cases hrsa
    exact ⟨absurd rfl, fun _ => rfl⟩
  have htoken : Reachable step (fun o _ => Promised someAttributes o) Empty RsaKeyRuns.tokenKey :=
    .next (.loadToken 0 true { object := some 7 } {} fun _ => true)
      (RsaKeyRuns.started_counted fun _ => trivial) promised_tokenKey rfl
  have hreach : Reachable step (fun o _ => Promised someAttributes o) Empty fileKey :=
    .next (.loadFile 0 true (some ⟨2, 5, 3, some 9⟩) { createdKey := 3 } fun _ => true) htoken hfile rfl
  exact absurd ((hall someAttributes fileKey hreach _ (List.mem_singleton_self _)).mp rfl).2 (by decide)

end Runs

end OiUserland.Pkcs11.PersistentFlag
