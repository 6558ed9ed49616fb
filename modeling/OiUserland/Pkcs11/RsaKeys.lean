import OiUserland.Lib.RefCounts
import OiUserland.Pkcs11.Types

namespace OiUserland.Pkcs11.RsaKeys

open Lib.RefCounts Types

/-- The entries of active_list for RSA: the handle of an object and its number of references. -/
abbrev ActiveList := List (Entry Handle)

/-- An RSA structure: its address and the numbers it has. A key that stays in the token has no d. -/
structure Rsa where
  addr : Nat
  n : Int
  e : Int
  d : Option Int

def pk11ActiveAdd (h : Handle) (malloc : Bool) (active : ActiveList) : Option ActiveList :=
  if h = ckInvalidHandle then none
  else match hold h active with
    | some active => some active
    | none => if malloc then some (⟨h, 1, Nat.one_pos⟩ :: active) else none

def pk11ActiveDelete (h : Handle) (active : ActiveList) : Int × ActiveList :=
  match release h active with
  | none => (-1, active)
  | some (last, active) => (if last then 1 else 0, active)

/-- What a call leaves: the session, the active list, and the objects given to C_DestroyObject. -/
structure Called where
  sp : Pk11Session
  active : ActiveList
  destroyed : List Handle := []

def destroyAllRsaParams (rsa : RsaData) : RsaData := { rsa with nNum := none, eNum := none, dNum := none }

def tryObjDestroy (destroys : Handle → Bool) (sp : Pk11Session) (h : Handle) (active : ActiveList) :
    Int × ActiveList × List Handle :=
  let r := pk11ActiveDelete h active
  if r.1 = 1 then
    if sp.persistent then (1, r.2, [])
    else (if destroys h then 1 else 0, r.2, [h])
  else (0, r.2, [])

def pk11DestroyRsaObjectPub (destroys : Handle → Bool) (sp : Pk11Session) (active : ActiveList) : Int × Called :=
  if sp.rsa.pubKey ≠ ckInvalidHandle then
    let r := tryObjDestroy destroys sp sp.rsa.pubKey active
    (r.1, ⟨{ sp with rsa := destroyAllRsaParams { sp.rsa with pubKey := ckInvalidHandle, pub := none } }, r.2.1, r.2.2⟩)
  else (0, ⟨sp, active, []⟩)

def pk11DestroyRsaObjectPriv (destroys : Handle → Bool) (sp : Pk11Session) (active : ActiveList) : Int × Called :=
  if sp.rsa.privKey ≠ ckInvalidHandle then
    let r := tryObjDestroy destroys sp sp.rsa.privKey active
    (r.1, ⟨{ sp with rsa := destroyAllRsaParams { sp.rsa with privKey := ckInvalidHandle, priv := none } }, r.2.1, r.2.2⟩)
  else (0, ⟨sp, active, []⟩)

/-- The outcomes in pk11_get_public_rsa_key and pk11_get_private_rsa_key: of the copies of the template
values, the PKCS#11 calls, BN_dup and the allocation of an entry of the active list. -/
structure KeyResults where
  template : Bool := true
  findInit : Rv := ckrOk
  find : Rv := ckrOk
  found : Nat := 0
  foundKey : Handle := ckInvalidHandle
  findFinal : Rv := ckrOk
  create : Rv := ckrOk
  createdKey : Handle := 1
  dupN : Bool := true
  dupE : Bool := true
  dupD : Bool := true
  malloc : Bool := true

def findKey (creates : Bool) (r : KeyResults) : Handle × Bool :=
  if r.findInit ≠ ckrOk then (ckInvalidHandle, false)
  else if r.find ≠ ckrOk then (ckInvalidHandle, false)
  else
    let h := if r.found = 0 then ckInvalidHandle else r.foundKey
    if r.findFinal ≠ ckrOk then (h, false)
    else if r.found ≠ 0 then (h, true)
    else if !creates then (h, false)
    else if r.create ≠ ckrOk then (h, false)
    else (r.createdKey, true)

def rollback (r : KeyResults) (h : Handle) (sp : Pk11Session) (active : ActiveList) : Handle × Called :=
  (ckInvalidHandle, ⟨sp, active, if r.found = 0 then [h] else []⟩)

def withNumbers (sp : Pk11Session) (n e : Option Int) : Pk11Session :=
  { sp with rsa := { sp.rsa with nNum := n, eNum := e } }

def recordKey (rsa : Rsa) (r : KeyResults) (h : Handle) (keep : RsaData → RsaData) (sp : Pk11Session)
    (active : ActiveList) : Handle × Called :=
  if !r.dupN then rollback r h (withNumbers sp none sp.rsa.eNum) active
  else if !r.dupE then rollback r h (withNumbers sp none none) active
  else
    let sp := withNumbers sp (some rsa.n) (some rsa.e)
    match pk11ActiveAdd h r.malloc active with
    | none => rollback r h sp active
    | some active => (h, ⟨{ sp with rsa := keep sp.rsa }, active, []⟩)

def pk11GetPublicRsaKey (rsa : Rsa) (r : KeyResults) (sp : Pk11Session) (active : ActiveList) : Handle × Called :=
  if !r.template then (ckInvalidHandle, ⟨sp, active, []⟩)
  else match findKey true r with
    | (h, false) => (h, ⟨sp, active, []⟩)
    | (h, true) => recordKey rsa r h (fun d => { d with pub := some rsa.addr }) sp active

def pk11GetPrivateRsaKey (rsa : Rsa) (r : KeyResults) (sp : Pk11Session) (active : ActiveList) : Handle × Called :=
  if !r.template then (ckInvalidHandle, ⟨sp, active, []⟩)
  else match findKey rsa.d.isSome r with
    | (h, false) => (h, ⟨sp, active, []⟩)
    | (h, true) =>
        let keep : RsaData → RsaData := fun d => { d with priv := some rsa.addr }
        match rsa.d with
        | some d =>
            if !r.dupD then rollback r h { sp with rsa := { sp.rsa with dNum := none } } active
            else recordKey rsa r h keep { sp with rsa := { sp.rsa with dNum := some d } } active
        | none => recordKey rsa r h keep { sp with rsa := { sp.rsa with dNum := none } } active

def storePub (g : Handle × Called) : Called :=
  { g.2 with sp := { g.2.sp with rsa := { g.2.sp.rsa with pubKey := g.1 } } }

def storePriv (g : Handle × Called) : Called :=
  { g.2 with sp := { g.2.sp with rsa := { g.2.sp.rsa with privKey := g.1 } } }

def after : Pk11Session → ActiveList → List Called → Pk11Session × ActiveList
  | sp, active, [] => (sp, active)
  | _, _, c :: t => after c.sp c.active t

/-- The session caches the numbers of this RSA structure. -/
def SameRsa (addr : Option Nat) (d : RsaData) (rsa : Rsa) : Prop :=
  addr = some rsa.addr ∧ d.nNum = some rsa.n ∧ d.eNum = some rsa.e

instance (addr : Option Nat) (d : RsaData) (rsa : Rsa) : Decidable (SameRsa addr d rsa) :=
  inferInstanceAs (Decidable (_ ∧ _ ∧ _))

def pk11CheckNewRsaKeyPub (destroys : Handle → Bool) (rsa : Rsa) (sp : Pk11Session) (active : ActiveList) : List Called :=
  if SameRsa sp.rsa.pub sp.rsa rsa then []
  else
    let a := (pk11DestroyRsaObjectPub destroys sp active).2
    [a, (pk11DestroyRsaObjectPriv destroys a.sp a.active).2]

def pk11CheckNewRsaKeyPriv (destroys : Handle → Bool) (rsa : Rsa) (sp : Pk11Session) (active : ActiveList) : List Called :=
  if SameRsa sp.rsa.priv sp.rsa rsa then []
  else
    let a := (pk11DestroyRsaObjectPriv destroys sp active).2
    [a, (pk11DestroyRsaObjectPub destroys a.sp a.active).2]

def lookupPub (destroys : Handle → Bool) (rsa : Rsa) (r : KeyResults) (sp : Pk11Session) (active : ActiveList) :
    List Called :=
  let t := pk11CheckNewRsaKeyPub destroys rsa sp active
  let c := after sp active t
  if c.1.rsa.pubKey = ckInvalidHandle then t ++ [storePub (pk11GetPublicRsaKey rsa r c.1 c.2)] else t

def lookupPriv (destroys : Handle → Bool) (rsa : Rsa) (r : KeyResults) (sp : Pk11Session) (active : ActiveList) :
    List Called :=
  let t := pk11CheckNewRsaKeyPriv destroys rsa sp active
  let c := after sp active t
  if c.1.rsa.privKey = ckInvalidHandle then t ++ [storePriv (pk11GetPrivateRsaKey rsa r c.1 c.2)] else t

def commonGetKeyFromFile (isPrivate : Bool) (destroys : Handle → Bool) (file : Option Rsa) (r : KeyResults)
    (sp : Pk11Session) (active : ActiveList) : List Called :=
  match file with
  | none => []
  | some rsa =>
      if isPrivate then
        let t := pk11CheckNewRsaKeyPriv destroys rsa sp active
        let c := after sp active t
        t ++ [storePriv (pk11GetPrivateRsaKey rsa r c.1 c.2)]
      else
        let t := pk11CheckNewRsaKeyPub destroys rsa sp active
        let c := after sp active t
        t ++ [storePub (pk11GetPublicRsaKey rsa r c.1 c.2)]

/-- The outcomes in common_get_key_from_token: the object that is found after the login, the address
of the new RSA structure, C_GetAttributeValue with n and e, EVP_PKEY_new, EVP_PKEY_set1_RSA and the
allocation of an entry of the active list. -/
structure TokenResults where
  object : Option Handle := some 1
  rsaNew : Option Nat := some 1
  getAttributes : Rv := ckrOk
  n : Int := 1
  e : Int := 1
  evpNew : Bool := true
  evpSet : Bool := true
  malloc : Bool := true

def dropRsa (c : Called) : Called :=
  { c with sp := { c.sp with rsa := { c.sp.rsa with priv := none, pub := none } } }

def loadTokenPriv (destroys : Handle → Bool) (k : TokenResults) (sp : Pk11Session) (active : ActiveList) :
    List Called :=
  match k.object with
  | none => []
  | some ksKey =>
      let d := (pk11DestroyRsaObjectPriv destroys sp active).2
      let c : Called :=
        { d with
          sp := { d.sp with
            rsa := { d.sp.rsa with privKey := ksKey, priv := k.rsaNew }
            persistent := true }
          destroyed := [] }
      if k.rsaNew.isNone then [d, c]
      else if k.getAttributes ≠ ckrOk then [d, dropRsa c]
      else
        let c := { c with sp := withNumbers c.sp (some k.n) (some k.e) }
        if !k.evpNew || !k.evpSet then [d, dropRsa c]
        else match pk11ActiveAdd ksKey k.malloc c.active with
          | none => [d, dropRsa c]
          | some active => [d, { c with active := active }]

def loadTokenPub (destroys : Handle → Bool) (k : TokenResults) (r : KeyResults) (sp : Pk11Session)
    (active : ActiveList) : List Called :=
  match k.object with
  | none => []
  | some ksKey =>
      let d := (pk11DestroyRsaObjectPub destroys sp active).2
      let c : Called := ⟨{ d.sp with rsa := { d.sp.rsa with pubKey := ksKey, pub := k.rsaNew } }, d.active, []⟩
      match k.rsaNew with
      | none => [d, c]
      | some addr =>
          if k.getAttributes ≠ ckrOk then [d, dropRsa c]
          else if !k.evpNew || !k.evpSet then [d, dropRsa c]
          else
            let g := storePub (pk11GetPublicRsaKey ⟨addr, k.n, k.e, none⟩ r c.sp c.active)
            if g.sp.rsa.pubKey = ckInvalidHandle then [d, dropRsa g] else [d, g]

/-- common_get_key_from_token. -/
def commonGetKeyFromToken (isPrivate : Bool) (destroys : Handle → Bool) (k : TokenResults) (r : KeyResults)
    (sp : Pk11Session) (active : ActiveList) : List Called :=
  if isPrivate then loadTokenPriv destroys k sp active else loadTokenPub destroys k r sp active

/-- The sessions for RSA and the active list that they share. -/
structure Keys where
  sessions : List Pk11Session
  active : ActiveList

def Keys.put (s : Keys) (i : Nat) (c : Called) : Keys := ⟨s.sessions.set i c.sp, c.active⟩

/-- The loop of pk11_destroy_rsa_key_objects over a chain of sessions. The private key of a session is
left alone when the public one was not destroyed. -/
def pk11DestroyRsaKeyObjects (destroys : Handle → Bool) : List Nat → Keys → List (Keys × List Handle)
  | [], _ => []
  | i :: is, s =>
      match s.sessions[i]? with
      | none => pk11DestroyRsaKeyObjects destroys is s
      | some sp =>
          let a := pk11DestroyRsaObjectPub destroys sp s.active
          if a.1 = 0 then (s.put i a.2, a.2.destroyed) :: pk11DestroyRsaKeyObjects destroys is (s.put i a.2)
          else
            let b := (pk11DestroyRsaObjectPriv destroys a.2.sp a.2.active).2
            (s.put i a.2, a.2.destroyed) :: (s.put i b, b.destroyed) :: pk11DestroyRsaKeyObjects destroys is (s.put i b)

inductive Op
  | setupSession
  | lookupPub (i : Nat) (rsa : Rsa) (r : KeyResults) (destroys : Handle → Bool)
  | lookupPriv (i : Nat) (rsa : Rsa) (r : KeyResults) (destroys : Handle → Bool)
  | loadFile (i : Nat) (isPrivate : Bool) (file : Option Rsa) (r : KeyResults) (destroys : Handle → Bool)
  | loadToken (i : Nat) (isPrivate : Bool) (k : TokenResults) (r : KeyResults) (destroys : Handle → Bool)
  | destroy (chain : List Nat) (destroys : Handle → Bool)

def Keys.onSession (s : Keys) (i : Nat) (f : Pk11Session → ActiveList → List Called) :
    Option (List (Keys × List Handle)) :=
  s.sessions[i]?.map fun sp => (f sp s.active).map fun c => (s.put i c, c.destroyed)

/-- The calls of an operation that change a session or the active list: what each leaves and destroys. -/
def calls : Op → Keys → Option (List (Keys × List Handle))
  | .setupSession, s => some [(⟨s.sessions ++ [{}], s.active⟩, [])]
  | .lookupPub i rsa r destroys, s => s.onSession i (lookupPub destroys rsa r)
  | .lookupPriv i rsa r destroys, s => s.onSession i (lookupPriv destroys rsa r)
  | .loadFile i isPrivate file r destroys, s => s.onSession i (commonGetKeyFromFile isPrivate destroys file r)
  | .loadToken i isPrivate k r destroys, s => s.onSession i (commonGetKeyFromToken isPrivate destroys k r)
  | .destroy chain destroys, s => some (pk11DestroyRsaKeyObjects destroys chain s)

def step (o : Op) (s : Keys) : Option Keys := (calls o s).map fun t => (t.getLast?.map Prod.fst).getD s

def Empty (s : Keys) : Prop := s.sessions = [] ∧ s.active = []

end OiUserland.Pkcs11.RsaKeys
