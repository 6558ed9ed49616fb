
namespace OiUserland.Pkcs11.Types

/-- CK_SESSION_HANDLE and CK_OBJECT_HANDLE. -/
abbrev Handle := Nat

def ckInvalidHandle : Handle := 0

/-- CK_RV. -/
abbrev Rv := Nat

def ckrOk : Rv := 0
def ckrCryptokiNotInitialized : Rv := 400
def ckrCryptokiAlreadyInitialized : Rv := 401

/-- PK11_OPTYPE. -/
inductive Pk11OpType
  | rand
  | rsa
  | dsa
  | dh
  | cipher
  | digest
  deriving DecidableEq

/-- The cached RSA keys of a session: handles, key addresses and the numbers
that a cache hit is checked against. -/
structure RsaData where
  pubKey : Handle := ckInvalidHandle
  privKey : Handle := ckInvalidHandle
  pub : Option Nat := none
  nNum : Option Int := none
  eNum : Option Int := none
  priv : Option Nat := none
  dNum : Option Int := none
  deriving DecidableEq

/-- A cached DSA key: object handle, address of the DSA structure, number. -/
structure DsaKey where
  key : Handle := ckInvalidHandle
  dsa : Option Nat := none
  num : Option Int := none
  deriving DecidableEq

structure DsaData where
  pub : DsaKey := {}
  priv : DsaKey := {}
  deriving DecidableEq

structure DhData where
  key : Handle := ckInvalidHandle
  dh : Option Nat := none
  privNum : Option Int := none
  deriving DecidableEq

/-- The cached symmetric key: `key` is the whole buffer of PK11_KEY_LEN_MAX bytes,
and `encrypt` is -1 before the first use. -/
structure CipherData where
  cipherKey : Handle := ckInvalidHandle
  key : List UInt8 := List.replicate 32 0
  keyLen : Nat := 0
  encrypt : Int := 0
  deriving DecidableEq

/-- PK11_SESSION as it is after memset. A session stays with one operation
type, so the members of its union are kept apart. -/
structure Pk11Session where
  next : Nat := 0
  session : Handle := ckInvalidHandle
  pid : Nat := 0
  persistent : Bool := false
  rsa : RsaData := {}
  dsa : DsaData := {}
  dh : DhData := {}
  cipher : CipherData := {}
  deriving DecidableEq

end OiUserland.Pkcs11.Types
