import OiUserland.Pkcs11.Sessions

namespace OiUserland.Pkcs11.SymmetricCiphers

open Types Process Sessions

/-- NID_* of the ciphers of the table, and any other. -/
inductive Nid
  | desCbc
  | desEde3Cbc
  | desEcb
  | desEde3Ecb
  | rc4
  | aes128Cbc
  | aes192Cbc
  | aes256Cbc
  | aes128Ecb
  | aes192Ecb
  | aes256Ecb
  | bfCbc
  | aes128Ctr
  | aes192Ctr
  | aes256Ctr
  | other (n : Nat)
  deriving DecidableEq

/-- A row of the table of ciphers. Its mechanism is not kept. -/
structure Pk11Cipher where
  id : Nat
  nid : Nid
  ivLen : Nat
  minKeyLen : Nat
  maxKeyLen : Nat
  keyType : KeyType
  deriving DecidableEq

def ciphers : List Pk11Cipher :=
  [⟨0, .desCbc, 8, 8, 8, .des⟩,
    ⟨1, .desEde3Cbc, 8, 24, 24, .des3⟩,
    ⟨2, .desEcb, 0, 8, 8, .des⟩,
    ⟨3, .desEde3Ecb, 0, 24, 24, .des3⟩,
    ⟨4, .rc4, 0, 16, 256, .rc4⟩,
    ⟨5, .aes128Cbc, 16, 16, 16, .aes⟩,
    ⟨6, .aes192Cbc, 16, 24, 24, .aes⟩,
    ⟨7, .aes256Cbc, 16, 32, 32, .aes⟩,
    ⟨8, .aes128Ecb, 0, 16, 16, .aes⟩,
    ⟨9, .aes192Ecb, 0, 24, 24, .aes⟩,
    ⟨10, .aes256Ecb, 0, 32, 32, .aes⟩,
    ⟨11, .bfCbc, 8, 16, 16, .blowfish⟩,
    ⟨12, .aes128Ctr, 16, 16, 16, .aes⟩,
    ⟨13, .aes192Ctr, 16, 24, 24, .aes⟩,
    ⟨14, .aes256Ctr, 16, 32, 32, .aes⟩]

def pk11KeyLenMax : Nat := 32

def cipherNidToPk11 (nid : Nid) : Option Nat := (ciphers.find? fun c => c.nid = nid).map Pk11Cipher.id

/-- EVP_CIPHER_CTX: the members of its cipher, its own, and the session in its
cipher_data. -/
structure CipherCtx where
  nid : Nid := .other 0
  ivLen : Nat := 0
  blockSize : Nat := 1
  keyLen : Nat := 0
  encrypt : Int := 0
  sp : Addr := 0
  deriving DecidableEq

def pk11InitSymmetric (e : Engine) (sp : Addr) (rv : Rv) : Option (Engine × Bool) :=
  if rv ≠ ckrOk then (pk11ReturnSession e sp .cipher).map fun e => (e, false) else some (e, true)

def pk11DestroyCipherKeyObjects (e : Engine) (sp : Addr) (s : Pk11Session) (rv : Rv) : Engine :=
  if s.cipher.cipherKey = ckInvalidHandle then e
  else if rv ≠ ckrOk then e
  else
    (e.setObject s.cipher.cipherKey none).store sp
      { s with cipher := { s.cipher with cipherKey := ckInvalidHandle } }

def SameKey (c : CipherData) (key : List UInt8) : Prop :=
  c.keyLen = key.length ∧ c.key.take key.length = key

instance (c : CipherData) (key : List UInt8) : Decidable (SameKey c key) := inferInstanceAs (Decidable (_ ∧ _))

def checkNewCipherKey (e : Engine) (sp : Addr) (key : List UInt8) (destroy : Rv) : Option Engine :=
  (e.session? sp).map fun s =>
    if SameKey s.cipher key then e else pk11DestroyCipherKeyObjects e sp s destroy

structure CreateResult where
  rv : Rv := ckrOk
  handle : Handle := 1
  deriving DecidableEq

def recordKey (c : CipherData) (key : List UInt8) : CipherData :=
  let keyLen := if key.length > pk11KeyLenMax then pk11KeyLenMax else key.length
  { c with keyLen := keyLen, key := key.take keyLen ++ c.key.drop keyLen }

def pk11GetCipherKey (e : Engine) (sp : Addr) (key : List UInt8) (keyType : KeyType) (r : CreateResult) :
    Option Engine :=
  (e.session? sp).map fun s =>
    if r.rv ≠ ckrOk then
      e.store sp { s with cipher := { s.cipher with cipherKey := ckInvalidHandle } }
    else
      (e.setObject r.handle (some ⟨keyType, key, sp⟩)).store sp
        { s with cipher := { recordKey s.cipher key with cipherKey := r.handle } }

def pk11CipherFinal (e : Engine) (sp : Addr) (close : Rv) (reopen : OpenResult) : Option (Engine × Bool) :=
  (e.session? sp).map fun s =>
    let e := cCloseSession e s.session close
    if close ≠ ckrOk then (e, false)
    else
      let e := cOpenSession e reopen
      if reopen.rv ≠ ckrOk then (e, false) else (e.store sp { s with session := reopen.handle }, true)

def pk11CipherCleanup (e : Engine) (ctx : CipherCtx) (final : Rv) : Option (Engine × CipherCtx × Bool) :=
  if ctx.sp = 0 then some (e, ctx, true)
  else (e.session? ctx.sp).bind fun _ =>
    (pk11ReturnSession e ctx.sp .cipher).map fun e =>
      if final ≠ ckrOk then (e, ctx, false) else (e, { ctx with sp := 0 }, true)

/-- The outcomes in pk11_cipher_init, by the functions that make the calls. -/
structure CipherInitResults where
  final : Rv := ckrOk
  get : GetResults := {}
  destroy : Rv := ckrOk
  create : CreateResult := {}
  close : Rv := ckrOk
  reopen : OpenResult := {}
  init : Rv := ckrOk

def makeKey (e : Engine) (sp : Addr) (key : List UInt8) (row : Pk11Cipher) (r : CreateResult) : Option Engine :=
  (e.session? sp).bind fun s =>
    if s.cipher.cipherKey = ckInvalidHandle then pk11GetCipherKey e sp key row.keyType r else some e

def terminatePrevious (e : Engine) (ctx : CipherCtx) (sp : Addr) (env : CipherInitResults) : Option (Engine × Bool) :=
  (e.session? sp).bind fun s =>
    if s.cipher.encrypt ≠ ctx.encrypt ∧ s.cipher.encrypt ≠ -1 then pk11CipherFinal e sp env.close env.reopen
    else some (e, true)

def initContext (e : Engine) (ctx : CipherCtx) (sp : Addr) (env : CipherInitResults) :
    Option (Engine × CipherCtx × Bool) :=
  (e.session? sp).bind fun s =>
    if s.cipher.cipherKey = ckInvalidHandle then (pk11ReturnSession e sp .cipher).map fun e => (e, ctx, false)
    else
      (pk11InitSymmetric e sp env.init).map fun (e, ok) =>
        if !ok then (e, ctx, false)
        else (e.store sp { s with cipher := { s.cipher with encrypt := ctx.encrypt } }, { ctx with sp := sp }, true)

def initWithKey (e : Engine) (ctx : CipherCtx) (sp : Addr) (key : List UInt8) (row : Pk11Cipher)
    (env : CipherInitResults) : Option (Engine × CipherCtx × Bool) :=
  (makeKey e sp key row env.create).bind fun e =>
    (terminatePrevious e ctx sp env).bind fun (e, ok) =>
      if !ok then (pk11ReturnSession e sp .cipher).map fun e => (e, ctx, false) else initContext e ctx sp env

def initWithSession (e : Engine) (ctx : CipherCtx) (sp : Addr) (key : List UInt8) (row : Pk11Cipher)
    (env : CipherInitResults) : Option (Engine × CipherCtx × Bool) := do
  let e ← checkNewCipherKey e sp key env.destroy
  let s ← e.session? sp
  if s.cipher.cipherKey ≠ ckInvalidHandle ∧ s.cipher.encrypt = ctx.encrypt then
    let (e, ok) ← pk11InitSymmetric e sp env.init
    some (e, { ctx with sp := sp }, ok)
  else initWithKey e ctx sp key row env

/-- The row for a context whose lengths pass the checks. -/
def cipherRow (ctx : CipherCtx) : Option Pk11Cipher :=
  match (cipherNidToPk11 ctx.nid).bind (ciphers[·]?) with
  | none => none
  | some row =>
      if ctx.ivLen < row.ivLen ∨ ctx.keyLen < row.minKeyLen ∨ ctx.keyLen > row.maxKeyLen then none else some row

/-- pk11_cipher_init, where `key` has ctx->key_len bytes. -/
def pk11CipherInit (e : Engine) (ctx : CipherCtx) (key : List UInt8) (env : CipherInitResults) :
    Option (Engine × CipherCtx × Bool) := do
  let (e, ctx, _) ← pk11CipherCleanup e ctx env.final
  let ctx := { ctx with sp := 0 }
  match cipherRow ctx with
  | none => some (e, ctx, false)
  | some row =>
      let (e, sp) ← pk11GetSession e .cipher env.get
      if sp = 0 then some (e, ctx, false) else initWithSession e ctx sp key row env

/-- The outcomes in pk11_cipher_do_cipher: of C_EncryptUpdate or C_DecryptUpdate. -/
structure UpdateResult where
  rv : Rv := ckrOk
  outl : Nat := 0

def pk11CipherDoCipher (e : Engine) (ctx : CipherCtx) (inl : Nat) (r : UpdateResult) : Option Bool :=
  if ctx.sp = 0 then some false
  else if inl = 0 then some true
  else if ctx.nid ≠ .rc4 ∧ inl % ctx.blockSize ≠ 0 then some false
  else (e.session? ctx.sp).map fun _ => r.rv = ckrOk ∧ inl = r.outl

end OiUserland.Pkcs11.SymmetricCiphers
