import OiUserland.Pkcs11.SymmetricCiphers

namespace OiUserland.Pkcs11.Slots

open SymmetricCiphers

/-- CKM_* that the choice of a slot asks for. -/
inductive Mechanism
  | rsaPkcs
  | rsaX509
  | dsa
  | dhPkcsKeyPairGen
  | dhPkcsDerive
  | desCbc
  | des3Cbc
  | desEcb
  | des3Ecb
  | rc4
  | aesCbc
  | aesEcb
  | blowfishCbc
  | aesCtr
  | md5
  | sha1
  | sha224
  | sha256
  | sha384
  | sha512
  deriving DecidableEq

/-- PK11_CIPHER with its mechanism. -/
structure Cipher extends Pk11Cipher where
  mechType : Mechanism
  deriving DecidableEq

def cipherMechs : List Mechanism :=
  [.desCbc, .des3Cbc, .desEcb, .des3Ecb, .rc4, .aesCbc, .aesCbc, .aesCbc, .aesEcb, .aesEcb, .aesEcb, .blowfishCbc,
    .aesCtr, .aesCtr, .aesCtr]

def cipherTable : List Cipher := List.zipWith Cipher.mk ciphers cipherMechs

inductive DigestNid
  | md5
  | sha1
  | sha224
  | sha256
  | sha384
  | sha512
  deriving DecidableEq

structure Digest where
  id : Nat
  nid : DigestNid
  mechType : Mechanism
  deriving DecidableEq

def digestTable : List Digest :=
  [⟨0, .md5, .md5⟩, ⟨1, .sha1, .sha1⟩, ⟨2, .sha224, .sha224⟩, ⟨3, .sha256, .sha256⟩, ⟨4, .sha384, .sha384⟩,
    ⟨5, .sha512, .sha512⟩]

abbrev Flags := BitVec 64

def ckfRng : Flags := 0x1
def ckfEncrypt : Flags := 0x100
def ckfDecrypt : Flags := 0x200
def ckfDigest : Flags := 0x400
def ckfSign : Flags := 0x800
def ckfVerify : Flags := 0x2000
def ckfVerifyRecover : Flags := 0x4000
def ckfGenerateKeyPair : Flags := 0x10000
def ckfDerive : Flags := 0x80000

/-- CK_MECHANISM_INFO. -/
structure MechanismInfo where
  ulMinKeySize : Nat
  ulMaxKeySize : Nat
  flags : Flags
  deriving DecidableEq

def MechanismInfo.has (info : MechanismInfo) (flag : Flags) : Bool := info.flags &&& flag ≠ 0

/-- What the library answers: none stands for any rv but CKR_OK. -/
structure Provider where
  counted : Bool
  slots : List Nat
  malloc : Bool
  listed : Bool
  tokenInfo : Nat → Option Flags
  mechanismInfo : Nat → Mechanism → Option MechanismInfo

/-- The static variables of pk11_get_symmetric_cipher. -/
structure Memo where
  rv : Option MechanismInfo := some ⟨0, 0, 0⟩
  lastCheckedMech : Option Mechanism := none
  deriving DecidableEq

/-- The global variables. The first of the cipher_count and digest_count entries of the two
arrays are kept. -/
structure Globals where
  pubkeySlotid : Nat := 0
  randSlotid : Nat := 0
  slotid : Nat := 0
  cipherNids : List Nid := []
  digestNids : List DigestNid := []
  haveRsa : Bool := false
  haveDsa : Bool := false
  haveDh : Bool := false
  haveRandom : Bool := false
  pubkeyTokenFlags : Flags := 0
  memo : Memo := {}
  deriving DecidableEq

namespace Provider

variable (p : Provider)

def offers (slot : Nat) (m : Mechanism) (flags : List Flags) : Bool :=
  match p.mechanismInfo slot m with
  | none => false
  | some info => flags.all info.has

def pk11ChooseRandSlot (flags : Flags) (slot : Nat) (g : Globals) : Globals :=
  if flags &&& ckfRng ≠ 0 ∧ ¬g.haveRandom then { g with haveRandom := true, randSlotid := slot } else g

def slotHasRsa (slot : Nat) : Bool :=
  p.offers slot .rsaPkcs [ckfSign, ckfVerify] &&
    p.offers slot .rsaX509 [ckfSign, ckfVerify, ckfEncrypt, ckfVerifyRecover, ckfDecrypt]

def slotHasDsa (slot : Nat) : Bool := p.offers slot .dsa [ckfSign, ckfVerify]

def slotHasDh (slot : Nat) : Bool :=
  p.offers slot .dhPkcsKeyPairGen [ckfGenerateKeyPair] && p.offers slot .dhPkcsDerive [ckfDerive]

def numberOfMechs (slot : Nat) : Nat :=
  (p.slotHasRsa slot).toNat + (p.slotHasDsa slot).toNat + (p.slotHasDh slot).toNat

def pk11ChoosePubkeySlot (flags : Flags) (slot : Nat) (bestNumberOfMechs : Nat) (g : Globals) : Globals :=
  if bestNumberOfMechs < p.numberOfMechs slot then
    { g with haveRsa := p.slotHasRsa slot, haveDsa := p.slotHasDsa slot, haveDh := p.slotHasDh slot,
             pubkeyTokenFlags := flags }
  else g

def usableCipher (rv : Option MechanismInfo) (c : Cipher) : Bool :=
  match rv with
  | none => false
  | some info => info.has ckfEncrypt && info.has ckfDecrypt &&
      !(c.minKeyLen < info.ulMinKeySize || info.ulMaxKeySize < c.maxKeyLen)

def pk11GetSymmetricCipher (slot : Nat) (r : List Nid × Memo) (c : Cipher) : List Nid × Memo :=
  let rv := if r.2.lastCheckedMech ≠ some c.mechType then p.mechanismInfo slot c.mechType else r.2.rv
  (if usableCipher rv c then r.1 ++ [c.nid] else r.1, ⟨rv, some c.mechType⟩)

def pk11FindSymmetricCiphers (slot : Nat) (memo : Memo) : List Nid × Memo :=
  cipherTable.foldl (p.pk11GetSymmetricCipher slot) ([], memo)

def pk11GetDigest (slot : Nat) (nids : List DigestNid) (d : Digest) : List DigestNid :=
  if p.offers slot d.mechType [ckfDigest] then nids ++ [d.nid] else nids

def pk11FindDigests (slot : Nat) : List DigestNid := digestTable.foldl (p.pk11GetDigest slot) []

def pk11ChooseCipherDigest (slot : Nat) (g : Globals) : Globals :=
  let r := p.pk11FindSymmetricCiphers slot g.memo
  let d := p.pk11FindDigests slot
  let g := { g with memo := r.2 }
  if g.cipherNids.length + g.digestNids.length < r.1.length + d.length then
    { g with slotid := slot, cipherNids := r.1, digestNids := d }
  else g

def checkSlot (g : Globals) (slot : Nat) : Globals :=
  match p.tokenInfo slot with
  | none => g
  | some flags =>
    p.pk11ChooseCipherDigest slot (p.pk11ChoosePubkeySlot flags slot 0 (pk11ChooseRandSlot flags slot g))

def pk11ChooseSlots (g : Globals) : Globals × Nat :=
  if ¬p.counted then (g, 0)
  else
    match p.slots with
    | [] => (g, 1)
    | first :: _ =>
      if ¬p.malloc ∨ ¬p.listed then (g, 0)
      else (p.slots.foldl p.checkSlot { g with pubkeySlotid := first }, 1)

end Provider

end OiUserland.Pkcs11.Slots

namespace OiUserland.Pkcs11.PubkeySlots

open Slots

variable {p : Provider} {g : Globals} {slot first : Nat} {flags : Flags}

structure Described where
  rsa : Bool
  dsa : Bool
  dh : Bool
  tokenFlags : Flags
  deriving DecidableEq

def described (g : Globals) : Described := ⟨g.haveRsa, g.haveDsa, g.haveDh, g.pubkeyTokenFlags⟩

def supported (p : Provider) (slot : Nat) : Nat :=
  if (p.tokenInfo slot).isSome then p.numberOfMechs slot else 0

def describe (p : Provider) (slot : Nat) : Described :=
  ⟨p.slotHasRsa slot, p.slotHasDsa slot, p.slotHasDh slot, (p.tokenInfo slot).getD 0⟩

theorem described_rand : described (Provider.pk11ChooseRandSlot flags slot g) = described g ∧
    (Provider.pk11ChooseRandSlot flags slot g).pubkeySlotid = g.pubkeySlotid := by
  unfold Provider.pk11ChooseRandSlot
  split <;> exact ⟨rfl, rfl⟩

theorem described_cipher : described (p.pk11ChooseCipherDigest slot g) = described g ∧
    (p.pk11ChooseCipherDigest slot g).pubkeySlotid = g.pubkeySlotid := by
  unfold Provider.pk11ChooseCipherDigest
  dsimp only
  split <;> exact ⟨rfl, rfl⟩

theorem described_pubkey (ht : p.tokenInfo slot = some flags) :
    described (p.pk11ChoosePubkeySlot flags slot 0 g) = (if 0 < supported p slot then describe p slot else described g) ∧
      (p.pk11ChoosePubkeySlot flags slot 0 g).pubkeySlotid = g.pubkeySlotid := by
  have hs : supported p slot = p.numberOfMechs slot := if_pos (by simp [ht])
  unfold Provider.pk11ChoosePubkeySlot
  rw [hs]
  by_cases hn : 0 < p.numberOfMechs slot
  · rw [if_pos hn, if_pos hn, describe, ht]
    exact ⟨rfl, rfl⟩
  · rw [if_neg hn, if_neg hn]
    exact ⟨rfl, rfl⟩

theorem described_checkSlot (slot : Nat) :
    described (p.checkSlot g slot) = (if 0 < supported p slot then describe p slot else described g) ∧
      (p.checkSlot g slot).pubkeySlotid = g.pubkeySlotid := by
  unfold Provider.checkSlot
  cases ht : p.tokenInfo slot with
  | none =>
      have hs : ¬ 0 < supported p slot := by simp [supported, ht]
      exact ⟨(if_neg hs).symm, rfl⟩
  | some flags =>
      simp only
      rw [described_cipher.1, described_cipher.2, (described_pubkey ht).1, (described_pubkey ht).2, described_rand.1,
        described_rand.2]
      exact ⟨rfl, rfl⟩

def lastSupporting (p : Provider) (slots : List Nat) : Option Nat := (slots.filter (0 < supported p ·)).getLast?

theorem described_foldl (slots : List Nat) :
    described (slots.foldl p.checkSlot g) = ((lastSupporting p slots).map (describe p)).getD (described g) ∧
      (slots.foldl p.checkSlot g).pubkeySlotid = g.pubkeySlotid := by
  induction slots generalizing g with
  | nil => exact ⟨rfl, rfl⟩
  | cons slot slots ih =>
      obtain ⟨hdescribed, hpubkey⟩ := described_checkSlot (p := p) (g := g) slot
      obtain ⟨hrest, hrest'⟩ := ih (g := p.checkSlot g slot)
      refine ⟨?_, hrest'.trans hpubkey⟩
      rw [List.foldl_cons, hrest, hdescribed, lastSupporting, lastSupporting]
      by_cases hs : 0 < supported p slot
      · rw [if_pos hs, List.filter_cons_of_pos (by simpa using hs), List.getLast?_cons]
        cases (slots.filter (0 < supported p ·)).getLast? <;> rfl
      · rw [if_neg hs, List.filter_cons_of_neg (by simpa using hs)]

theorem described_choose (hs : p.slots.head? = some first) (hret : (p.pk11ChooseSlots g).2 = 1) :
    described (p.pk11ChooseSlots g).1 = ((lastSupporting p p.slots).map (describe p)).getD (described g) ∧
      (p.pk11ChooseSlots g).1.pubkeySlotid = first := by
  obtain ⟨rest, hslots⟩ : ∃ rest, p.slots = first :: rest := ⟨p.slots.tail, (List.cons_head?_tail hs).symm⟩
  unfold Provider.pk11ChooseSlots at hret ⊢
  by_cases hc : p.counted = true
  · rw [if_neg (not_not.mpr hc)] at hret ⊢
    rw [hslots] at hret ⊢
    by_cases hm : ¬p.malloc = true ∨ ¬p.listed = true
    · simp only [if_pos hm, Nat.zero_ne_one] at hret
    · simp only [if_neg hm]
      exact described_foldl (g := { g with pubkeySlotid := first }) (first :: rest)
  · rw [if_pos hc] at hret
    exact absurd hret Nat.zero_ne_one

structure PubkeySlotRight (p : Provider) (g : Globals) : Prop where
  listed : g.pubkeySlotid ∈ p.slots
  largest : ∀ slot ∈ p.slots, supported p slot ≤ supported p g.pubkeySlotid
  described : described g = describe p g.pubkeySlotid

/-- When a slot supports anything, the public key slot is right just if the first slot
supports most, and the last that supports something looks the same. -/
theorem pubkeySlot_iff (g : Globals) (hret : (p.pk11ChooseSlots g).2 = 1) (hany : ∃ slot ∈ p.slots, 0 < supported p slot) :
    PubkeySlotRight p (p.pk11ChooseSlots g).1 ↔
      ∃ first last, p.slots.head? = some first ∧ lastSupporting p p.slots = some last ∧
        (∀ slot ∈ p.slots, supported p slot ≤ supported p first) ∧ describe p last = describe p first := by
  obtain ⟨slot, hslot, hpos⟩ := hany
  obtain ⟨first, hfirst⟩ : ∃ first, p.slots.head? = some first := by
    cases hs : p.slots with
    | nil =>
        rw [hs] at hslot
        cases hslot
    | cons first _ => exact ⟨first, rfl⟩
  obtain ⟨last, hlast⟩ : ∃ last, lastSupporting p p.slots = some last := by
    have hmem : slot ∈ p.slots.filter (0 < supported p ·) := List.mem_filter.mpr ⟨hslot, by simpa using hpos⟩
    exact Option.ne_none_iff_exists'.mp fun hnone => by
      rw [List.getLast?_eq_none_iff.mp hnone] at hmem
      cases hmem
  obtain ⟨hdescribed, hpubkey⟩ := described_choose hfirst hret
  rw [hlast, Option.map_some, Option.getD_some] at hdescribed
  constructor
  · intro h
    have hlargest := h.largest
    have hsame := h.described
    rw [hpubkey] at hlargest
    rw [hdescribed, hpubkey] at hsame
    exact ⟨first, last, hfirst, hlast, hlargest, hsame⟩
  · rintro ⟨first', last', hfirst', hlast', hlargest, hsame⟩
    obtain rfl := Option.some.inj (hfirst.symm.trans hfirst')
    obtain rfl := Option.some.inj (hlast.symm.trans hlast')
    refine ⟨?_, ?_, ?_⟩
    · rw [hpubkey]
      exact List.mem_of_mem_head? hfirst
    · rw [hpubkey]
      exact hlargest
    · rw [hdescribed, hpubkey]
      exact hsame

/-- Two slots with tokens: the first can do DH, the second DSA and DH. -/
def twoSlots : Provider where
  counted := true
  slots := [1, 2]
  malloc := true
  listed := true
  tokenInfo := fun slot => some (if slot = 1 then ckfRng else 0)
  mechanismInfo := fun slot m =>
    if m = .dhPkcsKeyPairGen ∨ m = .dhPkcsDerive then some ⟨0, 0, ckfGenerateKeyPair ||| ckfDerive⟩
    else if slot = 2 ∧ m = .dsa then some ⟨0, 0, ckfSign ||| ckfVerify⟩
    else none

theorem pubkeySlot_iff_two : (twoSlots.pk11ChooseSlots {}).2 = 1 ∧ (∃ slot ∈ twoSlots.slots, 0 < supported twoSlots slot) ∧
    (PubkeySlotRight twoSlots (twoSlots.pk11ChooseSlots {}).1 ↔
      ∃ first last, twoSlots.slots.head? = some first ∧ lastSupporting twoSlots twoSlots.slots = some last ∧
        (∀ slot ∈ twoSlots.slots, supported twoSlots slot ≤ supported twoSlots first) ∧
        describe twoSlots last = describe twoSlots first) :=
  ⟨rfl, ⟨2, by decide, by decide +kernel⟩, pubkeySlot_iff {} rfl ⟨2, by decide, by decide +kernel⟩⟩

theorem pubkeySlot_first : (twoSlots.pk11ChooseSlots {}).2 = 1 ∧ (∃ slot ∈ twoSlots.slots, 0 < supported twoSlots slot) ∧
    ¬ PubkeySlotRight twoSlots (twoSlots.pk11ChooseSlots {}).1 := by
  refine ⟨rfl, ⟨2, by decide, by decide +kernel⟩, fun h => ?_⟩
  have hslot : (twoSlots.pk11ChooseSlots {}).1.pubkeySlotid = 1 := by decide +kernel
  have hlargest := h.largest 2 (by decide)
  rw [hslot] at hlargest
  exact absurd hlargest (by decide +kernel)

end OiUserland.Pkcs11.PubkeySlots
