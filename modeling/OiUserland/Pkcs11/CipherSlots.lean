import OiUserland.Pkcs11.Slots
import OiUserland.Lib.Minima
import OiUserland.Lib.Runs

namespace OiUserland.Pkcs11.CipherSlots

open Lib.RunningBest Lib.Runs SymmetricCiphers Slots

variable {p : Provider} {g : Globals} {slot : Nat} {memo : Memo} {c : Cipher} {cs : List Cipher} {nids : List Nid}

def askedCiphers (p : Provider) (slot : Nat) (cs : List Cipher) : List Nid :=
  (cs.filter fun c => Provider.usableCipher (p.mechanismInfo slot c.mechType) c).map fun c => c.nid

def askedDigests (p : Provider) (slot : Nat) : List DigestNid :=
  (digestTable.filter fun d => p.offers slot d.mechType [ckfDigest]).map Digest.nid

def Agrees (p : Provider) (slot : Nat) (memo : Memo) (m : Mechanism) : Prop :=
  memo.lastCheckedMech = some m → memo.rv = p.mechanismInfo slot m

def Fresh (memo : Memo) : Prop := memo.lastCheckedMech ≠ some .desCbc

structure Chosen where
  slotid : Nat
  cipherNids : List Nid
  digestNids : List DigestNid

def Chosen.total (x : Chosen) : Nat := x.cipherNids.length + x.digestNids.length

def chosen (g : Globals) : Chosen := ⟨g.slotid, g.cipherNids, g.digestNids⟩

/-- What a slot is good for. Without a token that is nothing. -/
def usable (p : Provider) (slot : Nat) : Chosen :=
  if (p.tokenInfo slot).isSome then ⟨slot, askedCiphers p slot cipherTable, askedDigests p slot⟩ else ⟨slot, [], []⟩

inductive Event
  | chooseSlots (p : Provider)
  | dropDigests

def step : Event → Globals → Option Globals
  | .chooseSlots p, g => some (p.pk11ChooseSlots g).1
  | .dropDigests, g => some { g with digestNids := [] }

def Run (g : Globals) : Prop := Reachable step (fun _ _ => True) (fun g => g = {}) g

end OiUserland.Pkcs11.CipherSlots
