import Mathlib.Data.List.DropRight
import OiUserland.Lib.CStrings
import OiUserland.Pkcs11.Types

namespace OiUserland.Pkcs11.TokenInfo

open Lib.CStrings Types

abbrev Field (len : Nat) := { f : List Char // f.length = len }

abbrev CString := { s : List Char // '\x00' ∉ s }

def tokenLabelSize : Nat := 32
def tokenManufacturerSize : Nat := 32
def tokenModelSize : Nat := 16
def tokenSerialSize : Nat := 16

/-- CK_TOKEN_INFO, in memory that may never have been filled in. -/
structure CkTokenInfo where
  label : Field tokenLabelSize
  manufacturerID : Field tokenManufacturerSize
  model : Field tokenModelSize
  serialNumber : Field tokenSerialSize

structure Pkcs11Uri where
  token : Option CString := none
  manuf : Option CString := none
  model : Option CString := none
  serial : Option CString := none

def uriMatchTokenInfo (name field : List Char) (len : Nat) : Int :=
  strncmp (if name.length > len then len else name.length) name field

def mismatch {len : Nat} (name : Option CString) (field : Field len) : Bool :=
  match name with
  | none => false
  | some name => uriMatchTokenInfo name.val field.val len ≠ 0

def checkUri (uri : Pkcs11Uri) (info : CkTokenInfo) : Nat :=
  if mismatch uri.token info.label then 0
  else if mismatch uri.manuf info.manufacturerID then 0
  else if mismatch uri.model info.model then 0
  else if mismatch uri.serial info.serialNumber then 0
  else 1

/-- A call of pk11_check_token_attrs: whether there is memory, what C_GetTokenInfo returns, and what is in
the memory after it, which is the info of the token when it succeeds. -/
structure Call where
  uri : Pkcs11Uri
  malloc : Bool := true
  getTokenInfo : Rv := ckrOk
  memory : CkTokenInfo

/-- pk11_check_token_attrs, with what its static pointer points to. The memory stays when it could not be
filled in. -/
def pk11CheckTokenAttrs (c : Call) (tokenInfo : Option CkTokenInfo) : Nat × Option CkTokenInfo :=
  match tokenInfo with
  | some info => (checkUri c.uri info, tokenInfo)
  | none =>
      if !c.malloc then (0, none)
      else if c.getTokenInfo ≠ ckrOk then (0, some c.memory)
      else (checkUri c.uri c.memory, some c.memory)

def unpadded (field : List Char) : List Char := field.rdropWhile (· = ' ')

def Each (p : List Char → List Char → Nat → Prop) (uri : Pkcs11Uri) (info : CkTokenInfo) : Prop :=
  (∀ a ∈ uri.token, p a.val info.label.val tokenLabelSize) ∧ (∀ a ∈ uri.manuf, p a.val info.manufacturerID.val tokenManufacturerSize) ∧
    (∀ a ∈ uri.model, p a.val info.model.val tokenModelSize) ∧ ∀ a ∈ uri.serial, p a.val info.serialNumber.val tokenSerialSize

def Equal : Pkcs11Uri → CkTokenInfo → Prop := Each fun name field _ => name = unpadded field

def Begin : Pkcs11Uri → CkTokenInfo → Prop := Each fun name field len => name.take len <+: field

structure Known where
  tokenInfo : Option CkTokenInfo := none
  obtained : Option CkTokenInfo := none

def Known.after (k : Known) (c : Call) : Known where
  tokenInfo := (pk11CheckTokenAttrs c k.tokenInfo).2
  obtained := if k.tokenInfo.isNone ∧ c.malloc ∧ c.getTokenInfo = ckrOk then some c.memory else k.obtained

/-- After a sequence of calls. -/
def known (calls : List Call) : Known := calls.foldl Known.after {}

/-- The value is 1 exactly when a token info that was obtained has the attributes. -/
def Meets (k : Known) (c : Call) : Prop :=
  (pk11CheckTokenAttrs c k.tokenInfo).1 = 1 ↔ ∃ info, (k.after c).obtained = some info ∧ Equal c.uri info

def Distinct (k : Known) (c : Call) : Prop :=
  match k.tokenInfo with
  | some info => if k.obtained.isNone then ¬ Begin c.uri info else Begin c.uri info → Equal c.uri info
  | none => c.malloc = true → c.getTokenInfo = ckrOk → Begin c.uri c.memory → Equal c.uri c.memory

variable {name field : List Char} {len : Nat} {uri : Pkcs11Uri} {info : CkTokenInfo} {k : Known} {c : Call}

theorem uriMatchTokenInfo_eq (hname : '\x00' ∉ name) : uriMatchTokenInfo name field len = 0 ↔ name.take len <+: field := by
  rw [uriMatchTokenInfo]
  by_cases hlen : name.length > len
  · rw [if_pos hlen]
    exact strncmp_take hname (Nat.le_of_lt hlen)
  · rw [if_neg hlen, strncmp_take hname (Nat.le_refl _), List.take_length, List.take_of_length_le (Nat.not_lt.mp hlen)]

theorem mismatch_iff {name : Option CString} {field : Field len} :
    mismatch name field = false ↔ ∀ a ∈ name, a.val.take len <+: field.val := by
  cases name with
  | none => exact ⟨fun _ _ => nofun, fun _ => rfl⟩
  | some a =>
      have hmatch := @uriMatchTokenInfo_eq a.val field.val len a.property
      simpa [mismatch] using hmatch

theorem checkUri_iff : checkUri uri info = 1 ↔ Begin uri info := by
  rw [Begin, Each, ← mismatch_iff, ← mismatch_iff, ← mismatch_iff, ← mismatch_iff, checkUri]
  cases mismatch uri.token info.label with
  | true => simp
  | false =>
      cases mismatch uri.manuf info.manufacturerID with
      | true => simp
      | false =>
          cases mismatch uri.model info.model with
          | true => simp
          | false => cases mismatch uri.serial info.serialNumber <;> simp

theorem Each.mono {p q : List Char → List Char → Nat → Prop} (hpq : ∀ name field len, p name field len → q name field len)
    (h : Each p uri info) : Each q uri info :=
  ⟨fun a ha => hpq _ _ _ (h.1 a ha), fun a ha => hpq _ _ _ (h.2.1 a ha), fun a ha => hpq _ _ _ (h.2.2.1 a ha),
    fun a ha => hpq _ _ _ (h.2.2.2 a ha)⟩

theorem begin_of_equal (h : Equal uri info) : Begin uri info := by
  refine Each.mono (fun name field len heq => ?_) h
  rw [heq]
  exact (List.take_prefix _ _).trans (List.rdropWhile_prefix _ _)

def Consistent (k : Known) : Prop := k.obtained = k.tokenInfo ∨ k.obtained = none

theorem Consistent.after (h : Consistent k) (c : Call) : Consistent (k.after c) := by
  obtain ⟨tokenInfo, obtained⟩ := k
  cases tokenInfo with
  | some info => exact h
  | none =>
      have hnone : obtained = none := h.elim id id
      subst hnone
      cases hm : c.malloc with
      | false => simp [Consistent, Known.after, hm]
      | true =>
          by_cases hrv : c.getTokenInfo = ckrOk
          · simp [Consistent, Known.after, pk11CheckTokenAttrs, hm, hrv]
          · simp [Consistent, Known.after, hrv]

theorem consistent_known (calls : List Call) : Consistent (known calls) := by
  induction calls using List.reverseRecOn with
  | nil => exact .inl rfl
  | append_singleton calls c ih =>
      rw [known, List.foldl_append]
      exact ih.after c

theorem meets_iff (h : Consistent k) (c : Call) : Meets k c ↔ Distinct k c := by
  have hiff {info : CkTokenInfo} : (Begin c.uri info ↔ Equal c.uri info) ↔ (Begin c.uri info → Equal c.uri info) :=
    ⟨Iff.mp, fun himp => ⟨himp, begin_of_equal⟩⟩
  obtain ⟨tokenInfo, obtained⟩ := k
  cases tokenInfo with
  | some info =>
      rcases h with hsome | hnone
      · obtain rfl : obtained = some info := hsome
        have hexists : (∃ i, (some info = some i) ∧ Equal c.uri i) ↔ Equal c.uri info := by simp
        change (checkUri c.uri info = 1 ↔ ∃ i, some info = some i ∧ Equal c.uri i) ↔ (Begin c.uri info → Equal c.uri info)
        rw [checkUri_iff, hexists, hiff]
      · obtain rfl : obtained = none := hnone
        change (checkUri c.uri info = 1 ↔ ∃ i, none = some i ∧ Equal c.uri i) ↔ ¬ Begin c.uri info
        rw [checkUri_iff]
        simp
  | none =>
      have hnone : obtained = none := h.elim id id
      subst hnone
      rw [Meets, Distinct, Known.after, pk11CheckTokenAttrs]
      cases hm : c.malloc with
      | false => simp
      | true =>
          by_cases hrv : c.getTokenInfo = ckrOk
          · simp [hrv, checkUri_iff, hiff]
          · simp [hrv]

/-- In any sequence of calls, a call tells whether the token that is known has the attributes exactly when
they are not mistaken for beginnings, and memory that was never filled in does not match. -/
theorem token_attrs_iff (calls : List Call) (c : Call) : Meets (known calls) c ↔ Distinct (known calls) c :=
  meets_iff (consistent_known calls) c

def blankInfo (label : Field tokenLabelSize) : CkTokenInfo :=
  ⟨label, ⟨List.replicate 32 ' ', rfl⟩, ⟨List.replicate 16 ' ', rfl⟩, ⟨List.replicate 16 ' ', rfl⟩⟩

/-- The label is only compared with as much of it as the attribute has. After a failure of C_GetTokenInfo
a URI without attributes matches, although no info was obtained. -/
theorem token_attrs_mistaken : ∃ info : CkTokenInfo,
    ¬ Meets (known []) { uri := { token := some ⟨['S', 'u', 'n'], by decide⟩ }, memory := info } ∧
      ¬ Meets (known [{ uri := {}, getTokenInfo := 1, memory := info }]) { uri := {}, memory := info } := by
  refine ⟨blankInfo ⟨['S', 'u', 'n', ' ', 'T'] ++ List.replicate 27 ' ', rfl⟩, fun h => ?_, fun h => ?_⟩
  · obtain ⟨info, hinfo, hequal⟩ := h.mp (by decide)
    cases hinfo
    exact absurd (hequal.1 _ rfl) (by decide)
  · obtain ⟨info, hinfo, -⟩ := h.mp (by decide)
    cases hinfo

end OiUserland.Pkcs11.TokenInfo
