import Mathlib.Data.List.Basic

namespace OiUserland.Lib.Faults

/-- The ways in which a computation over raw memory can go wrong: a read outside of
its buffer, a write outside of its array, a loop that goes round forever, an int
that overflows. -/
inductive Fault
  | badRead
  | badWrite
  | endless
  | overflow
  deriving DecidableEq

abbrev Run := Except Fault

def byte (buf : List UInt8) (i : Nat) : Run Nat :=
  match buf[i]? with
  | some b => .ok b.toNat
  | none => .error .badRead

/-- Whatever `x` yields satisfies `Q`, and `x` fails in an allowed way only. -/
def Ensures {α : Type} (allow : Fault → Prop) (x : Run α) (Q : α → Prop) : Prop :=
  match x with
  | .ok a => Q a
  | .error e => allow e

def NoOverrun (e : Fault) : Prop := e = .endless

def AnyFault (_ : Fault) : Prop := True

def NoFault (_ : Fault) : Prop := False

section Rules

variable {α β : Type} {allow : Fault → Prop} {x : Run α} {f : α → Run β}

theorem ensures_pure {Q : α → Prop} {a : α} (h : Q a) : Ensures allow (pure a) Q := h

theorem ensures_error {Q : α → Prop} {e : Fault} (h : allow e) : Ensures allow (.error e : Run α) Q := h

theorem ensures_any {Q : α → Prop} (h : ∀ a, Q a) : Ensures AnyFault x Q := by
  cases x with
  | error e => exact ensures_error trivial
  | ok a => exact h a

theorem ensures_mono {P Q : α → Prop} (h : Ensures allow x P) (hPQ : ∀ a, P a → Q a) : Ensures allow x Q := by
  cases x with
  | error e => exact h
  | ok a => exact hPQ a h

theorem ensures_bind {P : α → Prop} {Q : β → Prop} (h : Ensures allow x P)
    (hf : ∀ a, P a → Ensures allow (f a) Q) : Ensures allow (x >>= f) Q := by
  cases x with
  | error e => exact h
  | ok a => exact hf a h

theorem ensures_and {P Q : α → Prop} (hP : Ensures allow x P) (hQ : Ensures allow x Q) :
    Ensures allow x fun a => P a ∧ Q a := by
  cases x with
  | error e => exact hP
  | ok a => exact ⟨hP, hQ⟩

theorem Ensures.of_ok {Q : α → Prop} {a : α} (h : Ensures allow x Q) (hx : x = .ok a) : Q a := by
  subst hx
  exact h

theorem ensures_self {P : α → Prop} (h : Ensures allow x P) : Ensures allow x fun a => P a ∧ x = .ok a := by
  cases x with
  | error e => exact h
  | ok a => exact ⟨h, rfl⟩

theorem exists_of_noFault {Q : α → Prop} (h : Ensures NoFault x Q) : ∃ a, x = .ok a ∧ Q a := by
  cases x with
  | error e => exact h.elim
  | ok a => exact ⟨a, rfl, h⟩

theorem bind_eq_ok {b : β} : x >>= f = .ok b ↔ ∃ a, x = .ok a ∧ f a = .ok b := by
  constructor
  · intro h
    cases x with
    | error e => exact absurd h nofun
    | ok a => exact ⟨a, rfl, h⟩
  · rintro ⟨a, rfl, h⟩
    exact h

theorem byte_eq {buf : List UInt8} {i : Nat} (h : i < buf.length) : byte buf i = .ok buf[i].toNat := by
  rw [byte, List.getElem?_eq_getElem h]

end Rules

section Slots

variable {σ η : Type}

/-- A loop that fills the slots of an array one after the other, from slot `i` on
and `k` times at most, until one of the calls returns an error. The rest of
the state is passed along. -/
def eachSlot (fill : Nat → σ → η → Run (Int × σ × η)) (i : Nat) : Nat → List σ → η → Run (Int × List σ × η)
  | 0, slots, h => pure (0, slots, h)
  | k + 1, slots, h =>
      match slots[i]? with
      | none => .error .badWrite
      | some s => do
          let (rval, s, h) ← fill i s h
          if rval ≠ 0 then pure (rval, slots.set i s, h)
          else eachSlot fill (i + 1) k (slots.set i s) h

variable {allow : Fault → Prop} {fill : Nat → σ → η → Run (Int × σ × η)}

/-- The rule for a filling loop: `Inv i` holds when the slots before `i` have been
filled, and an error leaves the loop with `Q`. -/
theorem ensures_eachSlot {n : Nat} (Inv : Nat → List σ → η → Prop) {Q : Int × List σ × η → Prop}
    (hlen : ∀ i slots h, Inv i slots h → slots.length = n)
    (hfill : ∀ i slots h s, i < n → Inv i slots h → slots[i]? = some s →
      Ensures allow (fill i s h) fun r =>
        if r.1 = 0 then Inv (i + 1) (slots.set i r.2.1) r.2.2 else Q (r.1, slots.set i r.2.1, r.2.2))
    (hdone : ∀ slots h, Inv n slots h → Q (0, slots, h)) {i k : Nat} {slots : List σ} {h : η}
    (hik : i + k = n) (hinv : Inv i slots h) : Ensures allow (eachSlot fill i k slots h) Q := by
  induction k generalizing i slots h with
  | zero =>
      have hi : i = n := by omega
      exact hdone slots h (hi ▸ hinv)
  | succ k ih =>
      have hi : i < slots.length := by
        rw [hlen i slots h hinv]
        omega
      have hs : slots[i]? = some slots[i] := List.getElem?_eq_getElem hi
      simp only [eachSlot, hs]
      refine ensures_bind (hfill i slots h slots[i] (by omega) hinv hs) ?_
      rintro ⟨rval, s, h'⟩ hr
      by_cases h0 : rval = 0
      · simp only [h0, ↓reduceIte] at hr
        simp only [h0, ne_eq, not_true_eq_false, ↓reduceIte]
        exact ih (by omega) hr
      · simp only [h0, ↓reduceIte] at hr
        simp only [ne_eq, h0, not_false_eq_true, ↓reduceIte]
        exact hr

end Slots

end OiUserland.Lib.Faults
