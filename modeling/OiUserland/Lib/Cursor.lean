import Mathlib.Data.Set.Basic

namespace OiUserland.Lib.Cursor

variable {P β : Type} {first : Option P} {next : P → Option P} {ps : List P} {shown : P → β} {S : Set β}

def visit (first : Option P) (next : P → Option P) : Nat → Option P
  | 0 => first
  | k + 1 => (visit first next k).bind next

inductive Follows (next : P → Option P) : Option P → List P → Prop
  | done : Follows next none []
  | step {p : P} {ps : List P} (h : Follows next (next p) ps) : Follows next (some p) (p :: ps)

theorem visit_none (next : P → Option P) (k : Nat) : visit none next k = none := by
  induction k with
  | zero => rfl
  | succ k ih => rw [visit, ih, Option.bind_none]

theorem visit_succ (first : Option P) (next : P → Option P) (k : Nat) :
    visit first next (k + 1) = visit (first.bind next) next k := by
  induction k with
  | zero => rfl
  | succ k ih => rw [visit, ih, visit]

theorem Follows.visit_eq (h : Follows next first ps) (k : Nat) : visit first next k = ps[k]? := by
  induction h generalizing k with
  | done => rw [visit_none, List.getElem?_nil]
  | step _ ih =>
      cases k with
      | zero => rfl
      | succ k => rw [visit_succ, Option.bind_some, ih, List.getElem?_cons_succ]

theorem Follows.map {Q : Type} {next' : Q → Option Q} {g : P → Q} (h : Follows next first ps)
    (hg : ∀ p, next' (g p) = (next p).map g) : Follows next' (first.map g) (ps.map g) := by
  induction h with
  | done => exact .done
  | step _ ih =>
      apply Follows.step
      rw [hg]
      exact ih

structure Enumerates (walk : Nat → Option P) (shown : P → β) (S : Set β) : Prop where
  ends : ∃ n, ∀ k, (walk k).isSome ↔ k < n
  within : ∀ k p, walk k = some p → shown p ∈ S
  once : ∀ b ∈ S, ∃! k, ∃ p, walk k = some p ∧ shown p = b

theorem Follows.enumerates (h : Follows next first ps) (hn : (ps.map shown).Nodup)
    (hS : ∀ b, b ∈ S ↔ b ∈ ps.map shown) : Enumerates (visit first next) shown S where
  ends := by
    refine ⟨ps.length, fun k => ?_⟩
    rw [h.visit_eq]
    simp
  within := by
    intro k p hp
    rw [h.visit_eq] at hp
    exact (hS _).mpr (List.mem_map_of_mem (List.mem_of_getElem? hp))
  once := by
    intro b hb
    obtain ⟨p, hp, rfl⟩ := List.mem_map.mp ((hS b).mp hb)
    obtain ⟨k, hk⟩ := List.mem_iff_getElem?.mp hp
    refine ⟨k, ⟨p, (h.visit_eq k).trans hk, rfl⟩, ?_⟩
    rintro j ⟨q, hq, hqp⟩
    rw [h.visit_eq] at hq
    have hj : j < (ps.map shown).length := by
      rw [List.length_map]
      exact (List.getElem?_eq_some_iff.mp hq).1
    apply (List.getElem?_inj hj hn).mp
    rw [List.getElem?_map, List.getElem?_map, hq, hk, Option.map_some, Option.map_some, hqp]

end OiUserland.Lib.Cursor
