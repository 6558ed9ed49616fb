import Mathlib.Data.List.Nodup
import Mathlib.Data.List.Induction

namespace OiUserland.Lib.Dicts

variable {K V A : Type} [DecidableEq K] {d e : List (K × V)} {j k : K} {v : V}

def find (k : K) : List (K × V) → Option V
  | [] => none
  | (j, v) :: d => if j = k then some v else find k d

def put (k : K) (v : V) : List (K × V) → List (K × V)
  | [] => [(k, v)]
  | (j, w) :: d => if j = k then (j, v) :: d else (j, w) :: put k v d

theorem map_put (d : List (K × V)) (k : K) (v : V) :
    (put k v d).map Prod.fst = if k ∈ d.map Prod.fst then d.map Prod.fst else d.map Prod.fst ++ [k] := by
  induction d with
  | nil => rfl
  | cons e d ih =>
      obtain ⟨i, w⟩ := e
      by_cases hi : i = k
      · simp [put, hi]
      · rw [put, if_neg hi, List.map_cons, ih]
        by_cases hk : k ∈ d.map Prod.fst
        · simp only [List.map_cons, List.mem_cons, hk, or_true, if_true]
        · simp only [List.map_cons, List.mem_cons, Ne.symm hi, hk, or_self, if_false, List.cons_append]

theorem find_eq_some (hd : (d.map Prod.fst).Nodup) : find k d = some v ↔ (k, v) ∈ d := by
  induction d with
  | nil => exact ⟨nofun, nofun⟩
  | cons e d ih =>
      obtain ⟨i, w⟩ := e
      rw [List.map_cons, List.nodup_cons] at hd
      by_cases hi : i = k
      · subst hi
        have hv : (i, v) ∉ d := fun hv => hd.1 (List.mem_map.mpr ⟨(i, v), hv, rfl⟩)
        simp [find, hv, eq_comm]
      · simp [find, hi, Ne.symm hi, ih hd.2]

/-- A dictionary lists its keys in the order in which they first came. -/
structure Dict (K V : Type) where
  entries : List (K × V)
  nodup : (entries.map Prod.fst).Nodup

namespace Dict

variable (d e : Dict K V) (k j : K) (v : V)

def empty : Dict K V := ⟨[], List.nodup_nil⟩

def get : Option V := find k d.entries

def set : Dict K V where
  entries := put k v d.entries
  nodup := by
    rw [map_put]
    split
    · exact d.nodup
    · next hk => exact List.nodup_append.mpr ⟨d.nodup, List.nodup_singleton k, fun a ha b hb hab => hk (by
        rw [← List.mem_singleton.mp hb, ← hab]
        exact ha)⟩

def pop : Dict K V where
  entries := d.entries.filter fun e => e.1 ≠ k
  nodup := (List.filter_sublist.map Prod.fst).nodup d.nodup

def update : Dict K V := e.entries.foldl (fun d p => d.set p.1 p.2) d

theorem get_eq_some : d.get k = some v ↔ (k, v) ∈ d.entries := find_eq_some d.nodup

end Dict

section Buckets

variable {l m : List (K × A)}

def Dict.add (d : Dict K (List A)) (k : K) (a : A) : Dict K (List A) :=
  match d.get k with
  | some as => d.set k (as ++ [a])
  | none => d.set k [a]

def group (l : List (K × A)) : Dict K (List A) := l.foldl (fun d p => d.add p.1 p.2) Dict.empty

def Dict.items (d : Dict K (List A)) : List (K × A) := d.entries.flatMap fun e => e.2.map fun a => (e.1, a)

end Buckets

end OiUserland.Lib.Dicts

namespace OiUserland.Lib.Latest

open Dicts

variable {K V : Type} (lt : V → V → Bool)

structure Ordered (l : List (K × V)) : Prop where
  irrefl : ∀ v, ¬ lt v v
  trans : ∀ u v w, lt u v → lt v w → lt u w
  total : ∀ k v w, (k, v) ∈ l → (k, w) ∈ l → v ≠ w → lt v w ∨ lt w v

def Highest (l : List (K × V)) (k : K) (v : V) : Prop := (k, v) ∈ l ∧ ∀ w, (k, w) ∈ l → ¬ lt v w

variable {lt} {l m : List (K × V)} {k : K} {v w : V}

theorem Ordered.subset (h : Ordered lt l) (hm : m ⊆ l) : Ordered lt m :=
  ⟨h.irrefl, h.trans, fun k v w hv hw => h.total k v w (hm hv) (hm hw)⟩

theorem Highest.unique (h : Ordered lt l) (hv : Highest lt l k v) (hw : Highest lt l k w) : v = w := by
  by_contra hne
  rcases h.total k v w hv.1 hw.1 hne with hlt | hlt
  · exact hv.2 w hw.1 hlt
  · exact hw.2 v hv.1 hlt

variable [DecidableEq K]

def keep (lt : V → V → Bool) (v : V) : Option V → V
  | some w => if lt v w then w else v
  | none => v

def later (lt : V → V → Bool) (d : Dict K V) (p : K × V) : Dict K V := d.set p.1 (keep lt p.2 (d.get p.1))

def latest (lt : V → V → Bool) (l : List (K × V)) : Dict K V := l.foldl (later lt) Dict.empty

end OiUserland.Lib.Latest
