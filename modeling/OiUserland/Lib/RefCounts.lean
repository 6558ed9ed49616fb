import Mathlib.Data.List.Basic

namespace OiUserland.Lib.RefCounts

structure Entry (α : Type) where
  key : α
  count : Nat
  pos : 0 < count

variable {α : Type} [DecidableEq α]

def refs (k : α) : List (Entry α) → Nat
  | [] => 0
  | e :: es => if e.key = k then e.count else refs k es

def hold (k : α) : List (Entry α) → Option (List (Entry α))
  | [] => none
  | e :: es =>
      if e.key = k then some (⟨e.key, e.count + 1, Nat.succ_pos _⟩ :: es) else (hold k es).map (e :: ·)

def release (k : α) : List (Entry α) → Option (Bool × List (Entry α))
  | [] => none
  | e :: es =>
      if e.key = k then
        if h : e.count = 1 then some (true, es)
        else some (false, ⟨e.key, e.count - 1, by have := e.pos; omega⟩ :: es)
      else (release k es).map fun r => (r.1, e :: r.2)

/-- No key has two entries. -/
def OneEntry (l : List (Entry α)) : Prop := (l.map Entry.key).Nodup

variable {l l' : List (Entry α)} {k k' : α} {last : Bool}

theorem refs_eq_zero : refs k l = 0 ↔ k ∉ l.map Entry.key := by
  induction l with
  | nil => simp [refs]
  | cons e es ih =>
      have hpos := e.pos
      by_cases h : e.key = k
      · rw [refs, if_pos h, List.map_cons, h]
        simp only [List.mem_cons, true_or, not_true_eq_false, iff_false]
        omega
      · rw [refs, if_neg h, ih, List.map_cons, List.mem_cons, not_or]
        exact ⟨fun hes => ⟨fun heq => h heq.symm, hes⟩, fun hes => hes.2⟩

theorem hold_none : hold k l = none ↔ refs k l = 0 := by
  induction l with
  | nil => simp [hold, refs]
  | cons e es ih =>
      have hpos := e.pos
      by_cases h : e.key = k
      · rw [hold, refs, if_pos h, if_pos h]
        simp only [reduceCtorEq, false_iff]
        omega
      · rw [hold, refs, if_neg h, if_neg h, Option.map_eq_none_iff, ih]

theorem hold_keys (h : hold k l = some l') : l'.map Entry.key = l.map Entry.key := by
  induction l generalizing l' with
  | nil => cases h
  | cons e es ih =>
      rw [hold] at h
      by_cases hk : e.key = k
      · rw [if_pos hk] at h
        cases h
        rfl
      · rw [if_neg hk] at h
        obtain ⟨es', hes, rfl⟩ := Option.map_eq_some_iff.mp h
        rw [List.map_cons, List.map_cons, ih hes]

theorem hold_refs (h : hold k l = some l') (k' : α) : refs k' l' = refs k' l + if k = k' then 1 else 0 := by
  induction l generalizing l' with
  | nil => cases h
  | cons e es ih =>
      rw [hold] at h
      by_cases hk : e.key = k
      · rw [if_pos hk] at h
        cases h
        by_cases hk' : k = k'
        · simp [refs, hk, hk']
        · have hne : e.key ≠ k' := fun heq => hk' (hk.symm.trans heq)
          simp [refs, hne, hk']
      · rw [if_neg hk] at h
        obtain ⟨es', hes, rfl⟩ := Option.map_eq_some_iff.mp h
        by_cases hk' : e.key = k'
        · have hne : k ≠ k' := fun heq => hk (hk'.trans heq.symm)
          simp [refs, hk', hne]
        · rw [refs, refs, if_neg hk', if_neg hk', ih hes]

theorem OneEntry.hold (hl : OneEntry l) (h : RefCounts.hold k l = some l') : OneEntry l' := by
  rw [OneEntry, hold_keys h]
  exact hl

theorem OneEntry.insert (hl : OneEntry l) (h : refs k l = 0) : OneEntry (⟨k, 1, Nat.one_pos⟩ :: l) :=
  List.nodup_cons.mpr ⟨refs_eq_zero.mp h, hl⟩

theorem insert_refs (h : refs k l = 0) (k' : α) :
    refs k' (⟨k, 1, Nat.one_pos⟩ :: l) = refs k' l + if k = k' then 1 else 0 := by
  by_cases hk : k = k'
  · rw [refs, if_pos hk, if_pos hk, ← hk, h]
  · rw [refs, if_neg hk, if_neg hk, Nat.add_zero]

theorem release_none : release k l = none ↔ refs k l = 0 := by
  induction l with
  | nil => simp [release, refs]
  | cons e es ih =>
      have hpos := e.pos
      by_cases h : e.key = k
      · rw [release, refs, if_pos h, if_pos h]
        by_cases h1 : e.count = 1
        · simp [h1]
        · rw [dif_neg h1]
          simp only [reduceCtorEq, false_iff]
          omega
      · rw [release, refs, if_neg h, if_neg h, Option.map_eq_none_iff, ih]

theorem release_keys (h : release k l = some (last, l')) : (l'.map Entry.key).Sublist (l.map Entry.key) := by
  induction l generalizing l' with
  | nil => cases h
  | cons e es ih =>
      rw [release] at h
      by_cases hk : e.key = k
      · rw [if_pos hk] at h
        by_cases h1 : e.count = 1
        · rw [dif_pos h1] at h
          cases h
          exact List.sublist_cons_self _ _
        · rw [dif_neg h1] at h
          cases h
          exact List.Sublist.refl _
      · rw [if_neg hk] at h
        obtain ⟨⟨b, es'⟩, hes, heq⟩ := Option.map_eq_some_iff.mp h
        cases heq
        exact (ih hes).cons_cons _

theorem OneEntry.release (hl : OneEntry l) (h : RefCounts.release k l = some (last, l')) : OneEntry l' :=
  List.Nodup.sublist (release_keys h) hl

theorem release_refs (hl : OneEntry l) (h : release k l = some (last, l')) (k' : α) :
    refs k' l' + (if k = k' then 1 else 0) = refs k' l := by
  induction l generalizing l' with
  | nil => cases h
  | cons e es ih =>
      have hpos := e.pos
      obtain ⟨hnot, hes⟩ := List.nodup_cons.mp hl
      rw [release] at h
      by_cases hk : e.key = k
      · rw [if_pos hk] at h
        by_cases h1 : e.count = 1
        · rw [dif_pos h1] at h
          cases h
          by_cases hk' : k = k'
          · -- the rest of the list has no entry for the key
            have hzero : refs k' es = 0 := by
              rw [← hk', ← hk]
              exact refs_eq_zero.mpr hnot
            rw [refs, if_pos (hk.trans hk'), if_pos hk', hzero, h1]
          · have hne : e.key ≠ k' := fun heq => hk' (hk.symm.trans heq)
            rw [refs, if_neg hne, if_neg hk', Nat.add_zero]
        · rw [dif_neg h1] at h
          cases h
          by_cases hk' : k = k'
          · rw [refs, refs, if_pos (hk.trans hk'), if_pos (hk.trans hk'), if_pos hk']
            dsimp only
            omega
          · have hne : e.key ≠ k' := fun heq => hk' (hk.symm.trans heq)
            rw [refs, refs, if_neg hne, if_neg hne, if_neg hk', Nat.add_zero]
      · rw [if_neg hk] at h
        obtain ⟨⟨b, es'⟩, heq, hb⟩ := Option.map_eq_some_iff.mp h
        cases hb
        by_cases hk' : e.key = k'
        · have hne : k ≠ k' := fun heq => hk (hk'.trans heq.symm)
          rw [refs, refs, if_pos hk', if_pos hk', if_neg hne, Nat.add_zero]
        · rw [refs, refs, if_neg hk', if_neg hk']
          exact ih hes heq

theorem release_hold (h : hold k l = some l') : release k l' = some (false, l) := by
  induction l generalizing l' with
  | nil => cases h
  | cons e es ih =>
      have hpos := e.pos
      rw [hold] at h
      by_cases hk : e.key = k
      · rw [if_pos hk] at h
        cases h
        have hmore : e.count + 1 ≠ 1 := by omega
        rw [release, if_pos hk, dif_neg hmore]
        simp only [Nat.add_sub_cancel]
      · rw [if_neg hk] at h
        obtain ⟨es', hes, rfl⟩ := Option.map_eq_some_iff.mp h
        rw [release, if_neg hk, ih hes, Option.map_some]

theorem release_insert (k : α) (l : List (Entry α)) : release k (⟨k, 1, Nat.one_pos⟩ :: l) = some (true, l) := by
  rw [release, if_pos rfl, dif_pos rfl]

theorem release_last (hl : OneEntry l) (h : release k l = some (last, l')) : last = true ↔ refs k l' = 0 := by
  induction l generalizing l' with
  | nil => cases h
  | cons e es ih =>
      have hpos := e.pos
      obtain ⟨hnot, hes⟩ := List.nodup_cons.mp hl
      rw [release] at h
      by_cases hk : e.key = k
      · rw [if_pos hk] at h
        by_cases h1 : e.count = 1
        · rw [dif_pos h1] at h
          cases h
          exact iff_of_true rfl (hk ▸ refs_eq_zero.mpr hnot)
        · rw [dif_neg h1] at h
          cases h
          rw [refs, if_pos hk]
          refine iff_of_false Bool.false_ne_true ?_
          dsimp only
          omega
      · rw [if_neg hk] at h
        obtain ⟨⟨b, es'⟩, heq, hb⟩ := Option.map_eq_some_iff.mp h
        cases hb
        rw [refs, if_neg hk]
        exact ih hes heq

end OiUserland.Lib.RefCounts
