import Mathlib.Data.List.Perm.Subperm

namespace OiUserland.Lib.Mutexes

variable {α : Type}

/-- What one thread holds of a set of mutexes that are not recursive. It is
blocked once it waits for a mutex that it holds: nothing it does after that
happens. -/
structure LockState (α : Type) where
  held : List α := []
  blocked : Bool := false
  deriving DecidableEq

section Operations

variable [DecidableEq α]

def lock (a : α) (m : LockState α) : LockState α :=
  if a ∈ m.held then { m with blocked := true } else { m with held := a :: m.held }

def unlock (a : α) (m : LockState α) : LockState α := { m with held := m.held.erase a }

def lockAll (l : List α) (m : LockState α) : LockState α := l.foldl (fun m a => lock a m) m

def unlockAll (l : List α) (m : LockState α) : LockState α := l.foldl (fun m a => unlock a m) m

variable {a : α} {l : List α} {m : LockState α}

theorem lock_of_notMem (h : a ∉ m.held) : lock a m = { m with held := a :: m.held } := if_neg h

theorem lock_of_mem (h : a ∈ m.held) : lock a m = { m with blocked := true } := if_pos h

theorem unlock_lock (h : a ∉ m.held) : unlock a (lock a m) = m := by
  rw [lock_of_notMem h, unlock, List.erase_cons_head]

theorem blocked_lock (h : m.blocked = true) : (lock a m).blocked = true := by
  by_cases ha : a ∈ m.held
  · rw [lock_of_mem ha]
  · rw [lock_of_notMem ha]
    exact h

theorem blocked_lockAll (h : m.blocked = true) : (lockAll l m).blocked = true := by
  induction l generalizing m with
  | nil => exact h
  | cons a l ih => exact ih (blocked_lock h)

theorem blocked_unlockAll (l : List α) (m : LockState α) : (unlockAll l m).blocked = m.blocked := by
  induction l generalizing m with
  | nil => rfl
  | cons a l ih => exact ih (unlock a m)

theorem held_unlockAll (l : List α) (m : LockState α) : (unlockAll l m).held = m.held.diff l := by
  induction l generalizing m with
  | nil => rfl
  | cons a l ih =>
      rw [List.diff_cons]
      exact ih (unlock a m)

theorem lockAll_of_notMem (hl : l.Nodup) (h : ∀ a ∈ l, a ∉ m.held) :
    lockAll l m = { m with held := l.reverse ++ m.held } := by
  induction l generalizing m with
  | nil => rfl
  | cons a l ih =>
      obtain ⟨hal, hl⟩ := List.nodup_cons.mp hl
      have hfirst := lock_of_notMem (h a (by simp))
      rw [lockAll, List.foldl_cons, hfirst]
      refine (ih hl fun b hb hmem => ?_).trans (by simp)
      rcases List.mem_cons.mp hmem with rfl | hmem
      · exact hal hb
      · exact h b (by simp [hb]) hmem

theorem lockAll_of_mem (ha : a ∈ l) (hm : a ∈ m.held) : (lockAll l m).blocked = true := by
  induction l generalizing m with
  | nil => exact absurd ha (by simp)
  | cons b l ih =>
      rw [lockAll, List.foldl_cons]
      rcases List.mem_cons.mp ha with rfl | ha
      · exact blocked_lockAll (by rw [lock_of_mem hm])
      · by_cases hb : b ∈ m.held
        · rw [lock_of_mem hb]
          exact blocked_lockAll rfl
        · rw [lock_of_notMem hb]
          exact ih ha (List.mem_cons_of_mem _ hm)

theorem append_diff_self (k h : List α) : (k ++ h).diff k = h := by
  induction k with
  | nil => rfl
  | cons a k ih => rw [List.diff_cons, List.cons_append, List.erase_cons_head, ih]

theorem unlockAll_lockAll {l' : List α} (hl : l.Nodup) (h : ∀ a ∈ l, a ∉ m.held) (hp : l'.Perm l) :
    unlockAll l' (lockAll l m) = m := by
  rw [lockAll_of_notMem hl h]
  have hheld := held_unlockAll l' { m with held := l.reverse ++ m.held }
  have hblocked := blocked_unlockAll l' { m with held := l.reverse ++ m.held }
  rw [(hp.trans (List.reverse_perm l).symm).diff_left, append_diff_self] at hheld
  cases hu : unlockAll l' { m with held := l.reverse ++ m.held } with
  | mk held blocked =>
      rw [hu] at hheld hblocked
      cases m
      simp_all

end Operations

def Outcome (blocks : Prop) (m m' : LockState α) : Prop :=
  (blocks → m'.blocked = true) ∧ (¬ blocks → m' = m)

variable {m m' : LockState α} {p q : Prop}

theorem Outcome.refl (m : LockState α) : Outcome False m m := ⟨False.elim, fun _ => rfl⟩

theorem Outcome.congr (h : Outcome p m m') (hpq : p ↔ q) : Outcome q m m' :=
  ⟨fun hq => h.1 (hpq.mpr hq), fun hq => h.2 fun hp => hq (hpq.mp hp)⟩

variable [DecidableEq α] {a : α}

theorem Outcome.locked (ha : a ∉ m.held) (h : Outcome p (lock a m) m') : Outcome p m (unlock a m') := by
  refine ⟨h.1, fun hp => ?_⟩
  rw [h.2 hp, unlock_lock ha]

theorem Outcome.relock (ha : a ∈ m.held) : Outcome True m (unlock a (lock a m)) := by
  refine ⟨fun _ => ?_, fun h => absurd trivial h⟩
  rw [lock_of_mem ha, unlock]

end OiUserland.Lib.Mutexes
