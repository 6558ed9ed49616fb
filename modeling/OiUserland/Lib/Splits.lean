
namespace OiUserland.Lib.Splits

variable {α : Type} {d : α} {l x z : List α} {ls ms : List (List α)}

def behind (d : α) (ls : List (List α)) : List α := ls.flatMap (d :: ·)

def joined (d : α) : List (List α) → List α
  | [] => []
  | l :: ls => l ++ behind d ls

theorem behind_cons (d : α) (l : List α) (ls : List (List α)) : behind d (l :: ls) = d :: (l ++ behind d ls) := rfl

theorem behind_append (d : α) (ls ms : List (List α)) :
    behind d (ls ++ ms) = behind d ls ++ behind d ms := List.flatMap_append

theorem intercalate_eq (d : α) (ls : List (List α)) : [d].intercalate ls = joined d ls := by
  induction ls with
  | nil => rfl
  | cons l ls ih =>
      cases ls with
      | nil => simp [joined, behind]
      | cons m ls =>
          rw [List.intercalate_cons_cons, ih, joined, joined, behind_cons, List.append_assoc, List.singleton_append]

section Splitting

variable [DecidableEq α]

theorem not_mem_of_mem_splitOn {p : List α} (hx : x ∈ p.splitOn d) : d ∉ x := by
  induction p generalizing x with
  | nil =>
      obtain rfl := List.mem_singleton.mp hx
      exact List.not_mem_nil
  | cons a p ih =>
      rw [List.splitOn_cons_eq_if_modifyHead] at hx
      split at hx
      · rcases List.mem_cons.mp hx with rfl | hx
        · exact List.not_mem_nil
        · exact ih hx
      · next ha =>
          obtain ⟨y, c, hc⟩ := List.exists_cons_of_ne_nil (List.splitOn_ne_nil d p)
          rw [hc, List.modifyHead_cons] at hx
          rcases List.mem_cons.mp hx with rfl | hx
          · have hy : d ∉ y := ih (by rw [hc]; exact List.mem_cons_self ..)
            exact List.not_mem_cons_of_ne_of_not_mem (fun h => ha (beq_iff_eq.mpr h.symm)) hy
          · refine ih ?_
            rw [hc]
            exact List.mem_cons_of_mem _ hx

theorem joined_splitOn (d : α) (p : List α) : joined d (p.splitOn d) = p := by
  rw [← intercalate_eq, List.intercalate_splitOn]

theorem joined_inj (hl : ∀ l ∈ ls, d ∉ l) (hm : ∀ m ∈ ms, d ∉ m) (hls : ls ≠ []) (hms : ms ≠ [])
    (h : joined d ls = joined d ms) : ls = ms := by
  rw [← List.splitOn_intercalate d hl hls, ← List.splitOn_intercalate d hm hms, intercalate_eq, intercalate_eq, h]

end Splitting

theorem first_line (hx : d ∉ x) (h : l ++ behind d ls = x ++ z) : ∃ y, l = x ++ y ∧ z = y ++ behind d ls := by
  rcases List.append_eq_append_iff.mp h with ⟨y, rfl, hy⟩ | ⟨y, rfl, rfl⟩
  · cases ls with
    | nil =>
        obtain ⟨rfl, rfl⟩ := List.append_eq_nil_iff.mp hy.symm
        exact ⟨[], by simp, rfl⟩
    | cons m ls =>
        rw [behind_cons] at hy
        cases y with
        | nil => exact ⟨[], by simp, hy.symm⟩
        | cons c y =>
            obtain rfl := (List.cons.inj hy).1
            exact absurd (List.mem_append_right l (List.mem_cons_self ..)) hx
  · exact ⟨y, rfl, rfl⟩

def unlines (d : α) (ls : List (List α)) : List α := ls.flatMap (· ++ [d])

theorem unlines_cons (d : α) (l : List α) (ls : List (List α)) : unlines d (l :: ls) = l ++ d :: unlines d ls :=
  (List.append_assoc l [d] _).trans rfl

theorem unlines_append (d : α) (ls ms : List (List α)) : unlines d (ls ++ ms) = unlines d ls ++ unlines d ms :=
  List.flatMap_append

theorem count_unlines_cons [DecidableEq α] (d : α) (l : List α) (ls : List (List α)) :
    (unlines d (l :: ls)).count d = l.count d + (unlines d ls).count d + 1 := by
  rw [unlines_cons, List.count_append, List.count_cons_self, Nat.add_assoc]

theorem length_le_count [DecidableEq α] (d : α) (ls : List (List α)) : ls.length ≤ (unlines d ls).count d := by
  induction ls with
  | nil => exact Nat.zero_le _
  | cons l ls ih =>
      rw [count_unlines_cons, List.length_cons]
      omega

theorem count_unlines_eq [DecidableEq α] (d : α) (ls : List (List α)) :
    (unlines d ls).count d = ls.length ↔ ∀ l ∈ ls, d ∉ l := by
  induction ls with
  | nil => exact iff_of_true rfl nofun
  | cons l ls ih =>
      have hle := length_le_count d ls
      rw [count_unlines_cons, List.length_cons, List.forall_mem_cons, ← ih, ← List.count_eq_zero]
      omega

theorem unlines_inj (hlen : ls.length = ms.length) (hl : ∀ l ∈ ls, d ∉ l) (hm : ∀ m ∈ ms, d ∉ m)
    (h : unlines d ls ++ x = unlines d ms ++ z) : ls = ms ∧ x = z := by
  induction ls generalizing ms with
  | nil =>
      obtain rfl := List.length_eq_zero_iff.mp hlen.symm
      exact ⟨rfl, h⟩
  | cons l ls ih =>
      obtain ⟨m, ms, rfl⟩ := List.exists_cons_of_length_eq_add_one hlen.symm
      rw [unlines_cons, unlines_cons, List.append_assoc, List.append_assoc, List.cons_append, List.cons_append] at h
      have hlm : l = m ∧ unlines d ls ++ x = unlines d ms ++ z := by
        have hbl : d ∉ l := hl l (List.mem_cons_self ..)
        have hbm : d ∉ m := hm m (List.mem_cons_self ..)
        rcases List.append_eq_append_iff.mp h with ⟨y, rfl, hy⟩ | ⟨y, rfl, hy⟩
        · cases y with
          | nil => exact ⟨by simp, (List.cons.inj hy).2⟩
          | cons c y =>
              obtain rfl := (List.cons.inj hy).1
              exact absurd (List.mem_append_right l (List.mem_cons_self ..)) hbm
        · cases y with
          | nil => exact ⟨by simp, (List.cons.inj hy).2.symm⟩
          | cons c y =>
              obtain rfl := (List.cons.inj hy).1
              exact absurd (List.mem_append_right m (List.mem_cons_self ..)) hbl
      obtain ⟨rfl, hrest⟩ := hlm
      obtain ⟨rfl, hxz⟩ := ih (Nat.succ.inj hlen) (fun k hk => hl k (List.mem_cons_of_mem _ hk))
        (fun k hk => hm k (List.mem_cons_of_mem _ hk)) hrest
      exact ⟨rfl, hxz⟩

section Separators

variable {sep r r' : List α}

/-- The pieces of a list that is read backwards: `skip` elements of a separator have still to be passed,
and `piece` has been read since the last one. -/
def rpieces [DecidableEq α] (sep : List α) : Nat → List α → List α → List (List α)
  | _, piece, [] => [piece]
  | skip + 1, piece, _ :: l => rpieces sep skip piece l
  | 0, piece, x :: l =>
      if sep.reverse <+: x :: l then rpieces sep (sep.length - 1) [] l ++ [piece] else rpieces sep 0 (x :: piece) l

def rsplit [DecidableEq α] (sep l : List α) : List (List α) := rpieces sep 0 [] l.reverse

def AfterLast (sep l r : List α) : Prop :=
  ∃ pre, l = pre ++ r ∧ (pre = [] ∨ sep <:+ pre) ∧ ∀ x y, r = x ++ y → x ≠ [] → ¬ sep <:+ pre ++ x

theorem AfterLast.unique (h : AfterLast sep l r) (h' : AfterLast sep l r') : r = r' := by
  obtain ⟨pre, rfl, hpre, hlast⟩ := h
  obtain ⟨pre', heq, hpre', hlast'⟩ := h'
  rcases List.append_eq_append_iff.mp heq with ⟨x, rfl, rfl⟩ | ⟨x, rfl, rfl⟩
  · by_cases hx : x = []
    · rw [hx, List.nil_append]
    · have hsep : sep <:+ pre ++ x := hpre'.resolve_left fun hnil => hx (List.append_eq_nil_iff.mp hnil).2
      exact absurd hsep (hlast x r' rfl hx)
  · by_cases hx : x = []
    · rw [hx, List.nil_append]
    · have hsep : sep <:+ pre' ++ x := hpre.resolve_left fun hnil => hx (List.append_eq_nil_iff.mp hnil).2
      exact absurd hsep (hlast' x r rfl hx)

theorem rpieces_getLast [DecidableEq α] (sep piece l : List α) : ∃ u v, l = u ++ v ∧
    (rpieces sep 0 piece l).getLast? = some (u.reverse ++ piece) ∧ (v = [] ∨ sep.reverse <+: v) ∧
      ∀ x y, u = x ++ y → y ≠ [] → ¬ sep.reverse <+: y ++ v := by
  induction l generalizing piece with
  | nil => exact ⟨[], [], rfl, rfl, .inl rfl, fun x y hu hy => absurd (List.append_eq_nil_iff.mp hu.symm).2 hy⟩
  | cons a l ih =>
      rw [rpieces]
      by_cases hsep : sep.reverse <+: a :: l
      · rw [if_pos hsep]
        exact ⟨[], a :: l, rfl, List.getLast?_concat, .inr hsep,
          fun x y hu hy => absurd (List.append_eq_nil_iff.mp hu.symm).2 hy⟩
      · rw [if_neg hsep]
        obtain ⟨u, v, rfl, hlast, hv, hnone⟩ := ih (a :: piece)
        refine ⟨a :: u, v, rfl, ?_, hv, fun x y hu hy => ?_⟩
        · rw [hlast, List.reverse_cons, List.append_assoc]
          rfl
        · cases x with
          | nil =>
              obtain rfl : a :: u = y := hu
              exact hsep
          | cons b x => exact hnone x y (List.cons.inj hu).2 hy

theorem rsplit_getLast [DecidableEq α] : (rsplit sep l).getLast? = some r ↔ AfterLast sep l r := by
  obtain ⟨u, v, hl, hlast, hv, hnone⟩ := rpieces_getLast sep [] l.reverse
  have hafter : AfterLast sep l u.reverse := by
    refine ⟨v.reverse, ?_, hv.imp (fun hnil => ?_) (fun hsep => ?_), fun x y hu hx hsep => ?_⟩
    · rw [← List.reverse_append, ← hl, List.reverse_reverse]
    · rw [hnil, List.reverse_nil]
    · rwa [← List.reverse_prefix, List.reverse_reverse]
    · refine hnone y.reverse x.reverse ?_ (fun hnil => hx (List.reverse_eq_nil_iff.mp hnil)) ?_
      · rw [← List.reverse_append, ← hu, List.reverse_reverse]
      · rwa [← List.reverse_suffix, List.reverse_reverse, List.reverse_append, List.reverse_reverse]
  rw [rsplit, hlast, List.append_nil, Option.some.injEq]
  exact ⟨fun heq => heq ▸ hafter, fun h => hafter.unique h⟩

end Separators

end OiUserland.Lib.Splits
