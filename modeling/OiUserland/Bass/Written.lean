import OiUserland.Bass.Parses

namespace OiUserland.Bass.Written

open Lib.KeptLines Makefiles Parts

def written (k : Keyword) (value : Line) : Line := Item.padded (k.name ++ ['=']) ++ (strip value ++ ['\n'])

def readBack (value : Line) : Line := (strip value ++ ['\n']).dropWhile isSpace

variable {k j : Keyword} {value s p r : Line} {i : Nat} {idx : Option Nat}

theorem mem_name {c : Char} (h : c ∈ k.name) : c ≠ '=' ∧ c ≠ '\n' ∧ c ≠ '\\' ∧ isSpace c = false := by
  have hall : k.name.all (fun c => decide (c ≠ '=' ∧ c ≠ '\n' ∧ c ≠ '\\' ∧ isSpace c = false)) = true := by
    cases k <;> decide
  exact of_decide_eq_true (List.all_eq_true.mp hall c h)

theorem name_ne_nil : k.name ≠ [] := by cases k <;> decide

theorem mem_all (k : Keyword) : k ∈ Keyword.all := by cases k <;> decide

theorem behind_self (p s : Line) : behind p (p ++ s) = some s := by
  induction p with
  | nil => rfl
  | cons c p ih => rw [List.cons_append, behind, if_pos rfl, ih]

theorem eq_of_behind (h : behind p s = some r) : s = p ++ r := by
  induction p generalizing s with
  | nil => exact Option.some.inj h
  | cons c p ih =>
      cases s with
      | nil => cases h
      | cons x s =>
          rw [behind] at h
          by_cases hc : c = x
          · rw [if_pos hc] at h
            rw [hc, ih h, List.cons_append]
          · rw [if_neg hc] at h
            cases h

theorem dropWhile_name (k : Keyword) (s : Line) : (k.name ++ s).dropWhile isSpace = k.name ++ s := by
  cases hname : k.name with
  | nil => exact absurd hname name_ne_nil
  | cons c l =>
      have hc := (mem_name (k := k) (c := c) (by rw [hname]; exact List.mem_cons_self ..)).2.2.2
      rw [List.cons_append, List.dropWhile_cons_of_neg (by simp [hc])]

theorem name_injective (h : j.name = k.name) : j = k := by
  have hall : (Keyword.all.all fun j => Keyword.all.all fun k => decide (j.name = k.name → j = k)) = true := by decide
  exact of_decide_eq_true (List.all_eq_true.mp (List.all_eq_true.mp hall j (mem_all j)) k (mem_all k)) h

theorem takeWhile_stop {u : Line} (hu : '=' ∉ u) (v : Line) : (u ++ '=' :: v).takeWhile (· ≠ '=') = u := by
  have hall : ∀ d ∈ u, decide (d ≠ '=') = true := by
    intro d hd
    refine decide_eq_true fun heq => hu ?_
    rw [← heq]
    exact hd
  rw [List.takeWhile_append_of_pos hall, List.takeWhile_cons_of_neg (by simp), List.append_nil]

theorem definition_ne (hj : j ≠ k) (s : Line) : definition j (k.name ++ '=' :: s) = none := by
  rw [definition, dropWhile_name]
  cases hb : behind j.name (k.name ++ '=' :: s) with
  | none => rfl
  | some r =>
      rw [Option.map_some]
      cases hr : r.dropWhile isSpace with
      | nil => rfl
      | cons c t =>
          dsimp only
          refine if_neg fun hc => hj (name_injective ?_)
          -- both names end at the first equals sign
          have hsplit := List.takeWhile_append_dropWhile (p := isSpace) (l := r)
          rw [hr, hc] at hsplit
          have hline := eq_of_behind hb
          rw [← hsplit, ← List.append_assoc] at hline
          have hspaces : ∀ d ∈ r.takeWhile isSpace, isSpace d = true := fun d hd => List.mem_takeWhile_imp hd
          have hk : '=' ∉ k.name := fun h => (mem_name h).1 rfl
          have hjs : '=' ∉ j.name ++ r.takeWhile isSpace := by
            intro h
            rcases List.mem_append.mp h with h | h
            · exact (mem_name h).1 rfl
            · exact absurd (hspaces _ h) (by decide)
          have heq := congrArg (List.takeWhile (· ≠ '=')) hline
          rw [takeWhile_stop hk, takeWhile_stop hjs] at heq
          have hnil : r.takeWhile isSpace = [] := by
            refine List.eq_nil_iff_forall_not_mem.mpr fun d hd => ?_
            have hmem : d ∈ k.name := by
              rw [heq]
              exact List.mem_append_right _ hd
            exact Bool.eq_false_iff.mp (mem_name hmem).2.2.2 (hspaces d hd)
          rw [heq, hnil, List.append_nil]

theorem written_eq (k : Keyword) (value : Line) : ∃ n, written k value = k.name ++ '=' :: (List.replicate n ' ' ++ (strip value ++ ['\n'])) := by
  refine ⟨24 - (k.name ++ ['=']).length, ?_⟩
  simp only [written, Item.padded, List.append_assoc, List.cons_append, List.nil_append]

theorem dropWhile_blanks (n : Nat) (s : Line) : (List.replicate n ' ' ++ s).dropWhile isSpace = s.dropWhile isSpace := by
  apply List.dropWhile_append_of_pos
  intro c hc
  rw [List.eq_of_mem_replicate hc]
  rfl

theorem mem_strip {c : Char} (h : c ∈ strip value) : c ∈ value :=
  (List.dropWhile_suffix _).subset ((List.rdropWhile_prefix _ _).subset h)

theorem readBack_suffix (value : Line) : readBack value <:+ strip value ++ ['\n'] := List.dropWhile_suffix _

theorem definition_written (k : Keyword) (h : '\\' ∉ value) : definition k (written k value) = some (readBack value, false) := by
  obtain ⟨n, hn⟩ := written_eq k value
  have hno : (readBack value).dropWhile (· ≠ '\\') = [] := by
    apply List.dropWhile_eq_nil_iff.mpr
    intro c hc
    apply decide_eq_true
    rintro rfl
    rcases List.mem_append.mp ((readBack_suffix value).subset hc) with hc | hc
    · exact h (mem_strip hc)
    · exact absurd hc (by decide)
  have hbehind : (behind k.name ((written k value).dropWhile isSpace)).map (List.dropWhile isSpace) =
      some ('=' :: (List.replicate n ' ' ++ (strip value ++ ['\n']))) := by
    rw [hn, dropWhile_name, behind_self]
    rfl
  rw [definition, hbehind]
  dsimp only
  rw [if_pos rfl, dropWhile_blanks, ← readBack, hno]

theorem findSome_only {ι α : Type} {xs : List ι} {x : ι} {f : ι → Option α} {a : α} (hx : x ∈ xs) (ha : f x = some a)
    (hne : ∀ y, y ≠ x → f y = none) : (xs.findSome? fun y => (f y).map fun b => (y, b)) = some (x, a) := by
  induction xs with
  | nil => cases hx
  | cons y xs ih =>
      rw [List.findSome?_cons]
      by_cases hy : y = x
      · rw [hy, ha]
        rfl
      · rw [hne y hy]
        exact ih ((List.mem_cons.mp hx).resolve_left (Ne.symm hy))

theorem findDefinition_written (k : Keyword) (h : '\\' ∉ value) : findDefinition (written k value) = some (k, readBack value, false) := by
  apply findSome_only (f := fun j => definition j (written k value)) (mem_all k) (definition_written k h)
  intro j hj
  obtain ⟨n, hn⟩ := written_eq k value
  rw [hn]
  exact definition_ne hj _

theorem comment_written (k : Keyword) (value : Line) : comment (written k value) = false := by cases k <;> rfl

theorem included_written (k : Keyword) (value : Line) : included (written k value) = none := by cases k <;> rfl

theorem readBack_ne (k : Keyword) (value : Line) : k.name ≠ readBack value := by
  intro heq
  obtain ⟨u, hu⟩ := readBack_suffix value
  have hlast := congrArg List.getLast? hu
  rw [List.getLast?_append_of_ne_nil _ (heq ▸ name_ne_nil), List.getLast?_concat, ← heq] at hlast
  exact (mem_name (List.mem_of_getLast? hlast)).2.1 rfl

theorem hasVariable_readBack (s : Reader) (value : Line) : s.hasVariable (readBack value) = false := by
  apply Bool.eq_false_iff.mpr
  intro h
  obtain ⟨k, -, hk⟩ := List.any_eq_true.mp h
  rw [Bool.and_eq_true, decide_eq_true_eq] at hk
  exact readBack_ne k value hk.2

theorem step_written {s : Reader} (ht : s.t = none) (hm : s.m = none) (hd : s.d = none) (h : '\\' ∉ value) :
    s.step i (written k value) = .ok (s.setItem k (.single i (readBack value))) := by
  rw [Reader.step, ht, hd]
  dsimp only
  rw [Reader.readVariable, hm]
  dsimp only
  rw [Reader.readLine, comment_written, if_neg Bool.false_ne_true, included_written, findDefinition_written k h]
  dsimp only
  rw [Reader.defineVariable, hasVariable_readBack, if_neg Bool.false_ne_true]
  rfl

theorem filter_newline (h : '\n' ∉ s) : s.filter (· ≠ '\n') = s := by
  apply List.filter_eq_self.mpr
  intro c hc
  apply decide_eq_true
  rintro rfl
  exact h hc

theorem value_readBack (h : '\n' ∉ value) : (Item.single i (readBack value)).value = strip value := by
  have hno : '\n' ∉ strip value := fun hc => h (mem_strip hc)
  change strip ([readBack value].flatten.filter (· ≠ '\n')) = strip value
  rw [List.flatten_singleton, readBack, List.dropWhile_append]
  by_cases hnil : ((strip value).dropWhile isSpace).isEmpty
  · have hvalue : strip value = [] := by
      rw [← strip_strip, strip, List.isEmpty_iff.mp hnil, List.rdropWhile_nil]
    rw [if_pos hnil, hvalue]
    rfl
  · have hno' : '\n' ∉ (strip value).dropWhile isSpace := fun hc => hno ((List.dropWhile_suffix _).subset hc)
    rw [if_neg hnil, List.filter_append, filter_newline hno']
    calc strip ((strip value).dropWhile isSpace ++ ['\n'].filter (· ≠ '\n')) = strip ((strip value).dropWhile isSpace ++ []) := rfl
      _ = strip (strip value) := by rw [List.append_nil, strip_dropWhile]
      _ = strip value := strip_strip

theorem setValue_str (idx : Option Nat) (h : '\n' ∉ value) : (Item.setValue idx value).str = [strip value ++ ['\n']] := by
  have hsplit : value.splitOn '\n' = [value] := by
    apply List.splitOnP_eq_singleton
    intro c hc
    apply beq_eq_false_iff_ne.mpr
    rintro rfl
    exact h hc
  change (value.splitOn '\n').map (fun l => strip l ++ ['\n']) = _
  rw [hsplit, List.map_singleton]

theorem setValue_length (idx : Option Nat) (h : '\n' ∉ value) : (Item.setValue idx value).length = 1 := by
  rw [Item.length, setValue_str idx h, List.length_singleton]

theorem variableAssignment_written (idx : Option Nat) (k : Keyword) (h : '\n' ∉ value) :
    (Item.setValue idx value).variableAssignment k.name = [written k value] := by
  have hhead : (Item.setValue idx value).str.head (Item.setValue idx value).nonempty = strip value ++ ['\n'] := by
    simp only [setValue_str idx h, List.head_cons]
  rw [Item.variableAssignment, setValue_length idx h, hhead]
  rfl

theorem written_ended (k : Keyword) (value : Line) : Ended '\n' (written k value) := by
  rw [Ended, written, ← List.append_assoc, List.getLast?_concat]

theorem kept_written (k : Keyword) (h : '\n' ∉ value) : Kept '\n' [written k value] := by
  obtain ⟨n, hn⟩ := written_eq k value
  refine ⟨?_, ?_, fun hne => absurd rfl hne, trivial⟩
  · intro hnil
    have hended := written_ended k value
    rw [hnil] at hended
    cases hended
  · have hline : written k value = (k.name ++ '=' :: (List.replicate n ' ' ++ strip value)) ++ ['\n'] := by
      rw [hn, List.append_assoc, List.cons_append, List.append_assoc]
    rw [hline, List.dropLast_concat]
    intro hc
    rcases List.mem_append.mp hc with hc | hc
    · exact (mem_name hc).2.1 rfl
    · rcases List.mem_cons.mp hc with hc | hc
      · exact absurd hc (by decide)
      · rcases List.mem_append.mp hc with hc | hc
        · exact absurd (List.eq_of_mem_replicate hc) (by decide)
        · exact h (mem_strip hc)

end OiUserland.Bass.Written
