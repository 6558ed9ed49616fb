import Mathlib.Data.List.Infix
import Mathlib.Data.List.TakeWhile

namespace OiUserland.Lib.Regexes

instance lawfulBEqChars : LawfulBEq (List Char) := inferInstance

inductive Regex
  | empty
  | chars (negated : Bool) (ranges : List (Char × Char))
  | dot
  | bol
  | eol
  | cat (r t : Regex)
  | alt (r t : Regex)
  | rep (r : Regex) (min : Nat) (max : Option Nat) (greedy : Bool)
  | cap (n : Nat) (r : Regex)
  deriving DecidableEq

structure Reading where
  start : Bool
  rest : List Char
  caps : List (Nat × List Char)
  deriving DecidableEq

def inRanges (ranges : List (Char × Char)) (c : Char) : Bool := ranges.any fun (lo, hi) => lo ≤ c ∧ c ≤ hi

def readChar (p : Char → Bool) (s : Reading) : List Reading :=
  match s.rest with
  | [] => []
  | c :: rest => if p c then [⟨false, rest, s.caps⟩] else []

def atEnd (s : Reading) : Bool := s.rest = [] ∨ s.rest = ['\n']

def iterate (f : Reading → List Reading) (greedy : Bool) : Nat → Nat → Option Nat → Reading → List Reading
  | 0, _, _, _ => []
  | n + 1, min, max, s =>
      let more := if max = some 0 then [] else (f s).flatMap fun s' =>
        if min = 0 ∧ s'.rest.length = s.rest.length then [s'] else iterate f greedy n (min - 1) (max.map (· - 1)) s'
      if min ≠ 0 then more else if greedy then more ++ [s] else s :: more

def capture (n : Nat) (s s' : Reading) : Reading :=
  { s' with caps := (n, s.rest.take (s.rest.length - s'.rest.length)) :: s'.caps }

def ends : Regex → Reading → List Reading
  | .empty, s => [s]
  | .chars negated ranges, s => readChar (fun c => inRanges ranges c != negated) s
  | .dot, s => readChar (fun c => c != '\n') s
  | .bol, s => if s.start then [s] else []
  | .eol, s => if atEnd s then [s] else []
  | .cat r t, s => (ends r s).flatMap (ends t)
  | .alt r t, s => ends r s ++ ends t s
  | .rep r min max greedy, s => iterate (ends r) greedy (min + s.rest.length + 1) min max s
  | .cap n r, s => (ends r s).map (capture n s)

def matchGroup (r : Regex) (n : Nat) (text : List Char) : Option (Option (List Char)) :=
  (ends r ⟨true, text, []⟩).head?.map fun s => s.caps.lookup n

def groups : Regex → List Nat
  | .cat r t => groups r ++ groups t
  | .alt r t => groups r ++ groups t
  | .rep r _ _ _ => groups r
  | .cap n r => n :: groups r
  | _ => []

section Ends

variable {r t : Regex} {s s' : Reading} {n : Nat} {p : Char → Bool} {f : Reading → List Reading} {greedy : Bool}

theorem mem_readChar : s' ∈ readChar p s ↔ ∃ c, s.rest = c :: s'.rest ∧ p c = true ∧ s' = ⟨false, s'.rest, s.caps⟩ := by
  obtain ⟨start, rest, caps⟩ := s
  cases rest with
  | nil => exact iff_of_false List.not_mem_nil fun ⟨c, h, _⟩ => by cases h
  | cons c rest =>
      by_cases hc : p c = true
      · simp only [readChar, if_pos hc, List.mem_singleton]
        constructor
        · rintro rfl
          exact ⟨c, rfl, hc, rfl⟩
        · rintro ⟨d, hd, -, hs'⟩
          rw [hs', (List.cons.inj hd).2]
      · simp only [readChar, if_neg hc]
        refine iff_of_false List.not_mem_nil ?_
        rintro ⟨d, hd, hpd, -⟩
        exact hc ((List.cons.inj hd).1 ▸ hpd)

theorem mem_cat : s' ∈ ends (.cat r t) s ↔ ∃ m ∈ ends r s, s' ∈ ends t m := List.mem_flatMap

theorem mem_cap : s' ∈ ends (.cap n r) s ↔ ∃ m ∈ ends r s, capture n s m = s' := List.mem_map

theorem mem_eol : s' ∈ ends .eol s ↔ atEnd s = true ∧ s' = s := by
  rw [ends]
  split
  · next h => simp [h]
  · next h => simp [h]

theorem mem_iterate {k min : Nat} {max : Option Nat} : s' ∈ iterate f greedy (k + 1) min max s ↔ min = 0 ∧ s' = s ∨
    max ≠ some 0 ∧ ∃ m ∈ f s, if min = 0 ∧ m.rest.length = s.rest.length then s' = m
      else s' ∈ iterate f greedy k (min - 1) (max.map (· - 1)) m := by
  have hmore : s' ∈ (if max = some 0 then [] else (f s).flatMap fun m =>
        if min = 0 ∧ m.rest.length = s.rest.length then [m] else iterate f greedy k (min - 1) (max.map (· - 1)) m) ↔
      max ≠ some 0 ∧ ∃ m ∈ f s, if min = 0 ∧ m.rest.length = s.rest.length then s' = m
        else s' ∈ iterate f greedy k (min - 1) (max.map (· - 1)) m := by
    by_cases hmax : max = some 0
    · rw [if_pos hmax]
      exact iff_of_false List.not_mem_nil fun h => h.1 hmax
    · rw [if_neg hmax, List.mem_flatMap, and_iff_right hmax]
      refine exists_congr fun m => and_congr_right fun _ => ?_
      split
      · exact List.mem_singleton
      · exact Iff.rfl
  rw [iterate, ← hmore]
  by_cases hmin : min = 0
  · rw [if_neg (not_not.mpr hmin), and_iff_right hmin]
    cases greedy with
    | true => rw [if_pos rfl, List.mem_append, List.mem_singleton, or_comm]
    | false => rw [if_neg Bool.false_ne_true, List.mem_cons]
  · rw [if_pos hmin]
    exact (or_iff_right fun h => hmin h.1).symm

theorem iterate_suffix (hf : ∀ s s', s' ∈ f s → s'.rest <:+ s.rest) {k min : Nat} {max : Option Nat}
    (h : s' ∈ iterate f greedy k min max s) : s'.rest <:+ s.rest := by
  induction k generalizing s min max with
  | zero => cases h
  | succ k ih =>
      rcases mem_iterate.mp h with ⟨-, rfl⟩ | ⟨-, m, hm, h⟩
      · exact List.suffix_refl _
      · split at h
        · exact h ▸ hf s m hm
        · exact (ih h).trans (hf s m hm)

theorem ends_suffix (h : s' ∈ ends r s) : s'.rest <:+ s.rest := by
  induction r generalizing s s' with
  | empty => rw [List.mem_singleton.mp h]
  | chars negated ranges =>
      obtain ⟨c, hc, -, -⟩ := mem_readChar.mp h
      exact hc ▸ List.suffix_cons _ _
  | dot =>
      obtain ⟨c, hc, -, -⟩ := mem_readChar.mp h
      exact hc ▸ List.suffix_cons _ _
  | bol =>
      rw [ends] at h
      split at h
      · rw [List.mem_singleton.mp h]
      · cases h
  | eol => rw [(mem_eol.mp h).2]
  | cat r t ihr iht =>
      obtain ⟨m, hm, h⟩ := mem_cat.mp h
      exact (iht h).trans (ihr hm)
  | alt r t ihr iht =>
      rcases List.mem_append.mp h with h | h
      · exact ihr h
      · exact iht h
  | rep r min max greedy ih => exact iterate_suffix (fun s s' => ih) h
  | cap n r ih =>
      obtain ⟨m, hm, rfl⟩ := mem_cap.mp h
      exact (ih hm : m.rest <:+ s.rest)

theorem iterate_readChar {k min : Nat} (hk : s.rest.length < k) : s' ∈ iterate (readChar p) greedy k min none s ↔
    ∃ u, s.rest = u ++ s'.rest ∧ (∀ c ∈ u, p c = true) ∧ min ≤ u.length ∧ s' = ⟨s.start && u.isEmpty, s'.rest, s.caps⟩ := by
  induction k generalizing s min with
  | zero => exact absurd hk (Nat.not_lt_zero _)
  | succ k ih =>
      rw [mem_iterate]
      constructor
      · rintro (⟨rfl, rfl⟩ | ⟨-, m, hm, h⟩)
        · refine ⟨[], rfl, nofun, Nat.le_refl _, ?_⟩
          rw [List.isEmpty_nil, Bool.and_true]
        · obtain ⟨c, hc, hpc, hm'⟩ := mem_readChar.mp hm
          have hlen : s.rest.length = m.rest.length + 1 := by rw [hc, List.length_cons]
          rw [if_neg (by omega), Option.map_none, ih (by omega)] at h
          obtain ⟨u, hu, hpu, hmin, hs'⟩ := h
          refine ⟨c :: u, ?_, ?_, ?_, ?_⟩
          · rw [hc, hu, List.cons_append]
          · intro d hd
            rcases List.mem_cons.mp hd with rfl | hd
            · exact hpc
            · exact hpu d hd
          · rw [List.length_cons]
            omega
          · rw [hs', hm', List.isEmpty_cons, Bool.and_false, Bool.false_and]
      · rintro ⟨u, hu, hpu, hmin, hs'⟩
        cases u with
        | nil =>
            refine .inl ⟨Nat.le_zero.mp hmin, ?_⟩
            rw [hs', List.isEmpty_nil, Bool.and_true, ← List.nil_append s'.rest, ← hu]
        | cons c u =>
            have hm : ⟨false, u ++ s'.rest, s.caps⟩ ∈ readChar p s :=
              mem_readChar.mpr ⟨c, hu, hpu c (List.mem_cons_self ..), rfl⟩
            have hlen : s.rest.length = (u ++ s'.rest).length + 1 := by rw [hu, List.cons_append, List.length_cons]
            refine .inr ⟨nofun, _, hm, ?_⟩
            have hlt : (u ++ s'.rest).length ≠ s.rest.length := by omega
            rw [if_neg fun h => hlt h.2, Option.map_none, ih (by dsimp only; omega)]
            refine ⟨u, rfl, fun d hd => hpu d (List.mem_cons_of_mem _ hd), ?_, ?_⟩
            · rw [List.length_cons] at hmin
              omega
            · rw [hs', List.isEmpty_cons, Bool.and_false, Bool.false_and]

theorem mem_many (hr : ∀ s, ends r s = readChar p s) {min : Nat} : s' ∈ ends (.rep r min none greedy) s ↔
    ∃ u, s.rest = u ++ s'.rest ∧ (∀ c ∈ u, p c = true) ∧ min ≤ u.length ∧ s' = ⟨s.start && u.isEmpty, s'.rest, s.caps⟩ := by
  have hends : ends r = readChar p := funext hr
  rw [ends, hends]
  exact iterate_readChar (by omega)

end Ends

section Captures

variable {r : Regex} {s s' : Reading} {f : Reading → List Reading} {greedy : Bool} {l : List (Nat × List Char)}

def under (l : List (Nat × List Char)) (s : Reading) : Reading := { s with caps := s.caps ++ l }

theorem readChar_under (p : Char → Bool) : readChar p (under l s) = (readChar p s).map (under l) := by
  obtain ⟨start, rest, caps⟩ := s
  cases rest with
  | nil => rfl
  | cons c rest =>
      simp only [readChar, under]
      split <;> rfl

theorem iterate_under (hf : ∀ s, f (under l s) = (f s).map (under l)) {k min : Nat} {max : Option Nat} :
    iterate f greedy k min max (under l s) = (iterate f greedy k min max s).map (under l) := by
  induction k generalizing s min max with
  | zero => rfl
  | succ k ih =>
      have hmore : (if max = some 0 then [] else (f (under l s)).flatMap fun s' => if min = 0 ∧ s'.rest.length = (under l s).rest.length
            then [s'] else iterate f greedy k (min - 1) (max.map (· - 1)) s') =
          (if max = some 0 then [] else (f s).flatMap fun s' => if min = 0 ∧ s'.rest.length = s.rest.length
            then [s'] else iterate f greedy k (min - 1) (max.map (· - 1)) s').map (under l) := by
        split
        · rfl
        · rw [hf, List.flatMap_map, List.map_flatMap]
          congr 1
          funext m
          have hrest : (under l m).rest.length = (under l s).rest.length ↔ m.rest.length = s.rest.length := Iff.rfl
          simp only [hrest]
          split
          · rfl
          · exact ih
      rw [iterate, iterate, hmore]
      split
      · rfl
      · split
        · rw [List.map_append]
          rfl
        · rfl

theorem ends_under (r : Regex) (s : Reading) (l : List (Nat × List Char)) : ends r (under l s) = (ends r s).map (under l) := by
  induction r generalizing s with
  | empty => rfl
  | chars negated ranges => exact readChar_under _
  | dot => exact readChar_under _
  | bol =>
      rw [ends, ends]
      change (if s.start = true then _ else _) = _
      split <;> rfl
  | eol =>
      rw [ends, ends]
      change (if atEnd s = true then _ else _) = _
      split <;> rfl
  | cat r t ihr iht =>
      rw [ends, ends, ihr, List.flatMap_map, List.map_flatMap]
      congr 1
      funext m
      exact iht m
  | alt r t ihr iht => rw [ends, ends, ihr, iht, List.map_append]
  | rep r min max greedy ih => exact iterate_under ih
  | cap n r ih =>
      rw [ends, ends, ih, List.map_map, List.map_map]
      rfl

theorem capture_text {n : Nat} {u : List Char} (h : s.rest = u ++ s'.rest) :
    capture n s s' = { s' with caps := (n, u) :: s'.caps } := by
  rw [capture, h, List.length_append, Nat.add_sub_cancel, List.take_left]

end Captures

end OiUserland.Lib.Regexes

namespace OiUserland.Lib.Substitutions

open Regexes

def word (u : List Char) : Regex := u.foldr (fun c r => .cat (.chars false [(c, c)]) r) .empty

def lineEnd (s : Reading) : Bool := s.rest.head?.all (· = '\n')

def lineMatch (r : Regex) (text : List Char) : Option (List Char) :=
  (((ends r ⟨true, text, []⟩).filter lineEnd).head?).map Reading.rest

def removeLines (r : Regex) : Nat → Bool → List Char → List Char
  | 0, _, _ => []
  | n + 1, bol, text =>
    match if bol then lineMatch r text else none with
    | some rest => removeLines r n false rest
    | none =>
      match text with
      | [] => []
      | c :: cs => c :: removeLines r n (c = '\n') cs

def remove (r : Regex) (text : List Char) : List Char := removeLines r (text.length + 1) true text

def replaceFrom (old new : List Char) : Nat → List Char → List Char
  | _, [] => []
  | n + 1, _ :: s => replaceFrom old new n s
  | 0, c :: s =>
    if old.isPrefixOf (c :: s) then new ++ replaceFrom old new (old.length - 1) s
    else c :: replaceFrom old new 0 s

def replace (old new s : List Char) : List Char := replaceFrom old new 0 s

theorem removeLines_true (r : Regex) (n : Nat) (text : List Char) : removeLines r (n + 1) true text =
    match lineMatch r text with
    | some rest => removeLines r n false rest
    | none => removeLines r (n + 1) false text := by
  cases hm : lineMatch r text <;> cases text <;> simp [removeLines, hm]

section Preference

variable {α β : Type} {p : Char → Bool} {r t : Regex} {s s' m : Reading}

theorem head?_flatMap {l : List α} {f : α → List β} {y : β} (h : (l.flatMap f).head? = some y) :
    ∃ l₁ x l₂, l = l₁ ++ x :: l₂ ∧ (∀ z ∈ l₁, f z = []) ∧ (f x).head? = some y := by
  induction l with
  | nil => cases h
  | cons x l ih =>
      by_cases hx : f x = []
      · rw [List.flatMap_cons, hx, List.nil_append] at h
        obtain ⟨l₁, x', l₂, rfl, hl₁, hy⟩ := ih h
        refine ⟨x :: l₁, x', l₂, rfl, fun z hz => ?_, hy⟩
        rcases List.mem_cons.mp hz with rfl | hz
        · exact hx
        · exact hl₁ z hz
      · rw [List.flatMap_cons, List.head?_append_of_ne_nil _ hx] at h
        exact ⟨[], x, l, rfl, nofun, h⟩

theorem readChar_shorter (hm : m ∈ readChar p s) : s.rest.length = m.rest.length + 1 := by
  obtain ⟨c, hc, -, -⟩ := mem_readChar.mp hm
  rw [hc, List.length_cons]

theorem readChar_suffix (hm : m ∈ readChar p s) : m.rest <:+ s.rest := by
  obtain ⟨c, hc, -, -⟩ := mem_readChar.mp hm
  exact hc ▸ List.suffix_cons _ _

theorem iterate_sorted (p : Char → Bool) (k min : Nat) (s : Reading) :
    (iterate (readChar p) true k min none s).Pairwise fun m m' => m.rest.length < m'.rest.length := by
  induction k generalizing min s with
  | zero => exact List.Pairwise.nil
  | succ k ih =>
      have hmore : ((readChar p s).flatMap fun m =>
          if min = 0 ∧ m.rest.length = s.rest.length then [m]
            else iterate (readChar p) true k (min - 1) none m).Pairwise
            fun m m' => m.rest.length < m'.rest.length := by
        refine List.pairwise_flatMap.mpr ⟨fun m hm => ?_, ?_⟩
        · have hlen := readChar_shorter hm
          rw [if_neg (by omega)]
          exact ih (min - 1) m
        · unfold readChar
          split
          · exact List.Pairwise.nil
          · split
            · exact List.pairwise_singleton ..
            · exact List.Pairwise.nil
      have hbelow : ∀ m' ∈ (readChar p s).flatMap fun m =>
          if min = 0 ∧ m.rest.length = s.rest.length then [m] else iterate (readChar p) true k (min - 1) none m,
            m'.rest.length < s.rest.length := by
        intro m' hm'
        obtain ⟨m, hm, hm'⟩ := List.mem_flatMap.mp hm'
        have hlen := readChar_shorter hm
        rw [if_neg (by omega)] at hm'
        have hsuf := (iterate_suffix (fun _ _ => readChar_suffix) hm').length_le
        omega
      rw [iterate, if_neg (by simp : (none : Option Nat) ≠ some 0)]
      split
      · exact hmore
      · refine List.pairwise_append.mpr ⟨hmore, List.pairwise_singleton .., fun m' hm' m hm => ?_⟩
        rw [List.mem_singleton.mp hm]
        exact hbelow m' hm'

theorem many_sorted (hr : ∀ s, ends r s = readChar p s) (min : Nat) (s : Reading) :
    (ends (.rep r min none true) s).Pairwise fun m m' => m.rest.length < m'.rest.length := by
  have hends : ends r = readChar p := funext hr
  rw [ends, hends]
  exact iterate_sorted p _ min s

theorem many_eq_nil (hr : ∀ s, ends r s = readChar p s) {min : Nat} (h : (s.rest.takeWhile p).length < min) :
    ends (.rep r min none true) s = [] := by
  refine List.eq_nil_iff_forall_not_mem.mpr fun m hm => ?_
  obtain ⟨u, hu, hpu, hmin, -⟩ := (mem_many hr).mp hm
  have hle : u.length ≤ (s.rest.takeWhile p).length := by
    rw [hu, List.takeWhile_append_of_pos hpu, List.length_append]
    exact Nat.le_add_right ..
  omega

theorem head?_many (hr : ∀ s, ends r s = readChar p s) {min : Nat} (h : min ≤ (s.rest.takeWhile p).length) :
    (ends (.rep r min none true) s).head? =
      some ⟨s.start && (s.rest.takeWhile p).isEmpty, s.rest.dropWhile p, s.caps⟩ := by
  let most : Reading := ⟨s.start && (s.rest.takeWhile p).isEmpty, s.rest.dropWhile p, s.caps⟩
  have hmost : most ∈ ends (.rep r min none true) s :=
    (mem_many hr).mpr ⟨s.rest.takeWhile p, List.takeWhile_append_dropWhile.symm,
      fun c hc => List.mem_takeWhile_imp hc, h, rfl⟩
  have hsorted := many_sorted hr min s
  cases hl : ends (.rep r min none true) s with
  | nil =>
      rw [hl] at hmost
      cases hmost
  | cons m l =>
      obtain ⟨u, hu, hpu, -, -⟩ := (mem_many hr).mp (hl ▸ List.mem_cons_self .. : m ∈ _)
      have hlong : most.rest.length ≤ m.rest.length := by
        have hdrop : s.rest.dropWhile p = m.rest.dropWhile p := by rw [hu, List.dropWhile_append_of_pos hpu]
        exact (congrArg List.length hdrop).le.trans (List.dropWhile_suffix p).length_le
      rw [hl] at hmost hsorted
      rcases List.mem_cons.mp hmost with heq | hbehind
      · exact congrArg some heq.symm
      · exact absurd ((List.pairwise_cons.mp hsorted).1 most hbehind) (Nat.not_lt_of_le hlong)

theorem head?_cat (hm : (ends r s).head? = some m) (h : (ends t m).head? = some s') :
    (ends (.cat r t) s).head? = some s' := by
  obtain ⟨l, hl⟩ : ∃ l, ends r s = m :: l := by
    cases hl : ends r s with
    | nil =>
        rw [hl] at hm
        cases hm
    | cons m' l =>
        rw [hl] at hm
        exact ⟨l, by rw [Option.some.inj hm]⟩
  rw [ends, hl, List.flatMap_cons, List.head?_append, h]
  rfl

theorem ends_optional (hr : ∀ s, ends r s = readChar p s) :
    ends (.rep r 0 (some 1) true) s = readChar p s ++ [s] := by
  have hends : ends r = readChar p := funext hr
  rw [ends, hends, Nat.zero_add, iterate, if_neg (by simp), if_pos rfl, if_neg (by simp)]
  refine congrArg (· ++ [s]) ?_
  unfold readChar
  cases hrest : s.rest with
  | nil => rfl
  | cons c rest =>
      dsimp only
      split
      · simp [iterate]
      · rfl

theorem mem_word {u : List Char} : s' ∈ ends (word u) s ↔ s.rest = u ++ s'.rest ∧
    s' = ⟨s.start && u.isEmpty, s'.rest, s.caps⟩ := by
  induction u generalizing s with
  | nil =>
      have hempty : ends (word []) s = [s] := rfl
      rw [hempty, List.mem_singleton, List.isEmpty_nil, Bool.and_true]
      constructor
      · rintro rfl
        exact ⟨rfl, rfl⟩
      · rintro ⟨hrest, hs'⟩
        rw [hs', ← List.nil_append s'.rest, ← hrest]
  | cons c u ih =>
      have hcat : word (c :: u) = .cat (.chars false [(c, c)]) (word u) := rfl
      rw [hcat, mem_cat]
      constructor
      · rintro ⟨m, hm, hs'⟩
        obtain ⟨d, hd, hdc, hm⟩ := mem_readChar.mp hm
        obtain ⟨hrest, hs'⟩ := ih.mp hs'
        have hdc : d = c := by
          have hrange : c ≤ d ∧ d ≤ c := by simpa [inRanges] using hdc
          exact Char.le_antisymm hrange.2 hrange.1
        refine ⟨by rw [hd, hdc, hrest, List.cons_append], ?_⟩
        rw [hs', hm, List.isEmpty_cons, Bool.and_false, Bool.false_and]
      · rintro ⟨hrest, hs'⟩
        refine ⟨⟨false, u ++ s'.rest, s.caps⟩, ?_, ?_⟩
        · exact mem_readChar.mpr ⟨c, hrest, by simp [inRanges], rfl⟩
        · refine ih.mpr ⟨rfl, ?_⟩
          rw [hs', List.isEmpty_cons, Bool.and_false, Bool.false_and]

end Preference

end OiUserland.Lib.Substitutions
