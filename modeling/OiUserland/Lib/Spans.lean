import Mathlib.Data.List.DropRight
import OiUserland.Lib.Splits
import OiUserland.Lib.Regexes

namespace OiUserland.Lib.Spans

open Regexes Splits Substitutions

def spanRe (u v : List Char) : Regex :=
  .cat (.rep (.chars true [('\n', '\n')]) 0 none true)
    (.cat (word u)
      (.cat (.rep (.chars true []) 1 none true)
        (.cat (word v)
          (.rep (.chars true [('\n', '\n')]) 0 none true))))

def oneLine (u v l : List Char) : Bool :=
  l.tails.any fun t => u.isPrefixOf t && decide (v <:+: t.drop (u.length + 1))

def swallowed (u v : List Char) : List (List Char) → List (List Char)
  | [] => []
  | l :: ls =>
    if u <:+: l ∧ ∃ e ∈ ls, v <:+: e then [] :: ls.rtakeWhile fun e => ¬ v <:+: e
    else if oneLine u v l then [] :: ls
    else l :: swallowed u v ls

section Match

variable {u v text rest : List Char}

def Match (u v text rest : List Char) : Prop :=
  ∃ a b d, text = a ++ (u ++ (b ++ (v ++ (d ++ rest)))) ∧ '\n' ∉ a ∧ b ≠ [] ∧ '\n' ∉ d ∧ rest.head?.all (· = '\n')

theorem other_iff (c : Char) : (inRanges [('\n', '\n')] c != true) = true ↔ c ≠ '\n' := by
  have hrange : inRanges [('\n', '\n')] c = true ↔ c = '\n' := by
    simp only [inRanges, List.any_cons, List.any_nil, Bool.or_false, decide_eq_true_iff]
    exact ⟨fun h => Char.le_antisymm h.2 h.1, fun h => h ▸ ⟨Char.le_refl _, Char.le_refl _⟩⟩
  rw [bne_iff_ne, ne_eq, hrange]

theorem mem_others {s s' : Reading} : s' ∈ ends (.rep (.chars true [('\n', '\n')]) 0 none true) s ↔
    ∃ a, s.rest = a ++ s'.rest ∧ '\n' ∉ a ∧ s' = ⟨s.start && a.isEmpty, s'.rest, s.caps⟩ := by
  rw [mem_many (fun _ => rfl)]
  refine exists_congr fun a => and_congr_right fun _ => ?_
  have hall : (∀ c ∈ a, (inRanges [('\n', '\n')] c != true) = true) ↔ '\n' ∉ a := by
    simp only [other_iff]
    exact ⟨fun h hmem => h _ hmem rfl, fun h c hc hcn => h (hcn ▸ hc)⟩
  rw [hall, and_iff_right (Nat.zero_le _)]

theorem mem_some {s s' : Reading} : s' ∈ ends (.rep (.chars true []) 1 none true) s ↔
    ∃ b, s.rest = b ++ s'.rest ∧ b ≠ [] ∧ s' = ⟨s.start && b.isEmpty, s'.rest, s.caps⟩ := by
  rw [mem_many (fun _ => rfl)]
  refine exists_congr fun b => and_congr_right fun _ => ?_
  have hall : ∀ c ∈ b, (inRanges [] c != true) = true := fun _ _ => rfl
  rw [and_iff_right hall, ← List.length_pos_iff]
  rfl

theorem mem_tail {s s' : Reading} : s' ∈ ends (.cat (word v) (.rep (.chars true [('\n', '\n')]) 0 none true)) s ↔
    ∃ d, s.rest = v ++ (d ++ s'.rest) ∧ '\n' ∉ d ∧ s' = ⟨s.start && v.isEmpty && d.isEmpty, s'.rest, s.caps⟩ := by
  rw [mem_cat]
  constructor
  · rintro ⟨m, hm, hs'⟩
    obtain ⟨hrest, hm⟩ := mem_word.mp hm
    obtain ⟨d, hd, hnd, hs'⟩ := mem_others.mp hs'
    refine ⟨d, by rw [hrest, hd], hnd, ?_⟩
    rw [hs', hm]
  · rintro ⟨d, hrest, hnd, hs'⟩
    exact ⟨⟨s.start && v.isEmpty, d ++ s'.rest, s.caps⟩, mem_word.mpr ⟨hrest, rfl⟩,
      mem_others.mpr ⟨d, rfl, hnd, hs'⟩⟩

theorem match_of_mem {s s' : Reading} (h : s' ∈ ends (spanRe u v) s) (hend : lineEnd s') :
    Match u v s.rest s'.rest := by
  obtain ⟨m₀, hm₀, h⟩ := mem_cat.mp h
  obtain ⟨m₁, hm₁, h⟩ := mem_cat.mp h
  obtain ⟨m₂, hm₂, h⟩ := mem_cat.mp h
  obtain ⟨a, ha, hna, -⟩ := mem_others.mp hm₀
  obtain ⟨hstart, -⟩ := mem_word.mp hm₁
  obtain ⟨b, hb, hb0, -⟩ := mem_some.mp hm₂
  obtain ⟨d, hd, hnd, -⟩ := mem_tail.mp h
  exact ⟨a, b, d, by rw [ha, hstart, hb, hd], hna, hb0, hnd, hend⟩

theorem mem_of_match {s : Reading} (h : Match u v s.rest rest) :
    ∃ s' ∈ ends (spanRe u v) s, s'.rest = rest ∧ lineEnd s' := by
  obtain ⟨a, b, d, htext, hna, hb, hnd, hend⟩ := h
  let m₀ : Reading := ⟨s.start && a.isEmpty, u ++ (b ++ (v ++ (d ++ rest))), s.caps⟩
  let m₁ : Reading := ⟨m₀.start && u.isEmpty, b ++ (v ++ (d ++ rest)), s.caps⟩
  let m₂ : Reading := ⟨m₁.start && b.isEmpty, v ++ (d ++ rest), s.caps⟩
  refine ⟨⟨m₂.start && v.isEmpty && d.isEmpty, rest, s.caps⟩, ?_, rfl, hend⟩
  refine mem_cat.mpr ⟨m₀, mem_others.mpr ⟨a, htext, hna, rfl⟩, ?_⟩
  refine mem_cat.mpr ⟨m₁, mem_word.mpr ⟨rfl, rfl⟩, ?_⟩
  exact mem_cat.mpr ⟨m₂, mem_some.mpr ⟨b, rfl, hb, rfl⟩, mem_tail.mpr ⟨d, rfl, hnd, rfl⟩⟩

theorem later_end {rest' d d' : List Char} (hv : '\n' ∉ v) (hnd' : '\n' ∉ d') (hend : rest.head?.all (· = '\n'))
    (hsuf : v ++ (d ++ rest) <:+ text) (hsuf' : v ++ (d' ++ rest') <:+ text) (hlt : rest'.length < rest.length) :
    (v ++ (d' ++ rest')).length < (v ++ (d ++ rest)).length := by
  by_contra hle
  have hrest : rest <:+ v ++ (d ++ rest) := (List.suffix_append d rest).trans (List.suffix_append v _)
  have hrest' : rest' <:+ v ++ (d' ++ rest') := (List.suffix_append d' rest').trans (List.suffix_append v _)
  obtain ⟨w, hw⟩ := List.suffix_of_suffix_length_le (hrest'.trans hsuf') (hrest.trans hsuf) (Nat.le_of_lt hlt)
  obtain ⟨y, hy⟩ := List.suffix_of_suffix_length_le (hrest.trans hsuf) hsuf'
    (hrest.length_le.trans (Nat.le_of_not_lt hle))
  cases w with
  | nil =>
      rw [← hw, List.nil_append] at hlt
      exact Nat.lt_irrefl _ hlt
  | cons c w =>
      rw [← hw] at hend hy
      obtain rfl : c = '\n' := of_decide_eq_true hend
      have hcut : y ++ '\n' :: w = v ++ d' := by
        refine (List.append_left_inj rest').mp ?_
        rw [List.append_assoc, List.append_assoc]
        exact hy
      have hmem : '\n' ∈ v ++ d' := hcut ▸ List.mem_append_right y (List.mem_cons_self ..)
      rcases List.mem_append.mp hmem with hmem | hmem
      · exact hv hmem
      · exact hnd' hmem

theorem lineMatch_least (hv : '\n' ∉ v) (h : lineMatch (spanRe u v) text = some rest) :
    Match u v text rest ∧ ∀ rest', Match u v text rest' → rest.length ≤ rest'.length := by
  obtain ⟨s', hs', rfl⟩ := Option.map_eq_some_iff.mp h
  obtain ⟨hmem, hend⟩ := List.mem_filter.mp (List.mem_of_head? hs')
  refine ⟨match_of_mem hmem hend, fun rest' hmatch => ?_⟩
  by_contra hlt
  rw [spanRe, ends, List.filter_flatMap] at hs'
  obtain ⟨_, m₀, _, hl, -, hs'⟩ := head?_flatMap hs'
  obtain ⟨a, ha, -, -⟩ := mem_others.mp (hl ▸ List.mem_append_cons_self)
  rw [ends, List.filter_flatMap] at hs'
  obtain ⟨_, m₁, _, hl, -, hs'⟩ := head?_flatMap hs'
  obtain ⟨hstart, -⟩ := mem_word.mp (hl ▸ List.mem_append_cons_self)
  rw [ends, List.filter_flatMap] at hs'
  obtain ⟨l₁, m₂, l₂, hl, hempty, hs'⟩ := head?_flatMap hs'
  obtain ⟨b, hb, hb0, -⟩ := mem_some.mp (hl ▸ List.mem_append_cons_self)
  obtain ⟨d, hd, -, -⟩ := mem_tail.mp (List.mem_filter.mp (List.mem_of_head? hs')).1
  obtain ⟨a', b', d', htext, -, -, hnd', hend'⟩ := hmatch
  have hsuf₁ : m₁.rest <:+ text := ⟨a ++ u, by rw [List.append_assoc, ← hstart, ← ha]⟩
  have hsuf₂ : m₂.rest <:+ m₁.rest := ⟨b, hb.symm⟩
  have hsuf' : v ++ (d' ++ rest') <:+ text := ⟨a' ++ (u ++ b'), by rw [htext, List.append_assoc, List.append_assoc]⟩
  have hshort := later_end hv hnd' hend (hd ▸ hsuf₂.trans hsuf₁) hsuf' (Nat.lt_of_not_le hlt)
  rw [← hd] at hshort
  obtain ⟨b₂, hb₂⟩ := List.suffix_of_suffix_length_le hsuf' hsuf₁ (hshort.le.trans hsuf₂.length_le)
  have hb₂0 : b₂ ≠ [] := by
    rintro rfl
    rw [List.nil_append] at hb₂
    rw [hb₂] at hshort
    exact absurd hsuf₂.length_le (Nat.not_le_of_lt hshort)
  -- the repetition could have read more, and what it reads first is the most
  let m : Reading := ⟨m₁.start && b₂.isEmpty, v ++ (d' ++ rest'), m₁.caps⟩
  have hm : m ∈ l₁ ++ m₂ :: l₂ := hl ▸ mem_some.mpr ⟨b₂, hb₂.symm, hb₂0, rfl⟩
  have hsorted := many_sorted (r := .chars true []) (fun _ => rfl) 1 m₁
  rw [hl, List.pairwise_append] at hsorted
  have hfirst : m ∈ l₁ := by
    rcases List.mem_append.mp hm with hm | hm
    · exact hm
    · rcases List.mem_cons.mp hm with hm | hm
      · exact absurd (congrArg (fun m => m.rest.length) hm) (Nat.ne_of_lt hshort)
      · exact absurd ((List.pairwise_cons.mp hsorted.2.1).1 m hm) (Nat.not_lt_of_lt hshort)
  have hreading : (⟨m.start && v.isEmpty && d'.isEmpty, rest', m₁.caps⟩ : Reading) ∈
      (ends (.cat (word v) (.rep (.chars true [('\n', '\n')]) 0 none true)) m).filter lineEnd :=
    List.mem_filter.mpr ⟨mem_tail.mpr ⟨d', rfl, hnd', rfl⟩, hend'⟩
  rw [hempty m hfirst] at hreading
  cases hreading

theorem lineMatch_eq_none : lineMatch (spanRe u v) text = none ↔ ∀ rest, ¬ Match u v text rest := by
  rw [lineMatch, Option.map_eq_none_iff, List.head?_eq_none_iff, List.filter_eq_nil_iff]
  constructor
  · intro h rest hmatch
    obtain ⟨s', hs', -, hend⟩ := mem_of_match (s := ⟨true, text, []⟩) hmatch
    exact h s' hs' hend
  · intro h s' hs' hend
    exact h s'.rest (match_of_mem hs' hend)

end Match

section Spans

variable {u v l b d rest : List Char} {ls : List (List Char)}

theorem oneLine_iff (hv0 : v ≠ []) : oneLine u v l ↔ ∃ a b d, l = a ++ (u ++ (b ++ (v ++ d))) ∧ b ≠ [] := by
  rw [oneLine, List.any_eq_true]
  constructor
  · rintro ⟨t, ht, h⟩
    obtain ⟨a, rfl⟩ := (List.mem_tails ..).mp ht
    obtain ⟨hu, hv⟩ := Bool.and_eq_true_iff.mp h
    obtain ⟨t, rfl⟩ := List.isPrefixOf_iff_prefix.mp hu
    rw [decide_eq_true_iff, List.drop_append, Nat.add_sub_cancel_left,
      List.drop_of_length_le (Nat.le_succ _), List.nil_append] at hv
    obtain ⟨b, d, hbd⟩ := hv
    cases t with
    | nil => exact absurd (List.append_eq_nil_iff.mp (List.append_eq_nil_iff.mp hbd).1).2 hv0
    | cons c t =>
        have ht : t = b ++ (v ++ d) := by simpa using hbd.symm
        exact ⟨a, c :: b, d, by rw [ht]; rfl, List.cons_ne_nil c b⟩
  · rintro ⟨a, b, d, rfl, hb⟩
    obtain ⟨c, b, rfl⟩ := List.exists_cons_of_ne_nil hb
    refine ⟨u ++ (c :: b ++ (v ++ d)), (List.mem_tails ..).mpr (List.suffix_append a _), ?_⟩
    rw [Bool.and_eq_true_iff, decide_eq_true_iff, List.drop_append, Nat.add_sub_cancel_left,
      List.drop_of_length_le (Nat.le_succ _)]
    exact ⟨List.isPrefixOf_iff_prefix.mpr (List.prefix_append u _), b, d, by simp⟩

theorem infix_of_oneLine (hv0 : v ≠ []) (h : oneLine u v l) : v <:+: l := by
  obtain ⟨a, b, d, rfl, -⟩ := (oneLine_iff hv0).mp h
  exact ⟨a ++ (u ++ b), d, by simp⟩

theorem start_of_oneLine (hv0 : v ≠ []) (h : oneLine u v l) : u <:+: l := by
  obtain ⟨a, b, d, rfl, -⟩ := (oneLine_iff hv0).mp h
  exact ⟨a, b ++ (v ++ d), by simp⟩

theorem behind_end (ls : List (List Char)) : (behind '\n' ls).head?.all (· = '\n') := by
  cases ls <;> rfl

theorem not_mem_three (hb : '\n' ∉ b) (hv : '\n' ∉ v) (hd : '\n' ∉ d) : '\n' ∉ b ++ (v ++ d) := by simp [hb, hv, hd]

theorem nil_of_end {x y : List Char} (hl : '\n' ∉ l) (hy : l = x ++ y) (hback : rest = y ++ behind '\n' ls)
    (hrest : rest.head?.all (· = '\n')) : y = [] := by
  cases y with
  | nil => rfl
  | cons c y =>
      rw [hback] at hrest
      obtain rfl : c = '\n' := of_decide_eq_true hrest
      exact absurd (hy ▸ List.mem_append_right _ (List.mem_cons_self ..)) hl

theorem end_line (hv : '\n' ∉ v) (hd : '\n' ∉ d) (hrest : rest.head?.all (· = '\n')) (hl : '\n' ∉ l)
    (hls : ∀ m ∈ ls, '\n' ∉ m)
    (h : l ++ behind '\n' ls = b ++ (v ++ (d ++ rest))) :
    ∃ ms e ns, l :: ls = ms ++ e :: ns ∧ rest = behind '\n' ns ∧ v <:+: e ∧ (ms = [] → e = b ++ (v ++ d)) := by
  induction ls generalizing l b with
  | nil =>
      have hb : '\n' ∉ b := fun hb => hl (by
        rw [← List.append_nil l]
        exact h ▸ List.mem_append_left _ hb)
      obtain ⟨y, hy, hback⟩ := first_line (z := rest) (not_mem_three hb hv hd) (by simpa using h)
      obtain rfl := nil_of_end hl hy hback hrest
      exact ⟨[], l, [], rfl, hback, ⟨b, d, by simpa using hy.symm⟩, fun _ => by simpa using hy⟩
  | cons m ls ih =>
      by_cases hb : '\n' ∈ b
      · obtain ⟨b₁, b₂, rfl, hb₁⟩ := List.eq_append_cons_of_mem hb
        rw [List.append_assoc] at h
        obtain ⟨y, rfl, hy⟩ := first_line hb₁ h
        cases y with
        | cons c y =>
            obtain rfl := (List.cons.inj hy).1
            exact absurd (List.mem_append_right _ (List.mem_cons_self ..)) hl
        | nil =>
            obtain ⟨ms, e, ns, hms, hns, he, -⟩ :=
              ih (hls m (List.mem_cons_self ..)) (fun k hk => hls k (List.mem_cons_of_mem _ hk))
              (List.cons.inj hy).2.symm
            exact ⟨(b₁ ++ []) :: ms, e, ns, by rw [hms]; rfl, hns, he, nofun⟩
      · obtain ⟨y, hy, hback⟩ := first_line (z := rest) (not_mem_three hb hv hd) (by simpa using h)
        obtain rfl := nil_of_end hl hy hback hrest
        exact ⟨[], l, m :: ls, rfl, hback, ⟨b, d, by simpa using hy.symm⟩, fun _ => by simpa using hy⟩

theorem match_lines (hu : '\n' ∉ u) (hv : '\n' ∉ v) (hv0 : v ≠ []) (hl : '\n' ∉ l) (hls : ∀ m ∈ ls, '\n' ∉ m) :
    Match u v (l ++ behind '\n' ls) rest ↔ (oneLine u v l ∧ rest = behind '\n' ls) ∨
      (u <:+: l ∧ ∃ ms e ns, ls = ms ++ e :: ns ∧ v <:+: e ∧ rest = behind '\n' ns) := by
  constructor
  · rintro ⟨a, b, d, h, ha, hb, hd, hrest⟩
    have hau : '\n' ∉ a ++ u := by simp [ha, hu]
    rw [← List.append_assoc] at h
    obtain ⟨y, rfl, hy⟩ := first_line hau h
    have hly : '\n' ∉ y := fun hmem => hl (List.mem_append_right _ hmem)
    obtain ⟨ms, e, ns, hms, hns, he, hone⟩ := end_line hv hd hrest hly hls hy.symm
    cases ms with
    | nil =>
        obtain ⟨rfl, rfl⟩ := List.cons.inj hms
        refine .inl ⟨(oneLine_iff hv0).mpr ⟨a, b, d, ?_, hb⟩, hns⟩
        rw [hone rfl, List.append_assoc]
    | cons m ms =>
        obtain ⟨rfl, hls⟩ := List.cons.inj hms
        exact .inr ⟨⟨a, y, rfl⟩, ms, e, ns, hls, he, hns⟩
  · rintro (⟨hone, rfl⟩ | ⟨⟨a, y, rfl⟩, ms, e, ns, rfl, ⟨x, d, rfl⟩, rfl⟩)
    · obtain ⟨a, b, d, rfl, hb⟩ := (oneLine_iff hv0).mp hone
      refine ⟨a, b, d, by simp, fun ha => hl (List.mem_append_left _ ha), hb, fun hd => hl ?_, behind_end ls⟩
      simp [hd]
    · refine ⟨a, y ++ (behind '\n' ms ++ '\n' :: x), d, ?_, fun ha => hl (by simp [ha]), by simp,
        fun hd => ?_, behind_end ns⟩
      · rw [behind_append, behind_cons]
        simp
      · exact hls (x ++ v ++ d) (List.mem_append_right ms (List.mem_cons_self ..)) (List.mem_append_right _ hd)

theorem rtakeWhile_behind {p : List Char → Bool} {e : List Char} (he : ¬ p e) (ms ns : List (List Char)) :
    (ms ++ e :: ns).rtakeWhile p = ns.rtakeWhile p := by
  induction ns using List.reverseRecOn with
  | nil => exact List.rtakeWhile_concat_neg _ _ _ he
  | append_singleton ns x ih =>
      rw [← List.cons_append, ← List.append_assoc]
      by_cases hx : p x
      · rw [List.rtakeWhile_concat_pos _ _ _ hx, List.rtakeWhile_concat_pos _ _ _ hx, ih]
      · rw [List.rtakeWhile_concat_neg _ _ _ hx, List.rtakeWhile_concat_neg _ _ _ hx]

theorem last_line {p : List Char → Bool} (h : ∃ e ∈ ls, ¬ p e) :
    ∃ ms e, ls = ms ++ e :: ls.rtakeWhile p ∧ ¬ p e := by
  induction ls using List.reverseRecOn with
  | nil => exact absurd h (by simp)
  | append_singleton ls x ih =>
      by_cases hx : p x
      · obtain ⟨e, he, hpe⟩ := h
        have hel : e ∈ ls := by
          rcases List.mem_append.mp he with he | he
          · exact he
          · exact absurd (List.mem_singleton.mp he ▸ hx) hpe
        obtain ⟨ms, e, hls, hpe⟩ := ih ⟨e, hel, hpe⟩
        refine ⟨ms, e, ?_, hpe⟩
        rw [List.rtakeWhile_concat_pos _ _ _ hx, ← List.cons_append, ← List.append_assoc, ← hls]
      · exact ⟨ls, x, by rw [List.rtakeWhile_concat_neg _ _ _ hx], hx⟩

theorem behind_least {p : List Char → Bool} (h : (behind '\n' ls).length ≤ (behind '\n' (ls.rtakeWhile p)).length) :
    behind '\n' ls = behind '\n' (ls.rtakeWhile p) := by
  have hsplit : behind '\n' ls = behind '\n' (ls.rdropWhile p) ++ behind '\n' (ls.rtakeWhile p) := by
    rw [← behind_append, List.rdropWhile_append_rtakeWhile]
  have hnil : behind '\n' (ls.rdropWhile p) = [] := by
    rw [hsplit, List.length_append] at h
    exact List.length_eq_zero_iff.mp (by omega)
  rw [hsplit, hnil, List.nil_append]

theorem lineMatch_lines (hu : '\n' ∉ u) (hv : '\n' ∉ v) (hv0 : v ≠ []) (hl : '\n' ∉ l) (hls : ∀ m ∈ ls, '\n' ∉ m) :
    lineMatch (spanRe u v) (l ++ behind '\n' ls) =
      if u <:+: l ∧ ∃ e ∈ ls, v <:+: e then some (behind '\n' (ls.rtakeWhile fun e => ¬ v <:+: e))
      else if oneLine u v l then some (behind '\n' ls) else none := by
  have hmatch (rest : List Char) : Match u v (l ++ behind '\n' ls) rest ↔ (oneLine u v l ∧ rest = behind '\n' ls) ∨
      (u <:+: l ∧ ∃ ms e ns, ls = ms ++ e :: ns ∧ v <:+: e ∧ rest = behind '\n' ns) := match_lines hu hv hv0 hl hls
  cases hleft : lineMatch (spanRe u v) (l ++ behind '\n' ls) with
  | none =>
      have hno := lineMatch_eq_none.mp hleft
      have hend : ¬ (u <:+: l ∧ ∃ e ∈ ls, v <:+: e) := by
        rintro ⟨hstart, e, he, hve⟩
        obtain ⟨ms, ns, hms⟩ := List.append_of_mem he
        exact hno _ ((hmatch _).mpr (.inr ⟨hstart, ms, e, ns, hms, hve, rfl⟩))
      have hone : ¬ oneLine u v l := fun hone => hno _ ((hmatch _).mpr (.inl ⟨hone, rfl⟩))
      rw [if_neg hend, if_neg hone]
  | some rest =>
      obtain ⟨hrest, hleast⟩ := lineMatch_least hv hleft
      split
      · next hend =>
        obtain ⟨ms, e, hms, he⟩ := last_line (p := fun e => ¬ v <:+: e) (by simpa using hend.2)
        have hlast := hleast _ ((hmatch _).mpr (.inr ⟨hend.1, ms, e, _, hms, by simpa using he, rfl⟩))
        refine congrArg some ?_
        rcases (hmatch _).mp hrest with ⟨-, hback⟩ | ⟨-, ms', e', ns, hms', he', hback⟩
        · rw [hback] at hlast ⊢
          exact behind_least hlast
        · rw [hback, hms', rtakeWhile_behind (by simpa using he')] at hlast ⊢
          exact behind_least hlast
      · next hend =>
        rcases (hmatch _).mp hrest with ⟨hone, hback⟩ | ⟨hstart, ms, e, ns, rfl, he, -⟩
        · rw [if_pos hone, hback]
        · exact absurd ⟨hstart, e, List.mem_append_right _ (List.mem_cons_self ..), he⟩ hend

end Spans

section Removal

variable {r : Regex} {u v l : List Char} {ls : List (List Char)} {n : Nat}

theorem removeLines_copy (hl : '\n' ∉ l) (z : List Char) (hn : l.length ≤ n) :
    removeLines r n false (l ++ z) = l ++ removeLines r (n - l.length) false z := by
  induction l generalizing n with
  | nil => rfl
  | cons c l ih =>
      obtain ⟨n, rfl⟩ : ∃ k, n = k + 1 := ⟨n - 1, by rw [List.length_cons] at hn; omega⟩
      have hc : (decide (c = '\n')) = false := decide_eq_false fun hc => hl (hc ▸ List.mem_cons_self ..)
      have hstep : removeLines r (n + 1) false (c :: l ++ z) =
          c :: removeLines r n (decide (c = '\n')) (l ++ z) := rfl
      rw [hstep, hc, ih (fun h => hl (List.mem_cons_of_mem _ h)) (by simpa using hn), List.length_cons,
        Nat.add_sub_add_right]
      rfl

theorem removeLines_behind (ls : List (List Char)) (n : Nat) : removeLines r (n + 1) false (behind '\n' ls) =
    match ls with
    | [] => []
    | l :: ls => '\n' :: removeLines r n true (l ++ behind '\n' ls) := by
  cases ls <;> rfl

theorem removeLines_none (hl : '\n' ∉ l) (hnone : lineMatch r (l ++ behind '\n' ls) = none)
    (hn : (l ++ behind '\n' ls).length < n) :
    ∃ k, (behind '\n' ls).length ≤ k ∧
      removeLines r n true (l ++ behind '\n' ls) = l ++ removeLines r (k + 1) false (behind '\n' ls) := by
  obtain ⟨n, rfl⟩ : ∃ k, n = k + 1 := ⟨n - 1, by omega⟩
  rw [List.length_append] at hn
  refine ⟨n - l.length, by omega, ?_⟩
  have hfuel : n - l.length + 1 = n + 1 - l.length := by omega
  rw [removeLines_true, hnone, hfuel]
  exact removeLines_copy hl _ (by omega)

theorem removeLines_some {rest : List Char} (hsome : lineMatch r (l ++ behind '\n' ls) = some rest)
    (hn : (l ++ behind '\n' ls).length < n) (hrest : rest.length < (l ++ behind '\n' ls).length) :
    ∃ k, rest.length ≤ k ∧ removeLines r n true (l ++ behind '\n' ls) = removeLines r (k + 1) false rest := by
  obtain ⟨n, rfl⟩ : ∃ k, n = k + 2 := ⟨n - 2, by omega⟩
  exact ⟨n, by omega, by rw [removeLines_true, hsome]⟩

theorem removeLines_stay (hu : '\n' ∉ u) (hv : '\n' ∉ v) (hv0 : v ≠ []) (hls : ∀ m ∈ ls, '\n' ∉ m)
    (hend : ∀ e ∈ ls, ¬ v <:+: e)
    (hn : (behind '\n' ls).length ≤ n) :
    removeLines (spanRe u v) (n + 1) false (behind '\n' ls) = behind '\n' ls := by
  induction ls generalizing n with
  | nil => rfl
  | cons l ls ih =>
      have hl : '\n' ∉ l := hls l (List.mem_cons_self ..)
      have hls := fun m hm => hls m (List.mem_cons_of_mem l hm)
      have hnone : lineMatch (spanRe u v) (l ++ behind '\n' ls) = none := by
        have hone : ¬ oneLine u v l := fun hone => hend l (List.mem_cons_self ..) (infix_of_oneLine hv0 hone)
        rw [lineMatch_lines hu hv hv0 hl hls, if_neg, if_neg hone]
        rintro ⟨-, e, he, hve⟩
        exact hend e (List.mem_cons_of_mem l he) hve
      rw [behind_cons, List.length_cons] at hn
      obtain ⟨k, hk, hrun⟩ := removeLines_none hl hnone hn
      rw [removeLines_behind]
      dsimp only
      rw [hrun, ih hls (fun e he => hend e (List.mem_cons_of_mem l he)) hk]
      rfl

theorem removeLines_span (hu : '\n' ∉ u) (hv : '\n' ∉ v) (hv0 : v ≠ []) (hls : ∀ m ∈ ls, '\n' ∉ m)
    (hn : (behind '\n' ls).length ≤ n) :
    removeLines (spanRe u v) (n + 1) false (behind '\n' ls) = behind '\n' (swallowed u v ls) := by
  induction ls generalizing n with
  | nil => rfl
  | cons l ls ih =>
      have hl : '\n' ∉ l := hls l (List.mem_cons_self ..)
      have hls := fun m hm => hls m (List.mem_cons_of_mem l hm)
      have hmatch := lineMatch_lines hu hv hv0 hl hls
      rw [behind_cons, List.length_cons] at hn
      rw [removeLines_behind]
      dsimp only
      by_cases hspan : u <:+: l ∧ ∃ e ∈ ls, v <:+: e
      · rw [if_pos hspan] at hmatch
        obtain ⟨ms, e, hms, -⟩ := last_line (p := fun e => ¬ v <:+: e) (by simpa using hspan.2)
        have hshort : (behind '\n' (ls.rtakeWhile fun e => ¬ v <:+: e)).length < (l ++ behind '\n' ls).length := by
          have hback := congrArg (fun ls => (behind '\n' ls).length) hms
          simp only [behind_append, behind_cons, List.length_append, List.length_cons] at hback ⊢
          omega
        obtain ⟨k, hk, hrun⟩ := removeLines_some hmatch hn hshort
        rw [hrun, swallowed, if_pos hspan, behind_cons, List.nil_append]
        refine congrArg _ (removeLines_stay hu hv hv0
          (fun m hm => hls m ((List.rtakeWhile_suffix _ ls).subset hm)) (fun e he => ?_) hk)
        simpa using List.mem_rtakeWhile_imp he
      · rw [if_neg hspan] at hmatch
        by_cases hone : oneLine u v l
        · rw [if_pos hone] at hmatch
          have hlong : 0 < l.length := (List.length_pos_iff.mpr hv0).trans_le (infix_of_oneLine hv0 hone).length_le
          obtain ⟨k, hk, hrun⟩ := removeLines_some hmatch hn (by rw [List.length_append]; omega)
          rw [hrun, swallowed, if_neg hspan, if_pos hone, behind_cons, List.nil_append]
          exact congrArg _ (removeLines_stay hu hv hv0 hls
            (fun e he hve => hspan ⟨start_of_oneLine hv0 hone, e, he, hve⟩) hk)
        · rw [if_neg hone] at hmatch
          obtain ⟨k, hk, hrun⟩ := removeLines_none hl hmatch hn
          rw [hrun, ih hls hk, swallowed, if_neg hspan, if_neg hone, behind_cons]

theorem swallowed_ne_nil (hls : ls ≠ []) : swallowed u v ls ≠ [] := by
  obtain ⟨l, ls, rfl⟩ := List.exists_cons_of_ne_nil hls
  unfold swallowed
  split
  · exact List.cons_ne_nil _ _
  · split <;> exact List.cons_ne_nil _ _

theorem mem_swallowed (h : l ∈ swallowed u v ls) : l = [] ∨ l ∈ ls := by
  induction ls with
  | nil => cases h
  | cons m ls ih =>
      rw [swallowed] at h
      split at h
      · exact (List.mem_cons.mp h).imp_right fun h => List.mem_cons_of_mem m
          ((List.rtakeWhile_suffix _ ls).subset h)
      · split at h
        · exact (List.mem_cons.mp h).imp_right (List.mem_cons_of_mem m)
        · rcases List.mem_cons.mp h with rfl | h
          · exact .inr (List.mem_cons_self ..)
          · exact (ih h).imp_right (List.mem_cons_of_mem m)

theorem remove_span (hu : '\n' ∉ u) (hv : '\n' ∉ v) (hv0 : v ≠ []) (text : List Char) :
    remove (spanRe u v) text = joined '\n' (swallowed u v (text.splitOn '\n')) := by
  obtain ⟨l, ls, hsplit⟩ := List.exists_cons_of_ne_nil (List.splitOn_ne_nil '\n' text)
  have htext : l ++ behind '\n' ls = text := by
    rw [← joined_splitOn '\n' text, hsplit]
    rfl
  have hrun : removeLines (spanRe u v) (text.length + 1 + 1) false (behind '\n' (l :: ls)) =
      behind '\n' (swallowed u v (l :: ls)) :=
    removeLines_span hu hv hv0 (fun m hm => not_mem_of_mem_splitOn (hsplit ▸ hm))
      (by rw [behind_cons, htext, List.length_cons])
  rw [removeLines_behind] at hrun
  dsimp only at hrun
  obtain ⟨m, ms, hswallowed⟩ := List.exists_cons_of_ne_nil
    (swallowed_ne_nil (u := u) (v := v) (List.cons_ne_nil l ls))
  rw [htext, hswallowed, behind_cons] at hrun
  rw [hsplit, hswallowed]
  exact (List.cons.inj hrun).2

end Removal

section Blanking

variable {u v : List Char} {ls : List (List Char)}

/-- The lines with each span from a line with `u` to the next one with `v` left as an empty line. There
is no span where no end follows. -/
def blanked (u v : List Char) : Bool → List (List Char) → List (List Char)
  | _, [] => []
  | true, l :: ls => blanked u v (¬ v <:+: l) ls
  | false, l :: ls =>
    if oneLine u v l then [] :: blanked u v false ls
    else if u <:+: l ∧ ∃ e ∈ ls, v <:+: e then [] :: blanked u v true ls
    else l :: blanked u v false ls

def behindFirst (u v : List Char) : List (List Char) → List (List Char)
  | [] => []
  | l :: ls =>
    if oneLine u v l then ls
    else if u <:+: l ∧ ∃ e ∈ ls, v <:+: e then (ls.dropWhile fun e => ¬ v <:+: e).tail
    else behindFirst u v ls

theorem blanked_ne_nil (hls : ls ≠ []) : blanked u v false ls ≠ [] := by
  obtain ⟨l, ls, rfl⟩ := List.exists_cons_of_ne_nil hls
  rw [blanked]
  split
  · exact List.cons_ne_nil _ _
  · split <;> exact List.cons_ne_nil _ _

theorem mem_blanked {b : Bool} {l : List Char} (h : l ∈ blanked u v b ls) : l = [] ∨ l ∈ ls := by
  induction ls generalizing b with
  | nil => cases h
  | cons m ls ih =>
      cases b with
      | true => exact (ih h).imp_right (List.mem_cons_of_mem m)
      | false =>
          rw [blanked] at h
          split at h
          · exact (List.mem_cons.mp h).elim .inl fun h => (ih h).imp_right (List.mem_cons_of_mem m)
          · split at h
            · exact (List.mem_cons.mp h).elim .inl fun h => (ih h).imp_right (List.mem_cons_of_mem m)
            · rcases List.mem_cons.mp h with rfl | h
              · exact .inr (List.mem_cons_self ..)
              · exact (ih h).imp_right (List.mem_cons_of_mem m)

theorem blanked_stay (hv0 : v ≠ []) (hend : ∀ e ∈ ls, ¬ v <:+: e) : blanked u v false ls = ls := by
  induction ls with
  | nil => rfl
  | cons l ls ih =>
      have hone : ¬ oneLine u v l := fun hone => hend l (List.mem_cons_self ..) (infix_of_oneLine hv0 hone)
      have hspan : ¬ (u <:+: l ∧ ∃ e ∈ ls, v <:+: e) :=
        fun ⟨_, e, he, hve⟩ => hend e (List.mem_cons_of_mem l he) hve
      rw [blanked, if_neg hone, if_neg hspan, ih fun e he => hend e (List.mem_cons_of_mem l he)]

theorem blanked_true (ls : List (List Char)) :
    blanked u v true ls = blanked u v false (ls.dropWhile fun e => ¬ v <:+: e).tail := by
  induction ls with
  | nil => rfl
  | cons l ls ih =>
      by_cases hl : v <:+: l
      · simp [blanked, hl]
      · simp [blanked, hl, ih]

theorem blanked_length {e : List Char} {ns : List (List Char)} (hv0 : v ≠ []) (he : v <:+: e)
    (hns : ∀ n ∈ ns, ¬ v <:+: n) (ms : List (List Char)) :
    ns.length ≤ (blanked u v true (ms ++ e :: ns)).length ∧
    ns.length < (blanked u v false (ms ++ e :: ns)).length := by
  induction ms with
  | nil =>
      have hstay : blanked u v false ns = ns := blanked_stay hv0 hns
      have hspan : ¬ (u <:+: e ∧ ∃ e ∈ ns, v <:+: e) := fun ⟨_, n, hn, hvn⟩ => hns n hn hvn
      constructor
      · simp [blanked, he, hstay]
      · simp only [List.nil_append, blanked, if_neg hspan, hstay]
        split <;> simp
  | cons m ms ih =>
      constructor
      · rw [List.cons_append, blanked]
        by_cases hm : v <:+: m
        · simpa [hm] using Nat.le_of_lt ih.2
        · simpa [hm] using ih.1
      · rw [List.cons_append, blanked]
        split
        · exact Nat.lt_succ_of_lt ih.2
        · split
          · exact Nat.lt_succ_of_le ih.1
          · exact Nat.lt_succ_of_lt ih.2

theorem no_end {e : List Char} (he : e ∈ ls.rtakeWhile fun e => ¬ v <:+: e) : ¬ v <:+: e :=
  of_decide_eq_true (List.mem_rtakeWhile_imp (p := fun e => decide ¬ v <:+: e) he)

theorem swallowed_stay (hv0 : v ≠ []) (hend : ∀ e ∈ ls, ¬ v <:+: e) : swallowed u v ls = ls := by
  induction ls with
  | nil => rfl
  | cons l ls ih =>
      have hone : ¬ oneLine u v l := fun hone => hend l (List.mem_cons_self ..) (infix_of_oneLine hv0 hone)
      have hspan : ¬ (u <:+: l ∧ ∃ e ∈ ls, v <:+: e) := fun h => h.2.elim fun e he => hend e (.tail l he.1) he.2
      rw [swallowed, if_neg hspan, if_neg hone, ih fun e he => hend e (.tail l he)]

theorem swallowed_again (hv0 : v ≠ []) (ls : List (List Char)) :
    swallowed u v (swallowed u v ls) = swallowed u v ls := by
  have hnil : ¬ v <:+: [] := fun h => hv0 (List.infix_nil.mp h)
  have hstay {ms : List (List Char)} (hms : ∀ e ∈ ms, ¬ v <:+: e) : swallowed u v ([] :: ms) = [] :: ms :=
    swallowed_stay hv0 (List.forall_mem_cons.mpr ⟨hnil, hms⟩)
  induction ls with
  | nil => rfl
  | cons l ls ih =>
      by_cases hspan : u <:+: l ∧ ∃ e ∈ ls, v <:+: e
      · rw [swallowed, if_pos hspan]
        exact hstay fun e he => no_end he
      by_cases hone : oneLine u v l
      · rw [swallowed, if_neg hspan, if_pos hone]
        exact hstay fun e he hve => hspan ⟨start_of_oneLine hv0 hone, e, he, hve⟩
      · rw [swallowed, if_neg hspan, if_neg hone, swallowed, if_neg ?_, if_neg hone, ih]
        -- an end that is left behind the line was there before
        rintro ⟨hu, e, he, hve⟩
        rcases mem_swallowed he with rfl | he
        · exact hnil hve
        · exact hspan ⟨hu, e, he, hve⟩

theorem blanked_ne (hv0 : v ≠ []) (hend : ∃ e ∈ ls, v <:+: e) :
    (ls.rtakeWhile fun e => ¬ v <:+: e) ≠ blanked u v false ls := by
  obtain ⟨ms, e, hms, he⟩ := last_line (p := fun e => ¬ v <:+: e) (by simpa using hend)
  intro heq
  have hns : ∀ n ∈ ls.rtakeWhile (fun e => ¬ v <:+: e), ¬ v <:+: n := fun n hn => no_end hn
  have hlong := (blanked_length (u := u) hv0 (by simpa using he) hns ms).2
  rw [← hms, ← heq] at hlong
  exact Nat.lt_irrefl _ hlong

theorem rtakeWhile_first (hend : ∃ e ∈ ls, v <:+: e) : (ls.rtakeWhile fun e => ¬ v <:+: e) =
    (ls.dropWhile fun e => ¬ v <:+: e).tail.rtakeWhile fun e => ¬ v <:+: e := by
  have hne : (ls.dropWhile fun e => ¬ v <:+: e) ≠ [] := by
    intro hnil
    obtain ⟨e, he, hve⟩ := hend
    exact of_decide_eq_true (List.dropWhile_eq_nil_iff.mp hnil e he) hve
  obtain ⟨e, rest, hrest⟩ := List.exists_cons_of_ne_nil hne
  have he : ¬ (decide ¬ v <:+: e) = true := by
    have hhead := List.head_dropWhile_not (fun e => decide ¬ v <:+: e) hne
    simp only [hrest, List.head_cons] at hhead
    exact Bool.eq_false_iff.mp hhead
  conv => lhs; rw [← List.takeWhile_append_dropWhile (p := fun e => decide ¬ v <:+: e) (l := ls), hrest]
  rw [hrest, List.tail_cons]
  exact rtakeWhile_behind he _ rest

theorem swallowed_eq_blanked (hv0 : v ≠ []) (ls : List (List Char)) :
    swallowed u v ls = blanked u v false ls ↔ ∀ e ∈ behindFirst u v ls, ¬ v <:+: e := by
  induction ls with
  | nil => exact iff_of_true rfl nofun
  | cons l ls ih =>
      rw [swallowed, blanked, behindFirst]
      by_cases hspan : u <:+: l ∧ ∃ e ∈ ls, v <:+: e
      · by_cases hone : oneLine u v l
        · simp only [if_pos hspan, if_pos hone]
          obtain ⟨-, e, he, hve⟩ := hspan
          exact iff_of_false (fun h => blanked_ne hv0 ⟨e, he, hve⟩ (List.cons.inj h).2) fun h => h e he hve
        · simp only [if_pos hspan, if_neg hone]
          obtain ⟨-, e, he, hve⟩ := hspan
          rw [List.cons_inj_right, blanked_true, rtakeWhile_first ⟨e, he, hve⟩]
          constructor
          · intro heq e he hve
            exact blanked_ne hv0 ⟨e, he, hve⟩ heq
          · intro hend
            rw [blanked_stay hv0 hend]
            exact List.rtakeWhile_eq_self_iff.mpr fun e he => decide_eq_true (hend e he)
      · simp only [if_neg hspan]
        split
        · next hone =>
          have hend : ∀ e ∈ ls, ¬ v <:+: e := fun e he hve => hspan ⟨start_of_oneLine hv0 hone, e, he, hve⟩
          exact iff_of_true (by rw [blanked_stay hv0 hend]) hend
        · rw [List.cons_inj_right, ih]

end Blanking

end OiUserland.Lib.Spans
