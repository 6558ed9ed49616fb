import Mathlib.Data.List.DropRight
import OiUserland.Lib.Splits

namespace OiUserland.Lib.PosixPaths

variable {p q x : List Char} {c d : List (List Char)}

/-- What is before the last slash, without the slashes that end it unless there is nothing else. -/
def dirname (p : List Char) : List Char :=
  let head := p.rdropWhile (· ≠ '/')
  if head.all (· = '/') then head else head.rdropWhile (· = '/')

def basename (p : List Char) : List Char := p.rtakeWhile (· ≠ '/')

/-- The last component is split at its last dot, unless only dots are in front of it. -/
def splitext (p : List Char) : List Char × List Char :=
  let stem := (basename p).rdropWhile (· ≠ '.')
  let ext := if stem.all (· = '.') then [] else '.' :: p.rtakeWhile (· ≠ '.')
  (p.take (p.length - ext.length), ext)

def join (p q : List Char) : List Char :=
  if q.head? = some '/' then q
  else if p = [] ∨ p.getLast? = some '/' then p ++ q
  else p ++ '/' :: q

def curdir : List Char := ['.']

def pardir : List Char := ['.', '.']

def components (p : List Char) : List (List Char) := p.splitOn '/'

def render (c : List (List Char)) : List Char := ['/'].intercalate c

def enter (c : List (List Char)) (x : List Char) : List (List Char) :=
  if x = pardir then c.dropLast else if x = curdir ∨ x = [] then c else c ++ [x]

def normal (p : List Char) : List (List Char) := (components p).foldl enter []

theorem render_concat (hc : c ≠ []) (x : List Char) : render (c ++ [x]) = render c ++ '/' :: x := by
  induction c with
  | nil => exact absurd rfl hc
  | cons y c ih =>
      cases c with
      | nil => simp [render]
      | cons z c =>
          have ih := ih (List.cons_ne_nil z c)
          simp only [render, List.cons_append, List.intercalate_cons_cons] at ih ⊢
          rw [ih]
          simp [List.append_assoc]

theorem components_slash (p q : List Char) : components (p ++ '/' :: q) = components p ++ components q :=
  List.splitOn_append_cons_self p q

theorem components_render (hx : ∀ x ∈ c, '/' ∉ x) (hc : c ≠ []) : components (render c) = c :=
  List.splitOn_intercalate '/' hx hc

theorem render_components (p : List Char) : render (components p) = p := List.intercalate_splitOn '/'

theorem slash_not_mem (hx : x ∈ components p) : '/' ∉ x := Splits.not_mem_of_mem_splitOn hx

theorem render_append (hc : c ≠ []) (hd : d ≠ []) : render (c ++ d) = render c ++ '/' :: render d := by
  induction d generalizing c with
  | nil => exact absurd rfl hd
  | cons x d ih =>
      cases d with
      | nil =>
          have hx : render [x] = x := List.intercalate_singleton
          rw [render_concat hc, hx]
      | cons y d =>
          have hnil : c ++ [x] ≠ [] := by simp
          rw [List.append_cons, ih hnil (List.cons_ne_nil y d), render_concat hc]
          simp [render, List.intercalate_cons_cons]

theorem render_head (hslash : ∀ x ∈ c, '/' ∉ x) (hfirst : c.head? ≠ some []) (hc : c ≠ []) :
    ∃ a p, render c = a :: p ∧ a ≠ '/' := by
  obtain ⟨x, c, rfl⟩ := List.exists_cons_of_ne_nil hc
  obtain ⟨a, x, rfl⟩ := List.exists_cons_of_ne_nil fun hx : x = [] => hfirst (congrArg some hx)
  have ha : a ≠ '/' := by
    rintro rfl
    exact hslash _ (List.mem_cons_self ..) (List.mem_cons_self ..)
  cases c with
  | nil => exact ⟨a, x, List.intercalate_singleton, ha⟩
  | cons y c => exact ⟨a, _, List.intercalate_cons_cons, ha⟩

theorem render_getLast (hslash : '/' ∉ x) (hx : x ≠ []) (c : List (List Char)) :
    (render (c ++ [x])).getLast? ≠ some '/' := by
  intro hlast
  refine hslash (List.mem_of_getLast? ?_)
  cases c with
  | nil => simpa [render] using hlast
  | cons y c =>
      rw [render_concat (List.cons_ne_nil y c), List.append_cons, List.getLast?_append_of_ne_nil _ hx] at hlast
      exact hlast

structure Relative (c : List (List Char)) : Prop where
  slash : ∀ x ∈ c, '/' ∉ x
  first : c.head? ≠ some []
  last : c.getLast? ≠ some []

theorem relative_nil : Relative [] := ⟨nofun, nofun, nofun⟩

theorem Relative.concat (h : Relative c) (hx : '/' ∉ x) (hne : x ≠ []) : Relative (c ++ [x]) := by
  refine ⟨fun y hy => ?_, ?_, ?_⟩
  · rcases List.mem_append.mp hy with hy | hy
    · exact h.slash y hy
    · exact List.mem_singleton.mp hy ▸ hx
  · cases c with
    | nil => exact fun h => hne (Option.some.inj h)
    | cons y c => exact h.first
  · rw [List.getLast?_concat]
    exact fun h => hne (Option.some.inj h)

theorem Relative.head (h : Relative c) : (render c).head? ≠ some '/' := by
  by_cases hc : c = []
  · subst hc
    exact nofun
  · obtain ⟨a, p, hp, ha⟩ := render_head h.slash h.first hc
    rw [hp]
    exact fun h => ha (Option.some.inj h)

theorem Relative.ne_nil (h : Relative c) (hc : c ≠ []) : render c ≠ [] := by
  obtain ⟨a, p, hp, -⟩ := render_head h.slash h.first hc
  rw [hp]
  exact List.cons_ne_nil a p

theorem Relative.getLast (h : Relative c) : (render c).getLast? ≠ some '/' := by
  rcases List.eq_nil_or_concat' c with rfl | ⟨l, x, rfl⟩
  · exact nofun
  · have hx : x ≠ [] := fun hx => h.last (by rw [List.getLast?_concat, hx])
    exact render_getLast (h.slash x (List.mem_append_right l (List.mem_singleton_self x))) hx l

theorem render_inj (hc : Relative c) (hd : Relative d) (h : render c = render d) : c = d := by
  by_cases hnil : c = []
  · by_contra hne
    have hd0 : d ≠ [] := fun hd0 => hne (hnil.trans hd0.symm)
    rw [hnil] at h
    exact hd.ne_nil hd0 h.symm
  · have hdne : d ≠ [] := by
      rintro rfl
      exact hc.ne_nil hnil h
    rw [← components_render hc.slash hnil, h, components_render hd.slash hdne]

/-- The directory a relative path is in, as it is written: the last component goes, and the
empty ones in front of it. -/
def parent (c : List (List Char)) : List (List Char) := c.dropLast.rdropWhile (· = [])

theorem parent_initial (c : List (List Char)) : parent c <+: c :=
  (List.rdropWhile_prefix _ _).trans (List.dropLast_prefix c)

theorem Relative.parent (h : Relative c) : Relative (parent c) := by
  obtain ⟨d, hd⟩ := parent_initial c
  refine ⟨fun x hx => h.slash x ((parent_initial c).subset hx), fun hfirst => ?_, fun hlast => ?_⟩
  · refine h.first ?_
    rw [← hd, List.head?_append, hfirst]
    rfl
  · have hne : PosixPaths.parent c ≠ [] := by
      intro hnil
      rw [hnil] at hlast
      cases hlast
    have hnot := List.rdropWhile_last_not (fun x : List Char => x = []) c.dropLast hne
    rw [List.getLast?_eq_getLast_of_ne_nil hne] at hlast
    exact hnot (by simpa [PosixPaths.parent] using hlast)

theorem rdropWhile_of_getLast (h : p.getLast? ≠ some '/') : p.rdropWhile (· = '/') = p := by
  refine List.rdropWhile_eq_self_iff.mpr fun hp hlast => h ?_
  rw [List.getLast?_eq_getLast_of_ne_nil hp, of_decide_eq_true hlast]

theorem rdropWhile_render (hslash : ∀ x ∈ c, '/' ∉ x) (hfirst : c.head? ≠ some []) :
    (render c).rdropWhile (· = '/') = render (c.rdropWhile (· = [])) := by
  induction c using List.reverseRecOn with
  | nil => rfl
  | append_singleton c x ih =>
      by_cases hx : x = []
      · subst hx
        have hc : c ≠ [] := by
          rintro rfl
          exact hfirst rfl
        rw [List.rdropWhile_concat_pos _ _ _ (by simp), render_concat hc,
          List.rdropWhile_concat_pos _ _ _ (by simp)]
        refine ih (fun y hy => hslash y (List.mem_append_left _ hy)) fun h => hfirst ?_
        rw [List.head?_append, h]
        rfl
      · rw [List.rdropWhile_concat_neg _ _ _ (by simpa using hx)]
        exact rdropWhile_of_getLast
          (render_getLast (hslash x (List.mem_append_right c (List.mem_singleton_self x))) hx c)

theorem rdropWhile_name (hslash : '/' ∉ x) (p : List Char) :
    (p ++ x).rdropWhile (· ≠ '/') = p.rdropWhile (· ≠ '/') := by
  induction x using List.reverseRecOn with
  | nil => rw [List.append_nil]
  | append_singleton x a ih =>
      have ha : a ≠ '/' := by
        rintro rfl
        exact hslash (List.mem_append_right x (List.mem_singleton_self _))
      rw [← List.append_assoc, List.rdropWhile_concat_pos _ _ _ (by simpa using ha)]
      exact ih fun h => hslash (List.mem_append_left _ h)

/-- The directory of a path whose last component is `x`. -/
theorem dirname_name (hslash : '/' ∉ x) (hhead : p.head? ≠ some '/') (hp : p ≠ []) :
    dirname (p ++ '/' :: x) = p.rdropWhile (· = '/') := by
  have hup : (p ++ '/' :: x).rdropWhile (· ≠ '/') = p ++ ['/'] := by
    rw [List.append_cons, rdropWhile_name hslash, List.rdropWhile_concat_neg _ _ _ (by simp)]
  have hall : ¬ (p ++ ['/']).all (· = '/') := by
    obtain ⟨a, p, rfl⟩ := List.exists_cons_of_ne_nil hp
    have ha : a ≠ '/' := fun ha => hhead (congrArg some ha)
    simp [ha]
  simp only [dirname, hup, if_neg hall]
  exact List.rdropWhile_concat_pos _ _ _ (by simp)

theorem dirname_render (h : Relative c) : dirname (render c) = render (parent c) := by
  rcases List.eq_nil_or_concat' c with rfl | ⟨l, x, rfl⟩
  · rfl
  · have hx : '/' ∉ x := h.slash x (List.mem_append_right l (List.mem_singleton_self x))
    rw [parent, List.dropLast_concat]
    cases l with
    | nil =>
        have hup : x.rdropWhile (· ≠ '/') = [] := by
          rw [← List.nil_append x, rdropWhile_name hx]
          rfl
        have hnil : dirname x = [] := by simp only [dirname, hup, List.all_nil, if_true]
        rw [List.nil_append, render, List.intercalate_singleton, hnil]
        rfl
    | cons y l =>
        have hslash : ∀ z ∈ y :: l, '/' ∉ z := fun z hz => h.slash z (List.mem_append_left _ hz)
        have hfirst : (y :: l).head? ≠ some [] := h.first
        obtain ⟨a, p, hp, ha⟩ := render_head hslash hfirst (List.cons_ne_nil y l)
        rw [render_concat (List.cons_ne_nil y l), dirname_name hx, rdropWhile_render hslash hfirst]
        · rw [hp]
          exact fun h => ha (Option.some.inj h)
        · rw [hp]
          exact List.cons_ne_nil a p

theorem dirname_slash (h : Relative c) (hc : c ≠ []) : dirname (render c ++ ['/']) = render c := by
  rw [dirname_name List.not_mem_nil h.head (h.ne_nil hc), rdropWhile_of_getLast h.getLast]

theorem head_of_initial (h : q <+: p) (hhead : p.head? ≠ some '/') : q.head? ≠ some '/' := by
  obtain ⟨r, rfl⟩ := h
  intro hq
  rw [List.head?_append, hq] at hhead
  exact hhead rfl

theorem dirname_relative (hhead : p.head? ≠ some '/') : (dirname p).head? ≠ some '/' ∧
    (dirname p).getLast? ≠ some '/' := by
  have hup : (p.rdropWhile (· ≠ '/')).head? ≠ some '/' := head_of_initial (List.rdropWhile_prefix _ p) hhead
  simp only [dirname]
  split
  · next hall =>
    refine ⟨hup, fun hlast => hup ?_⟩
    obtain ⟨a, q, hq⟩ := List.exists_cons_of_ne_nil (List.ne_nil_of_mem (List.mem_of_getLast? hlast))
    rw [hq] at hall ⊢
    rw [List.all_cons, Bool.and_eq_true] at hall
    exact congrArg some (of_decide_eq_true hall.1)
  · refine ⟨head_of_initial (List.rdropWhile_prefix _ _) hup, fun hlast => ?_⟩
    have hne := List.ne_nil_of_mem (List.mem_of_getLast? hlast)
    have hnot := List.rdropWhile_last_not _ _ hne
    rw [List.getLast?_eq_getLast_of_ne_nil hne] at hlast
    exact hnot (decide_eq_true (Option.some.inj hlast))

theorem components_relative (hp : p ≠ []) (hhead : p.head? ≠ some '/') (hlast : p.getLast? ≠ some '/') :
    Relative (components p) := by
  have hrender := render_components p
  refine ⟨fun x hx => slash_not_mem hx, fun hfirst => ?_, fun hend => ?_⟩
  · cases hc : components p with
    | nil => exact List.splitOn_ne_nil '/' p hc
    | cons x c =>
        rw [hc] at hfirst hrender
        obtain rfl := Option.some.inj hfirst
        cases c with
        | nil => exact hp hrender.symm
        | cons y c =>
            rw [← hrender] at hhead
            exact hhead rfl
  · rcases List.eq_nil_or_concat' (components p) with hc | ⟨l, x, hc⟩
    · exact List.splitOn_ne_nil '/' p hc
    · rw [hc, List.getLast?_concat] at hend
      obtain rfl := Option.some.inj hend
      rw [hc] at hrender
      cases l with
      | nil => exact hp hrender.symm
      | cons y l =>
          rw [render_concat (List.cons_ne_nil y l)] at hrender
          rw [← hrender] at hlast
          exact hlast List.getLast?_concat

theorem join_name (h : Relative c) (hx : '/' ∉ x) : join (render c) x = if c = [] then x
    else render c ++ '/' :: x := by
  have hhead : x.head? ≠ some '/' := fun hhead => hx (List.mem_of_head? hhead)
  rw [join, if_neg hhead]
  by_cases hc : c = []
  · subst hc
    rfl
  · rw [if_neg (not_or.mpr ⟨h.ne_nil hc, h.getLast⟩), if_neg hc]

theorem join_slash (p : List Char) (hx : '/' ∉ x) : join (p ++ ['/']) x = p ++ '/' :: x := by
  have hhead : x.head? ≠ some '/' := fun hhead => hx (List.mem_of_head? hhead)
  rw [join, if_neg hhead, if_pos (Or.inr List.getLast?_concat), List.append_assoc]
  rfl

structure Plain (c : List (List Char)) : Prop where
  slash : ∀ x ∈ c, '/' ∉ x
  name : ∀ x ∈ c, x ≠ []

theorem Plain.relative (h : Plain c) : Relative c := by
  refine ⟨h.slash, fun hfirst => ?_, fun hlast => ?_⟩
  · exact h.name _ (List.mem_of_head? hfirst) rfl
  · exact h.name _ (List.mem_of_getLast? hlast) rfl

theorem Plain.enter (h : Plain c) (hx : '/' ∉ x) : Plain (enter c x) := by
  unfold PosixPaths.enter
  split
  · exact ⟨fun y hy => h.slash y (List.dropLast_subset c hy), fun y hy => h.name y (List.dropLast_subset c hy)⟩
  · split
    · exact h
    · next hne =>
      have hx0 : x ≠ [] := fun hx0 => hne (Or.inr hx0)
      refine ⟨fun y hy => ?_, fun y hy => ?_⟩
      · rcases List.mem_append.mp hy with hy | hy
        · exact h.slash y hy
        · exact List.mem_singleton.mp hy ▸ hx
      · rcases List.mem_append.mp hy with hy | hy
        · exact h.name y hy
        · exact List.mem_singleton.mp hy ▸ hx0

theorem normal_plain (p : List Char) : Plain (normal p) := by
  suffices h : ∀ xs : List (List Char), (∀ x ∈ xs, '/' ∉ x) → ∀ c, Plain c → Plain (xs.foldl enter c) from
    h (components p) (fun x hx => slash_not_mem hx) [] ⟨nofun, nofun⟩
  intro xs
  induction xs with
  | nil => exact fun _ c hc => hc
  | cons x xs ih =>
      intro hxs c hc
      exact ih (fun y hy => hxs y (List.mem_cons_of_mem x hy)) _ (hc.enter (hxs x (List.mem_cons_self ..)))

end OiUserland.Lib.PosixPaths
