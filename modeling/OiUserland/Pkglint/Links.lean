import OiUserland.Lib.Dicts
import OiUserland.Lib.PosixPaths

namespace OiUserland.Pkglint.Links

open Lib.Dicts Lib.PosixPaths

variable {F : Type}

structure Action where
  name : List Char
  path : List Char
  target : List Char

structure RefPaths (F : Type) extends Dict (List Char) (List (F × Action)) where
  delivered : ∀ e ∈ entries, e.2 ≠ []
  relative : ∀ e ∈ entries, e.1.head? ≠ some '/'

structure Report where
  text : List Char
  msgid : List Char
  deriving DecidableEq

def checkerName : List Char := "userland.action".toList

def realpath (path target : List Char) : List Char :=
  (components target).foldl
    (fun result frag =>
      if frag = pardir then dirname result
      else if frag = curdir then result
      else join result frag)
    (dirname path)

def linkResolves (refPaths : RefPaths F) (action : Action) (pkglintId : List Char) : Option Report :=
  if action.name ≠ "link".toList ∧ action.name ≠ "hardlink".toList then none
  else
    let realtarget := realpath action.path action.target
    if (refPaths.get realtarget).any (fun actions => !actions.isEmpty) then none
    else if refPaths.entries.any fun e => (realtarget ++ ['/']).isPrefixOf e.1 then none
    else some
      { text := action.name ++ " ".toList ++ action.path ++ " has unresolvable target '".toList ++ action.target ++ "'".toList
        msgid := checkerName ++ pkglintId ++ ".0".toList }

/-- Where a link leads to, as names from the root on. -/
def place (path target : List Char) : List (List Char) :=
  normal (if target.head? = some '/' then target else dirname path ++ '/' :: target)

/-- The place is a path of the image or a directory above one. -/
def Resolves (refPaths : RefPaths F) (c : List (List Char)) : Prop :=
  ∃ e ∈ refPaths.entries, e.1 = render c ∨ ∃ d, d ≠ [] ∧ components e.1 = c ++ d

/-- The components a target is followed by: dots and empty components go, and two dots go that stand
behind an empty component. -/
def followed : Bool → List (List Char) → List (List Char)
  | _, [] => []
  | behind, x :: xs =>
    if x = curdir then followed behind xs
    else if x = [] then followed true xs
    else if x = pardir ∧ behind then followed false xs
    else x :: followed false xs

def follow (c : List (List Char)) (x : List Char) : List (List Char) := if x = pardir then parent c else c ++ [x]

def directory (path : List Char) : List (List Char) := if dirname path = [] then [] else components (dirname path)

/-- A slash stands at the end of the target, or only dots and slashes behind it. -/
def Trailing (target : List Char) : Prop := ((components target).filter (· ≠ curdir)).getLast? = some []

section Walk

variable {c : List (List Char)} {s : List (List Char) × Bool} {x : List Char} {xs : List (List Char)}

def text (s : List (List Char) × Bool) : List Char := render s.1 ++ if s.2 then ['/'] else []

def walk (s : List (List Char) × Bool) (x : List Char) : List (List Char) × Bool :=
  if x = pardir then (if s.2 then s.1 else parent s.1, false)
  else if x = curdir then s
  else if x = [] then (s.1, s.1 ≠ [])
  else (s.1 ++ [x], false)

structure Walked (s : List (List Char) × Bool) : Prop where
  relative : Relative s.1
  ne_nil : s.2 → s.1 ≠ []

theorem Walked.head (h : Walked s) : (text s).head? ≠ some '/' := by
  obtain ⟨c, slash⟩ := s
  by_cases hc : c = []
  · subst hc
    cases slash with
    | true => exact absurd rfl (h.ne_nil rfl)
    | false => exact nofun
  · obtain ⟨a, p, hp, ha⟩ := render_head h.relative.slash h.relative.first hc
    rw [text, hp]
    exact fun heq => ha (Option.some.inj heq)

theorem dirname_text (h : Walked s) : dirname (text s) = render (if s.2 then s.1 else parent s.1) := by
  obtain ⟨c, b⟩ := s
  cases b with
  | true => exact dirname_slash h.relative (h.ne_nil rfl)
  | false =>
      have htext : text (c, false) = render c := List.append_nil _
      rw [htext]
      exact dirname_render h.relative

theorem join_text (h : Walked s) (hslash : '/' ∉ x) :
    join (text s) x = if s.1 = [] then x else render s.1 ++ '/' :: x := by
  obtain ⟨c, b⟩ := s
  cases b with
  | true =>
      rw [if_neg (h.ne_nil rfl)]
      exact join_slash _ hslash
  | false =>
      have htext : text (c, false) = render c := List.append_nil _
      rw [htext]
      exact join_name h.relative hslash

theorem walk_text (h : Walked s) (hslash : '/' ∉ x) :
    (if x = pardir then dirname (text s) else if x = curdir then text s else join (text s) x)
    = text (walk s x) := by
  unfold walk
  by_cases hup : x = pardir
  · simp only [if_pos hup]
    rw [dirname_text h]
    exact (List.append_nil _).symm
  · by_cases hdot : x = curdir
    · simp only [if_neg hup, if_pos hdot]
    · simp only [if_neg hup, if_neg hdot]
      rw [join_text h hslash]
      by_cases hx : x = [] <;> by_cases hc : s.1 = []
      · simp [hx, hc, text, render]
      · simp [hx, hc, text]
      · simp [hx, hc, text, render]
      · rw [if_neg hx, if_neg hc, text, render_concat hc]
        exact (List.append_nil _).symm

theorem Walked.walk (h : Walked s) (hslash : '/' ∉ x) : Walked (walk s x) := by
  unfold Links.walk
  by_cases hup : x = pardir
  · rw [if_pos hup]
    refine ⟨?_, nofun⟩
    by_cases hs : s.2
    · simpa [hs] using h.relative
    · simpa [hs] using h.relative.parent
  · rw [if_neg hup]
    by_cases hdot : x = curdir
    · rwa [if_pos hdot]
    · rw [if_neg hdot]
      by_cases hx : x = []
      · rw [if_pos hx]
        exact ⟨h.relative, fun hs => of_decide_eq_true hs⟩
      · rw [if_neg hx]
        exact ⟨h.relative.concat hslash hx, nofun⟩

theorem walk_run (xs : List (List Char)) (hxs : ∀ x ∈ xs, '/' ∉ x) (h : Walked s) :
    xs.foldl (fun result frag => if frag = pardir then dirname result else if frag = curdir then result
    else join result frag)
      (text s) = text (xs.foldl Links.walk s) ∧ Walked (xs.foldl Links.walk s) := by
  induction xs generalizing s with
  | nil => exact ⟨rfl, h⟩
  | cons x xs ih =>
      have hx : '/' ∉ x := hxs x (List.mem_cons_self ..)
      rw [List.foldl_cons, List.foldl_cons, walk_text h hx]
      exact ih (fun y hy => hxs y (List.mem_cons_of_mem x hy)) (h.walk hx)

theorem walk_followed (xs : List (List Char)) (s : List (List Char) × Bool) (behind : Bool)
    (hnil : s.1 = [] → s.2 = false)
    (hs : s.1 ≠ [] → s.2 = behind) : (xs.foldl Links.walk s).1 = (followed behind xs).foldl follow s.1 := by
  induction xs generalizing s behind with
  | nil => rfl
  | cons x xs ih =>
      obtain ⟨c, b⟩ := s
      simp only [List.foldl_cons, followed]
      by_cases hdot : x = curdir
      · subst hdot
        exact ih (c, b) behind hnil hs
      · rw [if_neg hdot]
        by_cases hx : x = []
        · subst hx
          refine ih (c, decide (c ≠ [])) true (fun hc => ?_) fun hc => decide_eq_true hc
          exact decide_eq_false fun hne => hne hc
        · rw [if_neg hx]
          by_cases hup : x = pardir
          · subst hup
            cases behind with
            | true =>
                have hstay : (Links.walk (c, b) pardir).1 = c := by
                  by_cases hc : c = []
                  · subst hc
                    cases b <;> rfl
                  · obtain rfl : b = true := hs hc
                    rfl
                have hend := ih (Links.walk (c, b) pardir) false (fun _ => rfl) (fun _ => rfl)
                rw [hend, hstay]
                rfl
            | false =>
                have hb : b = false := by
                  by_cases hc : c = []
                  · exact hnil hc
                  · exact hs hc
                subst hb
                exact ih (parent c, false) false (fun _ => rfl) (fun _ => rfl)
          · have hstep : Links.walk (c, b) x = (c ++ [x], false) := by
              rw [Links.walk, if_neg hup, if_neg hdot, if_neg hx]
            rw [hstep, if_neg fun h => hup h.1, List.foldl_cons, follow, if_neg hup]
            exact ih (c ++ [x], false) false (fun _ => rfl) (fun _ => rfl)

theorem walk_slash (xs : List (List Char)) (c : List (List Char)) :
    (xs.foldl Links.walk (c, false)).2 ↔
      (xs.foldl Links.walk (c, false)).1 ≠ [] ∧ (xs.filter (· ≠ curdir)).getLast? = some [] := by
  induction xs using List.reverseRecOn with
  | nil => exact ⟨nofun, fun h => nomatch h.2⟩
  | append_singleton xs x ih =>
      rw [List.foldl_concat, List.filter_append]
      generalize xs.foldl Links.walk (c, false) = s at ih ⊢
      by_cases hdot : x = curdir
      · subst hdot
        have hstay : Links.walk s curdir = s := rfl
        rw [hstay, List.filter_singleton]
        simpa using ih
      · have hkeep : [x].filter (· ≠ curdir) = [x] := List.filter_eq_self.mpr (by simpa using hdot)
        rw [hkeep, List.getLast?_concat]
        by_cases hup : x = pardir
        · subst hup
          exact ⟨nofun, fun h => nomatch h.2⟩
        · by_cases hx : x = []
          · subst hx
            exact ⟨fun hs => ⟨of_decide_eq_true hs, rfl⟩, fun hs => decide_eq_true hs.1⟩
          · simp [Links.walk, hup, hdot, hx]

end Walk

section Resolution

variable {refPaths : RefPaths F} {action : Action} {c : List (List Char)} {k path target : List Char}

theorem directory_relative (hpath : path.head? ≠ some '/') : Relative (directory path) ∧
    render (directory path) = dirname path := by
  obtain ⟨hhead, hlast⟩ := dirname_relative hpath
  unfold directory
  split
  · next hnil => exact ⟨relative_nil, hnil.symm⟩
  · next hne => exact ⟨components_relative hne hhead hlast, render_components _⟩

theorem realpath_text (hpath : path.head? ≠ some '/') (target : List Char) :
    ∃ s, realpath path target = text s ∧ Walked s ∧
      s.1 = (followed false (components target)).foldl follow (directory path) ∧
      (s.2 ↔ s.1 ≠ [] ∧ Trailing target) := by
  obtain ⟨hrel, hdir⟩ := directory_relative hpath
  obtain ⟨hrun, hwalked⟩ := walk_run (components target) (fun x hx => slash_not_mem hx)
    (s := (directory path, false)) ⟨hrel, nofun⟩
  have hstart : text (directory path, false) = dirname path := (List.append_nil _).trans hdir
  rw [hstart] at hrun
  exact ⟨_, hrun, hwalked, walk_followed _ _ _ (fun _ => rfl) (fun _ => rfl), walk_slash _ _⟩

theorem linkResolves_isSome (hname : action.name = "link".toList ∨ action.name = "hardlink".toList)
    (id : List Char) :
    (linkResolves refPaths action id).isSome ↔
      ¬ ∃ e ∈ refPaths.entries, e.1 = realpath action.path action.target ∨
      (realpath action.path action.target ++ ['/']) <+: e.1 := by
  have hkind : ¬ (action.name ≠ "link".toList ∧ action.name ≠ "hardlink".toList) := fun h => hname.elim h.1 h.2
  have hget : ∀ t, (refPaths.get t).any (fun actions => !actions.isEmpty) ↔ ∃ e ∈ refPaths.entries, e.1 = t := by
    intro t
    constructor
    · intro h
      cases hactions : refPaths.get t with
      | none =>
          rw [hactions] at h
          cases h
      | some actions => exact ⟨(t, actions), (refPaths.get_eq_some t actions).mp hactions, rfl⟩
    · rintro ⟨e, he, rfl⟩
      rw [(refPaths.get_eq_some e.1 e.2).mpr he]
      have hne := refPaths.delivered e he
      simpa using hne
  have hunder : ∀ t, (refPaths.entries.any fun e => (t ++ ['/']).isPrefixOf e.1) ↔
      ∃ e ∈ refPaths.entries, (t ++ ['/']) <+: e.1 := by
    intro t
    simp only [List.any_eq_true, List.isPrefixOf_iff_prefix]
  simp only [linkResolves, if_neg hkind]
  generalize realpath action.path action.target = t
  by_cases hfound : (refPaths.get t).any fun actions => !actions.isEmpty
  · obtain ⟨e, he, het⟩ := (hget t).mp hfound
    rw [if_pos hfound]
    exact ⟨(fun h => by cases h), fun h => absurd ⟨e, he, Or.inl het⟩ h⟩
  · rw [if_neg hfound]
    by_cases hdir : refPaths.entries.any fun e => (t ++ ['/']).isPrefixOf e.1
    · obtain ⟨e, he, het⟩ := (hunder t).mp hdir
      rw [if_pos hdir]
      exact ⟨(fun h => by cases h), fun h => absurd ⟨e, he, Or.inr het⟩ h⟩
    · rw [if_neg hdir]
      refine ⟨fun _ => ?_, fun _ => rfl⟩
      rintro ⟨e, he, het | het⟩
      · exact hfound ((hget t).mpr ⟨e, he, het⟩)
      · exact hdir ((hunder t).mpr ⟨e, he, het⟩)

theorem ancestor_iff (hslash : ∀ x ∈ c, '/' ∉ x) (hc : c ≠ []) (k : List Char) :
    (render c ++ ['/']) <+: k ↔ ∃ d, d ≠ [] ∧ components k = c ++ d := by
  constructor
  · rintro ⟨q, rfl⟩
    refine ⟨components q, List.splitOn_ne_nil '/' q, ?_⟩
    rw [List.append_assoc, List.singleton_append, components_slash, components_render hslash hc]
  · rintro ⟨d, hd, hk⟩
    refine ⟨render d, ?_⟩
    rw [← render_components k, hk, render_append hc hd, List.append_assoc, List.singleton_append]

def RefPaths.single (f : F) (action : Action) (k : List Char) (hk : k.head? ≠ some '/') : RefPaths F where
  entries := [(k, [(f, action)])]
  nodup := List.nodup_singleton k
  delivered := by simp
  relative := by simpa using hk

theorem resolves_single (f : F) (action : Action) (hk : k.head? ≠ some '/') :
    Resolves (RefPaths.single f action k hk) c ↔ k = render c ∨ ∃ d, d ≠ [] ∧ components k = c ++ d := by
  simp [Resolves, RefPaths.single]

theorem found_single {f : F} (hk : k.head? ≠ some '/') (t : List Char) :
    (∃ e ∈ (RefPaths.single f action k hk).entries, e.1 = t ∨ (t ++ ['/']) <+: e.1) ↔ k = t ∨
    (t ++ ['/']) <+: k := by
  simp [RefPaths.single]

theorem looked_up (f : F) (action : Action) {t : List Char} (ht : t.head? ≠ some '/') (hc : Relative c)
    (h : ∀ refPaths : RefPaths F, (∃ e ∈ refPaths.entries, e.1 = t ∨ (t ++ ['/']) <+: e.1) ↔ Resolves refPaths c) :
    c ≠ [] ∧ t = render c := by
  have hsame : ∀ k, k.head? ≠ some '/' → ((k = t ∨ (t ++ ['/']) <+: k) ↔ k = render c ∨ ∃ d, d ≠ [] ∧
    components k = c ++ d) := by
    intro k hk
    rw [← resolves_single f action hk, ← h, found_single hk]
  have hone : ∀ a : Char, a ≠ '/' → c = [] → t = [a] := by
    rintro a ha rfl
    have hk : [a].head? ≠ some '/' := fun h => ha (Option.some.inj h)
    rcases (hsame [a] hk).mpr (Or.inr ⟨_, List.splitOn_ne_nil '/' [a], rfl⟩) with hat | ⟨r, hr⟩
    · exact hat.symm
    · cases t with
      | nil => exact absurd (List.cons.inj hr).1.symm ha
      | cons b t => simp at hr
  have hne : c ≠ [] := by
    intro hnil
    exact absurd ((hone 'a' (by decide) hnil).symm.trans (hone 'b' (by decide) hnil)) (by decide)
  refine ⟨hne, ?_⟩
  rcases (hsame (render c) hc.head).mpr (Or.inl rfl) with heq | ⟨r, hr⟩
  · exact heq.symm
  · -- the text names a directory above the place, which is found where only that directory is delivered
    have hlonger : (render c).length = t.length + 1 + r.length := by
      rw [← hr, List.length_append, List.length_append, List.length_singleton]
    rcases (hsame t ht).mp (Or.inl rfl) with heq | ⟨d, hd, hcomp⟩
    · exact heq
    · obtain ⟨q, hq⟩ := (ancestor_iff hc.slash hne t).mpr ⟨d, hd, hcomp⟩
      have hshorter : t.length = (render c).length + 1 + q.length := by
        rw [← hq, List.length_append, List.length_append, List.length_singleton]
      omega

/-- The checker tells whether a link resolves, in every image, if and only if the target, followed from
the link's directory also where it is absolute and without the two dots behind an empty component, leads
to the place it names, this is not the root, and no slash ends the target. -/
theorem link_resolves [Inhabited F] (action : Action) (id : List Char)
    (hname : action.name = "link".toList ∨ action.name = "hardlink".toList) (hpath : action.path.head? ≠ some '/') :
    (∀ refPaths : RefPaths F,
        (linkResolves refPaths action id).isSome ↔ ¬ Resolves refPaths (place action.path action.target)) ↔
      (followed false (components action.target)).foldl follow (directory action.path)
      = place action.path action.target ∧
        place action.path action.target ≠ [] ∧ ¬ Trailing action.target := by
  obtain ⟨⟨c, slash⟩, htext, hwalked, hfollow, hslash⟩ := realpath_text hpath action.target
  have hplace : Relative (place action.path action.target) := (normal_plain _).relative
  simp only [linkResolves_isSome hname, htext, not_iff_not]
  rw [← hfollow]
  constructor
  · intro h
    obtain ⟨hne, heq⟩ := looked_up default action hwalked.head hplace h
    cases slash with
    | true =>
        refine absurd ?_ hplace.getLast
        rw [← heq]
        exact List.getLast?_concat
    | false =>
        have hc : c = place action.path action.target := by
          refine render_inj hwalked.relative hplace ?_
          rw [← heq]
          exact (List.append_nil _).symm
        exact ⟨hc, hne, fun htrail => nomatch hslash.mpr ⟨hc ▸ hne, htrail⟩⟩
  · rintro ⟨hc, hne, htrail⟩ refPaths
    have hno : slash = false := Bool.eq_false_iff.mpr fun hs => htrail (hslash.mp hs).2
    have hwritten : text (c, slash) = render (place action.path action.target) := by
      rw [hno, ← hc]
      exact List.append_nil _
    rw [hwritten]
    exact exists_congr fun e => and_congr_right fun _ => or_congr_right (ancestor_iff hplace.slash hne e.1)

def library : Action := ⟨"file".toList, "usr/lib/y".toList, []⟩

theorem link_resolves_relative :
    (linkResolves (RefPaths.single "lib".toList library "usr/lib/y".toList (by decide))
        ⟨"link".toList, "usr/bin/x".toList, "../lib//./y".toList⟩ "002".toList).isSome ↔
      ¬ Resolves (RefPaths.single "lib".toList library "usr/lib/y".toList (by decide))
        ["usr".toList, "lib".toList, "y".toList] :=
  (link_resolves ⟨"link".toList, "usr/bin/x".toList, "../lib//./y".toList⟩ "002".toList (Or.inl rfl)
    (by decide)).mpr
    ⟨by decide, by decide, by unfold Trailing; decide⟩ _

/-- An absolute target is looked for below the link's own directory. -/
theorem absolute_target_reported :
    (linkResolves (RefPaths.single "lib".toList library "usr/lib/y".toList (by decide))
        ⟨"link".toList, "usr/bin/x".toList, "/usr/lib/y".toList⟩ "002".toList =
      some ⟨"link usr/bin/x has unresolvable target '/usr/lib/y'".toList, "userland.action002.0".toList⟩) ∧
    Resolves (RefPaths.single "lib".toList library "usr/lib/y".toList (by decide))
    (place "usr/bin/x".toList "/usr/lib/y".toList) :=
  ⟨by decide, (resolves_single _ _ _).mpr (Or.inl (by decide))⟩

end Resolution

end OiUserland.Pkglint.Links
