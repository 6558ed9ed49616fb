import Mathlib.Data.Char
import Mathlib.Data.List.Dedup
import Mathlib.Data.List.Lex
import OiUserland.Bass.Makefiles
import OiUserland.Lib.PosixPaths

namespace OiUserland.Bass.ComponentPaths

open Lib.PosixPaths Lib.Splits Makefiles

section Discovery

/-- What glob.glob and os.path.isfile answer. -/
structure FileSystem where
  glob : List Char → List (List Char)
  isfile : List Char → Bool

variable (fs : FileSystem) (path subdir : List Char) (log grep : List Line)

def makefile : List Char := "Makefile".toList

def openindiana : List Char := "openindiana".toList

def history : List Char := "meta-packages/history".toList

def rstrip (s : Line) : Line := s.rdropWhile isSpace

def selects (workspacePath dirname : List Char) : Bool :=
  fs.glob (join (join workspacePath dirname) "*.p5m".toList) ≠ [] ∧
    ¬ fs.isfile (join (join workspacePath dirname) "pkg5.ignore".toList)

def fromLog (workspacePath : List Char) : List (List Char) :=
  log.filterMap fun line =>
    let line := rstrip line
    if line = [] then none
    else
      let filename := basename line
      let dirname := ((rsplit (subdir ++ ['/']) (dirname line)).getLast?).getD []
      if filename = makefile ∧ selects fs workspacePath dirname then some dirname else none

def category (line : Line) : List Char := (components line).headD []

def fromGrep (workspacePath : List Char) : List (List Char) :=
  grep.filterMap fun line =>
    let line := rstrip line
    if category line = openindiana then none
    else if basename line = makefile ∧ selects fs workspacePath (dirname line) then some (dirname line)
    else none

def findComponentPaths : List (List Char) :=
  let workspacePath := join path subdir
  let paths := fromLog fs subdir log workspacePath ++ fromGrep fs grep workspacePath ++ [history]
  paths.dedup.mergeSort

end Discovery

section Specification

variable (fs : FileSystem) (path subdir : List Char) (log grep : List Line)

def IsComponent (d : List Char) : Prop := selects fs (join path subdir) d

def Logged (d : List Char) : Prop := subdir ++ '/' :: (d ++ '/' :: makefile) ∈ log

def Grepped (d : List Char) : Prop := d ++ '/' :: makefile ∈ grep

/-- meta-packages/history, the components of the log, and those of the openindiana category that
have a GIT_REPO. -/
def Wanted (d : List Char) : Prop :=
  d = history ∨ IsComponent fs path subdir d ∧ (Logged subdir log d ∨ category d = openindiana ∧ Grepped grep d)

def Discovers : Prop :=
  (findComponentPaths fs path subdir log grep).Pairwise (· < ·) ∧
    ∀ d, d ∈ findComponentPaths fs path subdir log grep ↔ Wanted fs path subdir log grep d

/-- A Makefile of the log lies in a directory whose path ends with `d` behind its last "components/". -/
def Shortens (d : List Char) : Prop :=
  ∃ line ∈ log, basename (rstrip line) = makefile ∧ AfterLast (subdir ++ ['/']) (dirname (rstrip line)) d

def Found (d : List Char) : Prop := ∃ line ∈ grep, basename (rstrip line) = makefile ∧ dirname (rstrip line) = d

/-- What holds of the components other than meta-packages/history: those of the openindiana category
that have a GIT_REPO are in the log too, and so are those of other categories that have one, no path
has a "components/" inside, and no path of another directory shortens to that of a component. -/
structure Regular : Prop where
  tracked : ∀ d ≠ history, IsComponent fs path subdir d → category d = openindiana → Grepped grep d →
    Shortens subdir log d
  others : ∀ d ≠ history, IsComponent fs path subdir d → category d ≠ openindiana → Found grep d →
    Logged subdir log d
  nested : ∀ d ≠ history, IsComponent fs path subdir d → Logged subdir log d →
    Shortens subdir log d ∨ category d ≠ openindiana ∧ Found grep d
  strays : ∀ d ≠ history, IsComponent fs path subdir d → Shortens subdir log d →
    Logged subdir log d ∨ category d = openindiana ∧ Grepped grep d

end Specification

section Paths

variable {p u v : List Char}

theorem rsplit_last (sep l : List Char) : AfterLast sep l (((rsplit sep l).getLast?).getD []) := by
  cases hlast : (rsplit sep l).getLast? with
  | none =>
      obtain ⟨u, v, -, hsome, -⟩ := rpieces_getLast sep [] l.reverse
      rw [rsplit, hsome] at hlast
      cases hlast
  | some d => exact rsplit_getLast.mp hlast

theorem takeWhile_slash (u v : List Char) : (u ++ '/' :: v).takeWhile (· ≠ '/') = u.takeWhile (· ≠ '/') := by
  induction u with
  | nil => rfl
  | cons c u ih =>
      rw [List.cons_append, List.takeWhile_cons, List.takeWhile_cons, ih]

theorem category_eq (p : List Char) : category p = p.takeWhile (· ≠ '/') := by
  have hp := render_components p
  have hslash (x : List Char) (hx : x ∈ components p) : '/' ∉ x := slash_not_mem hx
  rw [category]
  cases hc : components p with
  | nil =>
      rw [hc] at hp
      rw [← hp]
      rfl
  | cons x c =>
      rw [hc] at hp hslash
      have hpass (a : Char) (ha : a ∈ x) : decide (a ≠ '/') = true :=
        decide_eq_true fun heq => hslash x List.mem_cons_self (heq ▸ ha)
      have hx : x.takeWhile (· ≠ '/') = x := List.takeWhile_eq_self_iff.mpr hpass
      rw [← hp]
      cases c with
      | nil => exact ((congrArg _ List.intercalate_singleton).trans hx).symm
      | cons y c =>
          have hrender : render (x :: y :: c) = x ++ '/' :: render (y :: c) :=
            List.intercalate_cons_cons.trans (List.append_assoc x ['/'] _)
          rw [hrender, takeWhile_slash, hx]
          rfl

theorem takeWhile_trimmed (u : List Char) :
    (u.rdropWhile (· = '/')).takeWhile (· ≠ '/') = u.takeWhile (· ≠ '/') := by
  induction u using List.reverseRecOn with
  | nil => rfl
  | append_singleton u a ih =>
      by_cases ha : a = '/'
      · rw [List.rdropWhile_concat_pos _ _ _ (by simpa using ha), ih, ha, takeWhile_slash]
      · rw [List.rdropWhile_concat_neg _ _ _ (by simpa using ha)]

theorem category_dirname (h : basename p = makefile) :
    category p = openindiana ↔ category (dirname p) = openindiana := by
  have hsplit : p.rdropWhile (· ≠ '/') ++ makefile = p := by
    rw [← h]
    exact List.rdropWhile_append_rtakeWhile
  rw [category_eq, category_eq, dirname]
  rcases List.eq_nil_or_concat' (p.rdropWhile (· ≠ '/')) with hnil | ⟨u, a, hup⟩
  · rw [hnil] at hsplit ⊢
    rw [← hsplit]
    decide
  · have ha : a = '/' := by
      have hne : p.rdropWhile (· ≠ '/') ≠ [] := by
        rw [hup]
        exact List.append_ne_nil_of_right_ne_nil u (List.cons_ne_nil a [])
      have hlast := List.rdropWhile_last_not (· ≠ '/') p hne
      simp only [hup, List.getLast_concat] at hlast
      simpa using hlast
    subst ha
    have htop : p.takeWhile (· ≠ '/') = u.takeWhile (· ≠ '/') := by
      rw [← hsplit, hup, List.append_assoc]
      exact takeWhile_slash u makefile
    rw [htop, hup]
    split
    · rw [takeWhile_slash]
    · rw [List.rdropWhile_concat_pos _ _ _ (by decide), takeWhile_trimmed]

end Paths

section Results

variable {fs : FileSystem} {path subdir workspacePath d : List Char} {log grep : List Line}

theorem mem_fromLog : d ∈ fromLog fs subdir log workspacePath ↔
    Shortens subdir log d ∧ selects fs workspacePath d := by
  rw [fromLog, List.mem_filterMap]
  constructor
  · rintro ⟨line, hline, hd⟩
    dsimp only at hd
    split at hd
    · cases hd
    · split at hd
      · next hsel =>
          obtain rfl := Option.some.inj hd
          exact ⟨⟨line, hline, hsel.1, rsplit_last ..⟩, hsel.2⟩
      · cases hd
  · rintro ⟨⟨line, hline, hname, hlast⟩, hsel⟩
    have hne : rstrip line ≠ [] := by
      intro hnil
      rw [hnil] at hname
      cases hname
    obtain rfl := (rsplit_last ..).unique hlast
    exact ⟨line, hline, (if_neg hne).trans (if_pos ⟨hname, hsel⟩)⟩

theorem mem_fromGrep : d ∈ fromGrep fs grep workspacePath ↔
    (category d ≠ openindiana ∧ Found grep d) ∧ selects fs workspacePath d := by
  rw [fromGrep, List.mem_filterMap]
  constructor
  · rintro ⟨line, hline, hd⟩
    dsimp only at hd
    split at hd
    · cases hd
    · next hother =>
        split at hd
        · next hsel =>
            obtain rfl := Option.some.inj hd
            exact ⟨⟨fun hcat => hother ((category_dirname hsel.1).mpr hcat), line, hline, hsel.1, rfl⟩, hsel.2⟩
        · cases hd
  · rintro ⟨⟨hother, line, hline, hname, rfl⟩, hsel⟩
    have hcat : category (rstrip line) ≠ openindiana := fun hcat => hother ((category_dirname hname).mp hcat)
    exact ⟨line, hline, (if_neg hcat).trans (if_pos ⟨hname, hsel⟩)⟩

theorem mem_findComponentPaths : d ∈ findComponentPaths fs path subdir log grep ↔ d = history ∨
    IsComponent fs path subdir d ∧ (Shortens subdir log d ∨ category d ≠ openindiana ∧ Found grep d) := by
  rw [findComponentPaths, List.mem_mergeSort, List.mem_dedup, List.mem_append, List.mem_append,
    mem_fromLog, mem_fromGrep, List.mem_singleton, IsComponent, or_comm, ← or_and_right, and_comm]

theorem findComponentPaths_sorted : (findComponentPaths fs path subdir log grep).Pairwise (· < ·) := by
  have hle : (findComponentPaths fs path subdir log grep).Pairwise (· ≤ ·) := by
    refine (List.pairwise_mergeSort (fun p q r => ?_) (fun p q => ?_) _).imp of_decide_eq_true
    · simpa using fun hpq hqr => le_trans hpq hqr
    · simpa using le_total p q
  have hne : (findComponentPaths fs path subdir log grep).Nodup :=
    (List.mergeSort_perm _ _).nodup_iff.mpr (List.nodup_dedup _)
  exact (hle.and hne).imp fun h => lt_of_le_of_ne h.1 h.2

theorem shortens_of_logged (hne : subdir ≠ []) (hsub : subdir.head? ≠ some '/') (hd : d ≠ [])
    (hlast : d.getLast? ≠ some '/')
    (hinside : ∀ x y, d = x ++ y → x ≠ [] → ¬ (subdir ++ ['/']) <:+ (subdir ++ ['/']) ++ x)
    (hlog : Logged subdir log d) :
    Shortens subdir log d := by
  have hline : subdir ++ '/' :: (d ++ '/' :: makefile) = (subdir ++ '/' :: d) ++ '/' :: makefile := by
    rw [List.append_assoc]
    rfl
  have hstrip : rstrip ((subdir ++ '/' :: d) ++ '/' :: makefile) = (subdir ++ '/' :: d) ++ '/' :: makefile := by
    have hend : (subdir ++ '/' :: d) ++ '/' :: makefile = ((subdir ++ '/' :: d) ++ "/Makefil".toList) ++ ['e'] := by
      rw [List.append_assoc _ _ ['e']]
      rfl
    rw [hend]
    exact List.rdropWhile_concat_neg _ _ _ (by decide)
  have hname : basename ((subdir ++ '/' :: d) ++ '/' :: makefile) = makefile := by
    have hslash : '/' ∉ makefile := by decide
    have hup := List.rdropWhile_append_rtakeWhile (p := fun c => decide (c ≠ '/'))
      (l := (subdir ++ '/' :: d) ++ '/' :: makefile)
    rw [List.append_cons, rdropWhile_name hslash, List.rdropWhile_concat_neg _ _ _ (by simp)] at hup
    rw [List.append_cons]
    exact List.append_cancel_left hup
  have hhead : (subdir ++ '/' :: d).head? ≠ some '/' := by
    obtain ⟨a, subdir, rfl⟩ := List.exists_cons_of_ne_nil hne
    exact hsub
  have hdir : dirname ((subdir ++ '/' :: d) ++ '/' :: makefile) = subdir ++ '/' :: d := by
    rw [dirname_name (by decide) hhead (List.append_ne_nil_of_right_ne_nil _ (List.cons_ne_nil _ _))]
    refine rdropWhile_of_getLast ?_
    rw [List.append_cons, List.getLast?_append_of_ne_nil _ hd]
    exact hlast
  refine ⟨(subdir ++ '/' :: d) ++ '/' :: makefile, hline ▸ hlog, by rw [hstrip, hname], ?_⟩
  rw [hstrip, hdir]
  exact ⟨subdir ++ ['/'], List.append_cons .., .inr (List.suffix_refl _), hinside⟩

/-- The components that are wanted are returned just if the paths are regular. -/
theorem discovered_iff (fs : FileSystem) (path subdir : List Char) (log grep : List Line) :
    Discovers fs path subdir log grep ↔ Regular fs path subdir log grep := by
  rw [Discovers, and_iff_right findComponentPaths_sorted]
  simp only [mem_findComponentPaths, Wanted]
  constructor
  · intro h
    have hcode (d : List Char) (hd : d ≠ history) (hsel : IsComponent fs path subdir d) :
        Shortens subdir log d ∨ category d ≠ openindiana ∧ Found grep d ↔
          Logged subdir log d ∨ category d = openindiana ∧ Grepped grep d := by
      simpa only [hd, hsel, false_or, true_and] using h d
    refine ⟨fun d hd hsel hcat hgrep => ?_, fun d hd hsel hcat hfound => ?_, fun d hd hsel hlog => ?_,
      fun d hd hsel hshort => ?_⟩
    · exact ((hcode d hd hsel).mpr (.inr ⟨hcat, hgrep⟩)).resolve_right fun hother => hother.1 hcat
    · exact ((hcode d hd hsel).mp (.inr ⟨hcat, hfound⟩)).resolve_right fun hown => hcat hown.1
    · exact (hcode d hd hsel).mpr (.inl hlog)
    · exact (hcode d hd hsel).mp (.inl hshort)
  · intro h d
    by_cases hd : d = history
    · exact iff_of_true (.inl hd) (.inl hd)
    · rw [or_iff_right hd, or_iff_right hd]
      refine and_congr_right fun hsel => ⟨?_, ?_⟩
      · rintro (hshort | ⟨hcat, hfound⟩)
        · exact h.strays d hd hsel hshort
        · exact .inl (h.others d hd hsel hcat hfound)
      · rintro (hlog | ⟨hcat, hgrep⟩)
        · exact h.nested d hd hsel hlog
        · exact .inl (h.tracked d hd hsel hcat hgrep)

/-- Every directory is a component. -/
def everywhere : FileSystem := ⟨fun _ => ["foo.p5m".toList], fun _ => false⟩

/-- A component of the openindiana category is left out, one of another category is taken, and of a path
with "components/" inside only the end is left. -/
theorem other_category_taken :
    ¬ Discovers everywhere "/ws".toList "components".toList [] ["openindiana/foo/Makefile".toList] ∧
    ¬ Discovers everywhere "/ws".toList "components".toList [] ["python/bar/Makefile".toList] ∧
    ¬ Discovers everywhere "/ws".toList "components".toList ["components/x/components/y/Makefile".toList] [] := by
  refine ⟨fun h => ?_, fun h => ?_, fun h => ?_⟩
  · have hwanted : Wanted everywhere "/ws".toList "components".toList [] ["openindiana/foo/Makefile".toList]
        "openindiana/foo".toList := .inr ⟨rfl, .inr ⟨by decide, List.mem_singleton_self _⟩⟩
    rcases mem_findComponentPaths.mp ((h.2 _).mpr hwanted) with hhistory | ⟨-, ⟨line, hline, -⟩ | ⟨hother, -⟩⟩
    · exact absurd hhistory (by decide)
    · cases hline
    · exact hother (by decide)
  · have htaken : "python/bar".toList ∈
        findComponentPaths everywhere "/ws".toList "components".toList [] ["python/bar/Makefile".toList] :=
      mem_findComponentPaths.mpr (.inr ⟨rfl, .inr ⟨by decide, _, List.mem_singleton_self _, by decide, by decide⟩⟩)
    rcases (h.2 _).mp htaken with hhistory | ⟨-, hlog | ⟨hcat, -⟩⟩
    · exact absurd hhistory (by decide)
    · cases hlog
    · exact absurd hcat (by decide)
  · have htaken : "y".toList ∈ findComponentPaths everywhere "/ws".toList "components".toList
        ["components/x/components/y/Makefile".toList] [] :=
      mem_findComponentPaths.mpr (.inr ⟨rfl,
        .inl ⟨_, List.mem_singleton_self _, by decide, rsplit_getLast.mp (by decide)⟩⟩)
    rcases (h.2 _).mp htaken with hhistory | ⟨-, hlog | ⟨hcat, -⟩⟩
    · exact absurd hhistory (by decide)
    · exact absurd (List.mem_singleton.mp hlog) (by decide)
    · exact absurd hcat (by decide)

end Results

end OiUserland.Bass.ComponentPaths
