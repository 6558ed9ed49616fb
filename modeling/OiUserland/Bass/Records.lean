import OiUserland.Bass.Makefiles

namespace OiUserland.Bass.Records

open Makefiles

structure Entry where
  idx : Nat
  parts : List Line
  deriving DecidableEq

def Entry.append (p : Line) (e : Entry) : Entry := { e with parts := e.parts ++ [p] }

inductive Kind
  | included
  | var (k : Keyword)
  | target (t : Target)
  | other
  deriving DecidableEq

structure Entries where
  includes : List Entry
  vars : Keyword → Option Entry
  targets : Target → Option Entry

/-- The target whose recipe goes on with the next line, unless it is not indented, and what the next
line belongs to if the last one ended with a backslash. -/
structure Reference extends Entries where
  rule : Option Target
  joined : Option Kind

def Reference.start : Reference := ⟨⟨[], fun _ => none, fun _ => none⟩, none, none⟩

def continued (line : Line) : Bool := (strip line).getLast? = some '\\'

def part (line : Line) : Line := if continued line then strip (strip line).dropLast else strip line

def assignment (k : Keyword) (line : Line) : Option Line :=
  match (behind k.name (line.dropWhile isSpace)).map (List.dropWhile isSpace) with
  | some (c :: s) => if c = '=' then some s else none
  | _ => none

def prerequisites (t : Target) (line : Line) : Option Line :=
  match (behind t.name line).map (List.dropWhile isSpace) with
  | some (c :: s) => if c = ':' then some s else none
  | _ => none

def classify (line : Line) : Option (Kind × Line) :=
  if comment line then none
  else
    match included line with
    | some s => some (.included, s)
    | none =>
      match Keyword.all.findSome? fun k => (assignment k line).map fun s => (k, s) with
      | some (k, s) => some (.var k, s)
      | none => (Target.all.findSome? fun t => (prerequisites t line).map fun s => (t, s)).map fun r => (.target r.1, r.2)

def Kind.rule : Kind → Option Target
  | .target t => some t
  | _ => none

namespace Entries

def record (r : Entries) (kind : Kind) (e : Entry) : Entries :=
  match kind with
  | .included => { r with includes := r.includes ++ [e] }
  | .var k => { r with vars := Function.update r.vars k (some e) }
  | .target t => { r with targets := Function.update r.targets t (some e) }
  | .other => r

def append (r : Entries) (kind : Kind) (p : Line) : Entries :=
  match kind with
  | .included => { r with includes := r.includes.dropLast ++ (r.includes.getLast?.map (Entry.append p)).toList }
  | .var k => { r with vars := Function.update r.vars k ((r.vars k).map (Entry.append p)) }
  | .target t => { r with targets := Function.update r.targets t ((r.targets t).map (Entry.append p)) }
  | .other => r

def hasVariable (r : Entries) (v : Line) : Bool := Keyword.all.any fun k => (r.vars k).isSome && k.name = v

def hasTarget (r : Entries) (v : Line) : Bool := Target.all.any fun t => (r.targets t).isSome && t.name = v

end Entries

namespace Reference

def read (r : Reference) (i : Nat) (line : Line) : Reference :=
  match classify line with
  | none => { r with rule := none, joined := if continued line then some .other else none }
  | some (kind, s) =>
      ⟨r.record kind ⟨i, [part s]⟩, kind.rule, if continued s then some kind else none⟩

def join (r : Reference) (kind : Kind) (line : Line) : Reference :=
  ⟨r.append kind (part line), r.rule, if continued line then some kind else none⟩

def step (r : Reference) (i : Nat) (line : Line) : Reference :=
  match r.joined, r.rule with
  | some kind, _ => r.join kind line
  | none, some t => if line.head? = some '\t' then r.join (.target t) line else r.read i line
  | none, none => r.read i line

def scan (r : Reference) (i : Nat) : List Line → Reference
  | [] => r
  | l :: ls => (r.step i l).scan (i + 1) ls

end Reference

def view (it : Item) : Option Nat × List Line := (it.idx, it.str.map strip)

def Entry.view (e : Entry) : Option Nat × List Line := (some e.idx, e.parts)

structure Same (s : Definitions) (r : Entries) : Prop where
  includes : s.includes.map view = r.includes.map Entry.view
  vars : ∀ k, (s.vars k).map view = (r.vars k).map Entry.view
  targets : ∀ t, (s.targets t).map view = (r.targets t).map Entry.view

def Meets (contents : List Line) : Prop :=
  ∃ mk, Makefile.update contents = .ok mk ∧ Same mk.toDefinitions (Reference.start.scan 0 contents).toEntries

/-- A line of the file, with a newline at the end or none. -/
def Physical (line : Line) : Prop := '\n' ∉ line.dropLast

instance : DecidablePred Physical := fun line => inferInstanceAs (Decidable ('\n' ∉ line.dropLast))

def Unread (line : Line) : Prop :=
  comment line = true ∨ included line = none ∧ findDefinition line = none ∧ findTarget line = none

def TameHead (r : Entries) : Option (Kind × Line) → Line → Prop
  | some (.included, s), _ => continued s = false
  | some (.var k, _), line => ∃ v more, definition k line = some (v, more) ∧ r.hasVariable v = false
  | some (.target _, s), _ => continued s = false ∧ r.hasTarget (s.dropWhile isSpace |>.takeWhile (· ≠ '\n')) = false
  | _, _ => True

/-- The second line of a definition is the last one, and a line that continues an unknown one is read as
nothing. A line of a recipe is neither continued nor read as a definition, and the line behind a recipe
is read as nothing. -/
def Tame (r : Reference) (line : Line) : Prop :=
  match r.joined, r.rule with
  | some (.var _), _ => continued line = false
  | some _, _ => Unread line
  | none, some _ =>
      if line.head? = some '\t' then continued line = false ∧ findDefinition line = none else classify line = none
  | none, none => TameHead r.toEntries (classify line) line

def Safe (r : Reference) (i : Nat) : List Line → Prop
  | [] => True
  | l :: ls => Tame r l ∧ Safe (r.step i l) (i + 1) ls

end OiUserland.Bass.Records

namespace OiUserland.Bass.Parts

open Makefiles Records

variable {line r s u v : Line} {k : Keyword} {t : Target} {more : Bool}

theorem strip_append (h : ∀ c ∈ v, isSpace c = true) : strip (u ++ v) = strip u := by
  have hv : v.rdropWhile isSpace = [] := List.rdropWhile_eq_nil_iff.mpr h
  unfold strip
  rw [List.dropWhile_append]
  split
  · next hu =>
      have hnil : u.dropWhile isSpace = [] := List.isEmpty_iff.mp hu
      have hd : ∀ c ∈ v.dropWhile isSpace, isSpace c = true := fun c hc => h c ((List.dropWhile_suffix _).subset hc)
      rw [hnil, List.rdropWhile_nil]
      exact List.rdropWhile_eq_nil_iff.mpr hd
  · clear hv
    induction v using List.reverseRecOn with
    | nil => rw [List.append_nil]
    | append_singleton v c ih =>
        rw [← List.append_assoc, List.rdropWhile_concat_pos _ _ _ (h c (by simp))]
        exact ih fun d hd => h d (List.mem_append_left _ hd)

theorem strip_dropWhile : strip (s.dropWhile isSpace) = strip s := by
  unfold strip
  rw [List.dropWhile_idempotent]

theorem strip_cons {c : Char} (h : isSpace c = true) : strip (c :: s) = strip s := by
  unfold strip
  rw [List.dropWhile_cons_of_pos h]

theorem strip_strip : strip (strip s) = strip s := by
  have hspaces : ∀ c ∈ (s.dropWhile isSpace).rtakeWhile isSpace, isSpace c = true := fun c hc => List.mem_rtakeWhile_imp hc
  calc strip (strip s) = strip ((s.dropWhile isSpace).rdropWhile isSpace ++ (s.dropWhile isSpace).rtakeWhile isSpace) :=
        (strip_append hspaces).symm
    _ = strip (s.dropWhile isSpace) := by rw [List.rdropWhile_append_rtakeWhile]
    _ = strip s := strip_dropWhile

theorem length_strip_le (s : Line) : (strip s).length ≤ s.length :=
  (List.rdropWhile_prefix _ _).length_le.trans (List.dropWhile_suffix _).length_le

theorem part_ne (h : continued line = true) : part line ≠ strip line := by
  rw [part, if_pos h]
  have hne : strip line ≠ [] := by
    intro hnil
    rw [continued, hnil] at h
    cases h
  intro heq
  have hle := length_strip_le (strip line).dropLast
  rw [heq, List.length_dropLast] at hle
  have hpos := List.length_pos_of_ne_nil hne
  omega

theorem part_eq (h : continued line = false) : part line = strip line := if_neg (Bool.eq_false_iff.mp h)

theorem eq_of_dropWhile_ne {c d : Char} (h : s.dropWhile (· ≠ d) = c :: r) : c = d := by
  have hhead := List.head?_dropWhile_not (· ≠ d) s
  rw [h] at hhead
  simpa using hhead

theorem newline_rest (h : Physical line) (hr : r <:+ line) : r.dropWhile (· ≠ '\n') = [] ∨ r.dropWhile (· ≠ '\n') = ['\n'] := by
  cases hdrop : r.dropWhile (· ≠ '\n') with
  | nil => exact .inl rfl
  | cons c rest =>
      right
      have hc := eq_of_dropWhile_ne hdrop
      obtain ⟨u, hu⟩ := (List.dropWhile_suffix (· ≠ '\n')).trans hr
      rw [hdrop, hc] at hu
      cases rest with
      | nil => rw [hc]
      | cons d rest =>
          refine absurd ?_ h
          rw [← hu, List.dropLast_append_cons, List.dropLast_cons_cons]
          exact List.mem_append_right _ (List.mem_cons_self ..)

theorem takeWhile_newline (h : Physical line) (hr : r <:+ line) : strip (r.takeWhile (· ≠ '\n')) = strip r := by
  have hspaces : ∀ c ∈ r.dropWhile (· ≠ '\n'), isSpace c = true := by
    intro c hc
    rcases newline_rest h hr with hnil | hone
    · rw [hnil] at hc
      cases hc
    · rw [hone] at hc
      rw [List.mem_singleton.mp hc]
      rfl
  rw [← strip_append hspaces, List.takeWhile_append_dropWhile]

theorem continuation_physical (h : Physical line) (hs : s <:+ line) :
    continuation s = some ((s.dropWhile isSpace).takeWhile (· ≠ '\n'), false) := by
  have hr : s.dropWhile isSpace <:+ line := (List.dropWhile_suffix _).trans hs
  unfold continuation
  rcases newline_rest h hr with hnil | hone
  · simp only [hnil]
    rfl
  · simp only [hone]
    rfl

theorem strip_continuation (h : Physical line) (hs : s <:+ line) : strip ((s.dropWhile isSpace).takeWhile (· ≠ '\n')) = strip s := by
  rw [takeWhile_newline h ((List.dropWhile_suffix _).trans hs), strip_dropWhile]

theorem recipe_tab (h : Physical line) (htab : line.head? = some '\t') : ∃ l, recipe line = some l ∧ strip l = strip line := by
  cases line with
  | nil => cases htab
  | cons c s =>
      obtain rfl := Option.some.inj htab
      have hs : s <:+ '\t' :: s := List.suffix_cons _ _
      have hr : s.dropWhile isSpace <:+ '\t' :: s := (List.dropWhile_suffix _).trans hs
      refine ⟨(s.dropWhile isSpace).takeWhile (· ≠ '\n'), ?_, ?_⟩
      · unfold recipe
        rcases newline_rest h hr with hnil | hone
        · simp only [hnil]
          rfl
        · simp only [hone]
          rfl
      · rw [strip_continuation h hs]
        exact (strip_cons rfl).symm

theorem recipe_none (htab : line.head? ≠ some '\t') : recipe line = none := by
  cases line with
  | nil => rfl
  | cons c s =>
      have hc : c ≠ '\t' := fun heq => htab (congrArg some heq)
      exact if_neg fun h => hc h.1

theorem definition_of_assignment_none (h : assignment k line = none) : definition k line = none := by
  rw [assignment] at h
  rw [definition]
  cases heq : (behind k.name (line.dropWhile isSpace)).map (List.dropWhile isSpace) with
  | none => rfl
  | some l =>
      cases l with
      | nil => rfl
      | cons c s =>
          rw [heq] at h
          dsimp only at h ⊢
          by_cases hc : c = '='
          · rw [if_pos hc] at h
            cases h
          · rw [if_neg hc]

theorem strip_concat {c : Char} (hc : isSpace c = false) : strip (u ++ [c]) = u.dropWhile isSpace ++ [c] := by
  have hneg : ¬ isSpace c = true := Bool.eq_false_iff.mp hc
  have hdrop : (u ++ [c]).dropWhile isSpace = u.dropWhile isSpace ++ [c] := by
    rw [List.dropWhile_append, List.dropWhile_cons_of_neg hneg]
    split
    · next hu => rw [List.isEmpty_iff.mp hu, List.nil_append]
    · rfl
  rw [strip, hdrop, List.rdropWhile_concat_neg _ _ _ hneg]

theorem definition_of_assignment (h : assignment k line = some s) (hd : definition k line = some (v, more)) :
    more = continued s ∧ strip v = part s := by
  have hbehind : (behind k.name (line.dropWhile isSpace)).map (List.dropWhile isSpace) = some ('=' :: s) := by
    rw [assignment] at h
    cases heq : (behind k.name (line.dropWhile isSpace)).map (List.dropWhile isSpace) with
    | none =>
        rw [heq] at h
        cases h
    | some l =>
        rw [heq] at h
        cases l with
        | nil => cases h
        | cons c l =>
            dsimp only at h
            by_cases hc : c = '='
            · rw [if_pos hc] at h
              rw [hc, Option.some.inj h]
            · rw [if_neg hc] at h
              cases h
  rw [definition, hbehind] at hd
  dsimp only at hd
  rw [if_pos rfl] at hd
  have hsplit := List.takeWhile_append_dropWhile (p := fun c => decide (c ≠ '\\')) (l := s.dropWhile isSpace)
  split at hd
  · next hnil =>
      cases hd
      have hno : continued s = false := by
        refine Bool.eq_false_iff.mpr fun hcont => ?_
        have hmem : '\\' ∈ strip s := List.mem_of_getLast? (of_decide_eq_true hcont)
        have hbar := List.dropWhile_eq_nil_iff.mp hnil _ ((List.rdropWhile_prefix _ _).subset hmem)
        simp at hbar
      rw [part_eq hno]
      exact ⟨hno.symm, strip_dropWhile⟩
  · next c t hcons =>
      split at hd
      · next hspaces =>
          cases hd
          have hc := eq_of_dropWhile_ne hcons
          have hstrip : strip s = ((s.dropWhile isSpace).takeWhile (· ≠ '\\')).dropWhile isSpace ++ ['\\'] := by
            rw [hcons, hc, List.append_cons] at hsplit
            calc strip s = strip (s.dropWhile isSpace) := strip_dropWhile.symm
              _ = strip ((s.dropWhile isSpace).takeWhile (· ≠ '\\') ++ ['\\'] ++ t) := congrArg strip hsplit.symm
              _ = strip ((s.dropWhile isSpace).takeWhile (· ≠ '\\') ++ ['\\']) := strip_append (List.all_eq_true.mp hspaces)
              _ = _ := strip_concat rfl
          have hcont : continued s = true := by
            rw [continued, hstrip, List.getLast?_concat]
            rfl
          refine ⟨hcont.symm, ?_⟩
          rw [part, if_pos hcont, hstrip, List.dropLast_concat, strip_dropWhile]
      · cases hd

theorem targetRule_eq : targetRule t line = (prerequisites t line).bind continuation := by
  unfold targetRule prerequisites
  cases (behind t.name line).map (List.dropWhile isSpace) with
  | none => rfl
  | some l =>
      cases l with
      | nil => rfl
      | cons c s =>
          dsimp only
          split <;> rfl

theorem behind_suffix {p : Line} (h : behind p s = some r) : r <:+ s := by
  induction p generalizing s with
  | nil => exact Option.some.inj h ▸ List.suffix_refl _
  | cons c p ih =>
      cases s with
      | nil => cases h
      | cons x s =>
          rw [behind] at h
          split at h
          · exact (ih h).trans (List.suffix_cons _ _)
          · cases h

theorem prerequisites_suffix (h : prerequisites t line = some s) : s <:+ line := by
  unfold prerequisites at h
  split at h
  · next c l heq =>
      split at h
      · obtain rfl := Option.some.inj h
        obtain ⟨r, hr, hl⟩ := Option.map_eq_some_iff.mp heq
        have hsuffix : c :: l <:+ r := hl ▸ List.dropWhile_suffix _
        exact ((List.suffix_cons _ _).trans hsuffix).trans (behind_suffix hr)
      · cases h
  · cases h

end OiUserland.Bass.Parts
