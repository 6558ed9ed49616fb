import OiUserland.Lib.Spans

namespace OiUserland.Mangler.Cddl

open Lib.Regexes Lib.Spans Lib.Splits Lib.Substitutions

structure Action where
  stripCddl : Option (List Char)

def headerStart : List Char := "CDDL HEADER START".toList

def headerEnd : List Char := "CDDL HEADER END".toList

/-- `^[^\n]*CDDL HEADER START.+CDDL HEADER END[^\n]*$` with the flags `MULTILINE` and `DOTALL`; the
anchors are those of `remove`. -/
def cddlRe : Regex := spanRe headerStart headerEnd

def mangleCddl (action : Action) (text : List Char) : List Char :=
  let stripCddl := action.stripCddl.getD "false".toList
  if stripCddl = "false".toList then text else remove cddlRe text

def Action.strips (action : Action) : Prop := action.stripCddl.getD "false".toList ≠ "false".toList

theorem mangleCddl_text {action : Action} (h : action.strips) (text : List Char) :
    mangleCddl action text = joined '\n' (swallowed headerStart headerEnd (text.splitOn '\n')) := by
  rw [mangleCddl, if_neg h]
  exact remove_span (by decide) (by decide) (by decide) text

/-- A text without its headers is left as it is. -/
theorem mangleCddl_again (action : Action) (text : List Char) :
    mangleCddl action (mangleCddl action text) = mangleCddl action text := by
  by_cases h : action.strips
  · have hlines : ∀ l ∈ swallowed headerStart headerEnd (text.splitOn '\n'), '\n' ∉ l := fun l hl =>
      (mem_swallowed hl).elim (fun hl => hl ▸ List.not_mem_nil) not_mem_of_mem_splitOn
    have hne := swallowed_ne_nil (u := headerStart) (v := headerEnd) (List.splitOn_ne_nil '\n' text)
    have hsplit := List.splitOn_intercalate '\n' hlines hne
    rw [intercalate_eq] at hsplit
    rw [mangleCddl_text h text, mangleCddl_text h, hsplit, swallowed_again (by decide)]
  · rw [mangleCddl, if_pos (not_not.mp h)]

/-- Each header is blanked, and nothing else, if and only if no header ends behind the first one. -/
theorem headers_blanked (action : Action) (text : List Char) :
    (action.strips →
        mangleCddl action text = joined '\n' (blanked headerStart headerEnd false (text.splitOn '\n'))) ↔
      (action.strips → ∀ l ∈ behindFirst headerStart headerEnd (text.splitOn '\n'), ¬ headerEnd <:+: l) := by
  refine forall_congr' fun h => ?_
  have hlines : ∀ l ∈ text.splitOn '\n', '\n' ∉ l := fun l hl => not_mem_of_mem_splitOn hl
  have hempty : ∀ l : List Char, l = [] → '\n' ∉ l := fun l hl => hl ▸ List.not_mem_nil
  have hne : text.splitOn '\n' ≠ [] := List.splitOn_ne_nil '\n' text
  rw [mangleCddl_text h, ← swallowed_eq_blanked (by decide)]
  constructor
  · refine joined_inj (fun l hl => ?_) (fun l hl => ?_) (swallowed_ne_nil hne) (blanked_ne_nil hne)
    · exact (mem_swallowed hl).elim (hempty l) (hlines l)
    · exact (mem_blanked hl).elim (hempty l) (hlines l)
  · exact congrArg (joined '\n')

def twoHeaders : List Char :=
  ("# CDDL HEADER START\n# CDDL HEADER END\nexit 0\n# CDDL HEADER START\n# CDDL HEADER END\n").toList

/-- The line between two headers is lost. -/
theorem between_headers_lost :
    mangleCddl ⟨some "true".toList⟩ twoHeaders = "\n".toList ∧
    joined '\n' (blanked headerStart headerEnd false (twoHeaders.splitOn '\n')) = "\nexit 0\n\n".toList := by
  constructor
  · have hstrips : Action.strips ⟨some "true".toList⟩ := by
      unfold Action.strips
      decide
    rw [mangleCddl_text hstrips]
    decide
  · decide

end OiUserland.Mangler.Cddl
