import OiUserland.Lib.CStrings
import OiUserland.Fetch.NamePatterns

namespace OiUserland.Fetch.HashLines

open Lib.Regexes Lib.Patterns NamePatterns

variable {r a : Regex} {s s' m : Reading} {c : Char}

/-- A line of a hash file: a hash, a blank, the marker of the mode and a path. -/
structure HashLine where
  hash : List Char
  mode : Char
  path : List Char
  ended : Bool
  hash_ne : hash ≠ []
  hash_hex : ∀ c ∈ hash, inRanges [('A', 'F'), ('a', 'f'), ('0', '9')] c = true
  mode_mark : mode = ' ' ∨ mode = '*'
  path_line : '\n' ∉ path

def HashLine.ending (l : HashLine) : List Char := if l.ended then ['\n'] else []

def HashLine.text (l : HashLine) : List Char := l.hash ++ ' ' :: l.mode :: (l.path ++ l.ending)

def behindSlashes : List Char → List (List Char)
  | [] => []
  | c :: path => if c = '/' then path :: behindSlashes path else behindSlashes path

def reads (r : Regex) (text : List Char) : Bool := !(ends r ⟨false, text, []⟩).isEmpty

def found (r : Regex) (l : HashLine) : Bool := (l.path :: behindSlashes l.path).any fun t => reads r (t ++ l.ending)

variable {l : HashLine} {t path : List Char}

theorem mem_sequence_cons {items : List Regex} :
    m ∈ ends (sequence (a :: items)) s ↔ ∃ k ∈ ends (sequence items) s, m ∈ ends a k := mem_cat

theorem mem_literal : s' ∈ ends (literal c) s ↔ s.rest = c :: s'.rest ∧ s' = ⟨false, s'.rest, s.caps⟩ := by
  change s' ∈ readChar _ s ↔ _
  rw [mem_readChar]
  constructor
  · rintro ⟨d, hd, hin, hs'⟩
    have hdc : d = c := by
      simp only [inRanges, List.any_cons, List.any_nil, Bool.or_false, bne_iff_ne, ne_eq, Bool.not_eq_false,
        decide_eq_true_eq] at hin
      exact Char.le_antisymm hin.2 hin.1
    exact ⟨hdc ▸ hd, hs'⟩
  · rintro ⟨hd, hs'⟩
    refine ⟨c, hd, ?_, hs'⟩
    simp [inRanges]

theorem reads_iff (caps : List (Nat × List Char)) {text : List Char} : (∃ m, m ∈ ends r ⟨false, text, caps⟩) ↔ reads r text = true := by
  have hunder : (⟨false, text, caps⟩ : Reading) = under caps ⟨false, text, []⟩ := rfl
  rw [hunder, ends_under, reads, Bool.not_eq_true', List.isEmpty_eq_false_iff]
  constructor
  · rintro ⟨m, hm⟩
    obtain ⟨k, hk, -⟩ := List.mem_map.mp hm
    exact List.ne_nil_of_mem hk
  · intro hne
    obtain ⟨k, hk⟩ := List.exists_mem_of_ne_nil _ hne
    exact ⟨_, List.mem_map_of_mem hk⟩

end OiUserland.Fetch.HashLines
