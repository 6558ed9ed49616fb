import OiUserland.Fetch.HashLines

namespace OiUserland.Fetch.HashNames

open Lib.Regexes Lib.Patterns FindHash NamePatterns HashLines

variable {env : Env} {filename hashFile : List Char} {lines : List HashLine} {r a b : Regex} {s m : Reading} {c d : Char}
  {l : HashLine}

def charRegex (c : Char) : Regex := if c = '.' then .dot else literal c

def Agrees (c d : Char) : Prop := if c = '.' then d ≠ '\n' else d = c

theorem mem_char : m ∈ ends (charRegex c) s ↔ ∃ d, s.rest = d :: m.rest ∧ Agrees c d ∧ m = ⟨false, m.rest, s.caps⟩ := by
  by_cases hc : c = '.'
  · subst hc
    change m ∈ readChar _ s ↔ _
    rw [mem_readChar]
    refine exists_congr fun d => and_congr_right fun _ => and_congr_left fun _ => ?_
    rw [bne_iff_ne]
    exact Iff.rfl
  · rw [charRegex, if_neg hc, mem_literal]
    simp only [Agrees, if_neg hc]
    constructor
    · rintro ⟨hrest, hm⟩
      exact ⟨c, hrest, rfl, hm⟩
    · rintro ⟨d, hrest, rfl, hm⟩
      exact ⟨hrest, hm⟩

theorem mem_word {w : List Char} : m ∈ ends (sequence (w.map charRegex)) s ↔
    ∃ u, s.rest = u.reverse ++ m.rest ∧ List.Forall₂ Agrees w u ∧ m = ⟨s.start && u.isEmpty, m.rest, s.caps⟩ := by
  induction w generalizing m with
  | nil =>
      constructor
      · intro h
        obtain rfl := List.mem_singleton.mp h
        refine ⟨[], rfl, .nil, ?_⟩
        rw [List.isEmpty_nil, Bool.and_true]
      · rintro ⟨u, hu, hagrees, hm⟩
        cases hagrees
        refine List.mem_singleton.mpr ?_
        rw [hm, List.isEmpty_nil, Bool.and_true, ← List.nil_append m.rest, ← List.reverse_nil, ← hu]
  | cons c w ih =>
      rw [List.map_cons, mem_sequence_cons]
      constructor
      · rintro ⟨k, hk, hm⟩
        obtain ⟨u, hu, hagrees, hk⟩ := ih.mp hk
        obtain ⟨d, hd, hcd, hm⟩ := mem_char.mp hm
        refine ⟨d :: u, ?_, .cons hcd hagrees, ?_⟩
        · rw [hu, hd, List.reverse_cons, List.append_assoc]
          rfl
        · rw [hm, hk, List.isEmpty_cons, Bool.and_false]
      · rintro ⟨u', hu, hagrees, hm⟩
        cases hagrees with
        | @cons _ d _ u hcd hagrees =>
            rw [List.reverse_cons, List.append_assoc] at hu
            refine ⟨⟨s.start && u.isEmpty, d :: m.rest, s.caps⟩, ih.mpr ⟨u, hu, hagrees, rfl⟩, mem_char.mpr ⟨d, rfl, hcd, ?_⟩⟩
            rw [hm, List.isEmpty_cons, Bool.and_false]

def own (filename : List Char) (l : HashLine) : Bool := basename l.path = basename filename

/-- The function gives the hash of the first line for the file, or nothing without such a line. -/
def Meets (env : Env) (filename hashFile : List Char) (lines : List HashLine) : Prop :=
  ∃ algo, hashAlgo env filename hashFile = some algo ∧ findHashInFile env filename hashFile (lines.map HashLine.text) =
    some ((lines.find? (own filename)).map fun l => algo ++ ':' :: l.hash)

def sha256 : Env := ⟨['s', 'h', 'a', '2', '5', '6'], id, fun _ => none⟩

end OiUserland.Fetch.HashNames
