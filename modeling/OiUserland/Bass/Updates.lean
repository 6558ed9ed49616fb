import OiUserland.Bass.Reading

namespace OiUserland.Bass.Updates

open Makefiles Records Reading

variable {s s' : Reader} {r : Reference} {i : Nat} {l : Line} {ls contents : List Line}

theorem scan_nil : s.scan i [] = .ok s := rfl

theorem scan_ok (h : s.step i l = .ok s') : s.scan i (l :: ls) = s'.scan (i + 1) ls := by
  rw [Reader.scan, h]

theorem scan_together (h : InStep i s r) (hp : ∀ l ∈ ls, Physical l) :
    Safe r i ls ↔ ∀ n, ∃ s', s.scan i (ls.take n) = .ok s' ∧ Same s'.toDefinitions (r.scan i (ls.take n)).toEntries := by
  induction ls generalizing s r i with
  | nil =>
      refine iff_of_true trivial fun n => ⟨s, ?_, ?_⟩
      · rw [List.take_nil, scan_nil]
      · rw [List.take_nil]
        exact h.same
  | cons l ls ih =>
      have hrest := fun l' hl' => hp l' (List.mem_cons_of_mem _ hl')
      obtain ⟨htogether, hseen⟩ := stepsTogether h (hp l (List.mem_cons_self ..))
      constructor
      · rintro ⟨htame, hsafe⟩ n
        obtain ⟨s', hs', hin⟩ := htogether htame
        cases n with
        | zero => exact ⟨s, rfl, h.same⟩
        | succ n =>
            rw [List.take_succ_cons, scan_ok hs']
            exact (ih hin hrest).mp hsafe n
      · intro hall
        obtain ⟨s₁, hs₁, hsame⟩ := hall 1
        have htame : Tame r l := by
          rw [List.take_succ_cons, List.take_zero, Reader.scan] at hs₁
          split at hs₁
          · cases hs₁
          · next s' hs' =>
              cases hs₁
              exact hseen _ hs' hsame
        obtain ⟨s', hs', hin⟩ := htogether htame
        refine ⟨htame, (ih hin hrest).mpr fun n => ?_⟩
        have hnext := hall (n + 1)
        rw [List.take_succ_cons, scan_ok hs'] at hnext
        exact hnext

theorem inStep_start : InStep 0 Reader.start Reference.start :=
  ⟨⟨rfl, fun _ => rfl, fun _ => rfl⟩, ⟨nofun, nofun, nofun⟩, rfl, rfl, rfl, nofun⟩

theorem meets_iff : Meets contents ↔ ∃ s, Reader.start.scan 0 contents = .ok s ∧
    Same s.toDefinitions (Reference.start.scan 0 contents).toEntries := by
  unfold Meets Makefile.update
  constructor
  · rintro ⟨mk, hmk, hsame⟩
    split at hmk
    · cases hmk
    · next s hs =>
        cases hmk
        exact ⟨s, hs, hsame⟩
  · rintro ⟨s, hs, hsame⟩
    rw [hs]
    exact ⟨_, rfl, hsame⟩

/-- What is recorded is what the reference records, at every line, if and only if all lines are tame. -/
theorem update_iff (contents : List Line) (hp : ∀ l ∈ contents, Physical l) :
    (Safe Reference.start 0 contents → Meets contents) ∧
      (Safe Reference.start 0 contents ↔ ∀ n, Meets (contents.take n)) := by
  have hruns : Safe Reference.start 0 contents ↔ ∀ n, Meets (contents.take n) := by
    rw [scan_together inStep_start hp]
    exact forall_congr' fun n => meets_iff.symm
  refine ⟨fun hsafe => ?_, hruns⟩
  have hall := hruns.mp hsafe contents.length
  rw [List.take_length] at hall
  exact hall

/-- An include, a definition on two lines and a rule with a recipe. -/
theorem update_iff_small : Meets [['i', 'n', 'c', 'l', 'u', 'd', 'e', ' ', 'x', '\n'], Keyword.mkBits.name ++ ['=', ' ', 'a', ' ', '\\', '\n'], ['\t', 'b', '\n'], ['b', 'u', 'i', 'l', 'd', ':', ' ', 'c', '\n'], ['\t', 'd', '\n']] :=
  (update_iff [['i', 'n', 'c', 'l', 'u', 'd', 'e', ' ', 'x', '\n'], Keyword.mkBits.name ++ ['=', ' ', 'a', ' ', '\\', '\n'], ['\t', 'b', '\n'], ['b', 'u', 'i', 'l', 'd', ':', ' ', 'c', '\n'], ['\t', 'd', '\n']] (by decide)).1
    ⟨rfl, ⟨_, _, rfl, rfl⟩, rfl, ⟨rfl, rfl⟩, ⟨rfl, rfl⟩, trivial⟩

/-- The definition behind a rule is lost, and the third line of a definition is. -/
theorem update_lines_lost : ¬ Meets [['b', 'u', 'i', 'l', 'd', ':', ' ', 'a', '\n'], Keyword.mkBits.name ++ ['=', 'b', '\n']] ∧
    ¬ Meets [Keyword.mkBits.name ++ ['=', 'a', ' ', '\\', '\n'], ['b', ' ', '\\', '\n'], ['c', '\n']] := by
  constructor
  · rintro ⟨mk, hmk, hsame⟩
    have hnone : ((Makefile.update [['b', 'u', 'i', 'l', 'd', ':', ' ', 'a', '\n'], Keyword.mkBits.name ++ ['=', 'b', '\n']]).toOption.bind fun mk => mk.vars .mkBits) = none := by decide
    rw [hmk] at hnone
    have hvars := hsame.vars .mkBits
    rw [show mk.vars .mkBits = none from hnone] at hvars
    revert hvars
    decide
  · rintro ⟨mk, hmk, hsame⟩
    have hparts : ((Makefile.update [Keyword.mkBits.name ++ ['=', 'a', ' ', '\\', '\n'], ['b', ' ', '\\', '\n'], ['c', '\n']]).toOption.bind fun mk => (mk.vars .mkBits).map view) =
        some (some 0, [['a'], ['b', ' ', '\\']]) := by decide
    rw [hmk] at hparts
    have hvars := hsame.vars .mkBits
    rw [show (mk.vars .mkBits).map view = _ from hparts] at hvars
    revert hvars
    decide

end OiUserland.Bass.Updates
