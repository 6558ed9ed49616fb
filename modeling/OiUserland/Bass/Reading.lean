import OiUserland.Bass.Records

namespace OiUserland.Bass.Reading

open Makefiles Records Parts

variable {line l : Line} {s s' : Reader} {r : Entries} {i j : Nat} {k : Keyword} {t : Target} {it : Item} {e : Entry} {kind : Kind}

section Finding

variable {ι α β : Type} {xs : List ι} {x : ι} {f : ι → Option α} {g : ι → Option β} {a : α} {b : β}

theorem findSome_some (h : (xs.findSome? fun x => (f x).map fun a => (x, a)) = some (x, a)) : f x = some a := by
  obtain ⟨y, -, hy⟩ := List.exists_of_findSome?_eq_some h
  obtain ⟨c, hc, heq⟩ := Option.map_eq_some_iff.mp hy
  cases heq
  exact hc

theorem findSome_none (hg : ∀ x, f x = none → g x = none) (h : (xs.findSome? fun x => (f x).map fun a => (x, a)) = none) :
    (xs.findSome? fun x => (g x).map fun b => (x, b)) = none := by
  rw [List.findSome?_eq_none_iff] at h ⊢
  intro x hx
  rw [hg x (Option.map_eq_none_iff.mp (h x hx)), Option.map_none]

theorem findSome_refine (hg : ∀ x, f x = none → g x = none) (h : (xs.findSome? fun x => (f x).map fun a => (x, a)) = some (x, a))
    (hb : g x = some b) : (xs.findSome? fun x => (g x).map fun b => (x, b)) = some (x, b) := by
  induction xs with
  | nil => cases h
  | cons y xs ih =>
      rw [List.findSome?_cons] at h ⊢
      cases hy : f y with
      | none =>
          rw [hy] at h
          rw [hg y hy]
          exact ih h
      | some c =>
          rw [hy] at h
          cases h
          rw [hb]
          rfl

end Finding

inductive Class (line : Line) : Option (Kind × Line) → Prop
  | unread (h : Unread line) : Class line none
  | included {s : Line} (hc : comment line = false) (h : included line = some s) : Class line (some (.included, s))
  | var {k : Keyword} {s : Line} (hc : comment line = false) (hi : Makefiles.included line = none) (h : assignment k line = some s)
      (hfind : ∀ v more, definition k line = some (v, more) → findDefinition line = some (k, v, more)) :
      Class line (some (.var k, s))
  | target {t : Target} {s : Line} (hc : comment line = false) (hi : Makefiles.included line = none) (hd : findDefinition line = none)
      (h : prerequisites t line = some s)
      (hfind : findTarget line = some (t, (s.dropWhile isSpace).takeWhile (· ≠ '\n'), false)) : Class line (some (.target t, s))

theorem class_classify (hp : Physical line) : Class line (classify line) := by
  have hrule (t : Target) (h : prerequisites t line = none) : targetRule t line = none := by
    rw [targetRule_eq, h, Option.bind_none]
  have hdef (k : Keyword) (h : assignment k line = none) : definition k line = none := definition_of_assignment_none h
  unfold classify
  split
  · next hc => exact .unread (.inl hc)
  · next hc =>
      have hcomment := Bool.eq_false_iff.mpr hc
      split
      · next s hi => exact .included hcomment hi
      · next hi =>
          split
          · next k s hk =>
              exact .var hcomment hi (findSome_some (f := fun k => assignment k line) hk) fun v more hv => findSome_refine hdef hk hv
          · next hk =>
              have hnone := findSome_none hdef hk
              cases ht : Target.all.findSome? fun t => (prerequisites t line).map fun s => (t, s) with
              | none => exact .unread (.inr ⟨hi, hnone, findSome_none hrule ht⟩)
              | some r =>
                  obtain ⟨t, s⟩ := r
                  have hs := findSome_some (f := fun t => prerequisites t line) ht
                  refine .target hcomment hi hnone hs (findSome_refine hrule ht ?_)
                  rw [targetRule_eq, hs, Option.bind_some, continuation_physical hp (prerequisites_suffix hs)]

theorem classify_ne_other {c : Kind × Line} (hp : Physical line) (h : classify line = some c) : c.1 ≠ .other := by
  have hclass := class_classify hp
  rw [h] at hclass
  cases hclass <;> exact nofun

def Recorded (i : Nat) (s : Definitions) : Prop :=
  (∃ it ∈ s.includes, it.idx = some i) ∨ (∃ k it, s.vars k = some it ∧ it.idx = some i) ∨ ∃ t it, s.targets t = some it ∧ it.idx = some i

structure Below (i : Nat) (r : Entries) : Prop where
  includes : ∀ e ∈ r.includes, e.idx < i
  vars : ∀ k e, r.vars k = some e → e.idx < i
  targets : ∀ t e, r.targets t = some e → e.idx < i

theorem idx_of_view (h : view it = e.view) : it.idx = some e.idx := congrArg Prod.fst h

theorem entry_of_var (h : Same s.toDefinitions r) (hit : s.vars k = some it) : ∃ e, r.vars k = some e ∧ view it = e.view := by
  have hk := h.vars k
  rw [hit, Option.map_some] at hk
  obtain ⟨e, he, hview⟩ := Option.map_eq_some_iff.mp hk.symm
  exact ⟨e, he, hview.symm⟩

theorem entry_of_target (h : Same s.toDefinitions r) (hit : s.targets t = some it) : ∃ e, r.targets t = some e ∧ view it = e.view := by
  have hk := h.targets t
  rw [hit, Option.map_some] at hk
  obtain ⟨e, he, hview⟩ := Option.map_eq_some_iff.mp hk.symm
  exact ⟨e, he, hview.symm⟩

theorem item_of_var (h : Same s.toDefinitions r) (he : r.vars k = some e) : ∃ it, s.vars k = some it ∧ view it = e.view := by
  have hk := h.vars k
  rw [he, Option.map_some] at hk
  exact Option.map_eq_some_iff.mp hk

theorem item_of_target (h : Same s.toDefinitions r) (he : r.targets t = some e) : ∃ it, s.targets t = some it ∧ view it = e.view := by
  have hk := h.targets t
  rw [he, Option.map_some] at hk
  exact Option.map_eq_some_iff.mp hk

theorem not_same_of_recorded (hr : Below i r) (hs : Recorded i s.toDefinitions) : ¬ Same s.toDefinitions r := by
  intro h
  rcases hs with ⟨it, hit, hidx⟩ | ⟨k, it, hit, hidx⟩ | ⟨t, it, hit, hidx⟩
  · have hmem : view it ∈ r.includes.map Entry.view := h.includes ▸ List.mem_map_of_mem hit
    obtain ⟨e, he, hview⟩ := List.mem_map.mp hmem
    rw [idx_of_view hview.symm, Option.some.injEq] at hidx
    exact absurd (hr.includes e he) (by omega)
  · obtain ⟨e, he, hview⟩ := entry_of_var h hit
    rw [idx_of_view hview, Option.some.injEq] at hidx
    exact absurd (hr.vars k e he) (by omega)
  · obtain ⟨e, he, hview⟩ := entry_of_target h hit
    rw [idx_of_view hview, Option.some.injEq] at hidx
    exact absurd (hr.targets t e he) (by omega)

theorem not_same_record {p : Line} (h : Same s.toDefinitions r) (hr : Below i r) (hkind : kind ≠ .other) :
    ¬ Same s.toDefinitions (r.record kind ⟨i, [p]⟩) := by
  intro h'
  cases kind with
  | included =>
      have hlen := congrArg List.length (h.includes.symm.trans h'.includes)
      simp [Entries.record] at hlen
  | var k =>
      have hk : (r.vars k).map Entry.view = (Function.update r.vars k (some ⟨i, [p]⟩) k).map Entry.view := (h.vars k).symm.trans (h'.vars k)
      rw [Function.update_self] at hk
      obtain ⟨e, he, hview⟩ := Option.map_eq_some_iff.mp hk
      have hidx : e.idx = i := Option.some.inj (congrArg Prod.fst hview)
      exact absurd (hr.vars k e he) (by omega)
  | target t =>
      have hk : (r.targets t).map Entry.view = (Function.update r.targets t (some ⟨i, [p]⟩) t).map Entry.view :=
        (h.targets t).symm.trans (h'.targets t)
      rw [Function.update_self] at hk
      obtain ⟨e, he, hview⟩ := Option.map_eq_some_iff.mp hk
      have hidx : e.idx = i := Option.some.inj (congrArg Prod.fst hview)
      exact absurd (hr.targets t e he) (by omega)
  | other => exact hkind rfl

theorem Below.mono (h : Below i r) (hij : i ≤ j) : Below j r :=
  ⟨fun e he => (h.includes e he).trans_le hij, fun k e he => (h.vars k e he).trans_le hij,
    fun t e he => (h.targets t e he).trans_le hij⟩

theorem Below.append (h : Below i r) (kind : Kind) (p : Line) : Below i (r.append kind p) := by
  cases kind with
  | included =>
      refine ⟨fun e he => ?_, h.vars, h.targets⟩
      rcases List.mem_append.mp he with he | he
      · exact h.includes e ((List.dropLast_subset _) he)
      · obtain ⟨d, hd, rfl⟩ := Option.map_eq_some_iff.mp (Option.mem_toList.mp he)
        exact h.includes d (List.mem_of_getLast? hd)
  | var k =>
      refine ⟨h.includes, fun j e he => ?_, h.targets⟩
      change Function.update r.vars k ((r.vars k).map (Entry.append p)) j = some e at he
      by_cases hj : j = k
      · rw [hj, Function.update_self] at he
        obtain ⟨d, hd, rfl⟩ := Option.map_eq_some_iff.mp he
        exact h.vars k d hd
      · rw [Function.update_of_ne hj] at he
        exact h.vars j e he
  | target t =>
      refine ⟨h.includes, h.vars, fun j e he => ?_⟩
      change Function.update r.targets t ((r.targets t).map (Entry.append p)) j = some e at he
      by_cases hj : j = t
      · rw [hj, Function.update_self] at he
        obtain ⟨d, hd, rfl⟩ := Option.map_eq_some_iff.mp he
        exact h.targets t d hd
      · rw [Function.update_of_ne hj] at he
        exact h.targets j e he
  | other => exact h

theorem Below.record (h : Below i r) (kind : Kind) (p : Line) : Below (i + 1) (r.record kind ⟨i, [p]⟩) := by
  have hmore := h.mono (Nat.le_succ i)
  cases kind with
  | included =>
      refine ⟨fun e he => ?_, hmore.vars, hmore.targets⟩
      rcases List.mem_append.mp he with he | he
      · exact hmore.includes e he
      · rw [List.mem_singleton.mp he]
        exact Nat.lt_succ_self i
  | var k =>
      refine ⟨hmore.includes, fun j e he => ?_, hmore.targets⟩
      change Function.update r.vars k (some ⟨i, [p]⟩) j = some e at he
      by_cases hj : j = k
      · rw [hj, Function.update_self] at he
        rw [← Option.some.inj he]
        exact Nat.lt_succ_self i
      · rw [Function.update_of_ne hj] at he
        exact hmore.vars j e he
  | target t =>
      refine ⟨hmore.includes, hmore.vars, fun j e he => ?_⟩
      change Function.update r.targets t (some ⟨i, [p]⟩) j = some e at he
      by_cases hj : j = t
      · rw [hj, Function.update_self] at he
        rw [← Option.some.inj he]
        exact Nat.lt_succ_self i
      · rw [Function.update_of_ne hj] at he
        exact hmore.targets j e he
  | other => exact hmore

theorem same_setItem (h : Same s.toDefinitions r) (hit : view it = e.view) :
    Same (s.setItem k it).toDefinitions { r with vars := Function.update r.vars k (some e) } := by
  refine ⟨h.includes, fun j => ?_, h.targets⟩
  change (Function.update s.vars k (some it) j).map view = (Function.update r.vars k (some e) j).map Entry.view
  by_cases hj : j = k
  · subst hj
    rw [Function.update_self, Function.update_self, Option.map_some, Option.map_some, hit]
  · rw [Function.update_of_ne hj, Function.update_of_ne hj]
    exact h.vars j

theorem same_setTarget (h : Same s.toDefinitions r) (hit : view it = e.view) :
    Same (s.setTarget t it).toDefinitions { r with targets := Function.update r.targets t (some e) } := by
  refine ⟨h.includes, h.vars, fun j => ?_⟩
  change (Function.update s.targets t (some it) j).map view = (Function.update r.targets t (some e) j).map Entry.view
  by_cases hj : j = t
  · subst hj
    rw [Function.update_self, Function.update_self, Option.map_some, Option.map_some, hit]
  · rw [Function.update_of_ne hj, Function.update_of_ne hj]
    exact h.targets j

theorem view_append (h : view it = e.view) (hl : strip l = strip line) :
    view (it.append l) = (e.append (part line)).view ↔ continued line = false := by
  have hparts : it.str.map strip = e.parts := congrArg Prod.snd h
  have hstr : (it.append l).str.map strip = e.parts ++ [strip line] := by
    rw [Item.append, List.map_append, hparts, List.map_singleton, strip_strip, hl]
  constructor
  · intro heq
    have hsnd : (it.append l).str.map strip = e.parts ++ [part line] := congrArg Prod.snd heq
    rw [hstr] at hsnd
    refine Bool.eq_false_iff.mpr fun hcont => part_ne hcont ?_
    exact (List.singleton_inj.mp (List.append_cancel_left hsnd)).symm
  · intro hcont
    have hidx : it.idx = some e.idx := idx_of_view h
    refine Prod.ext hidx (hstr.trans ?_)
    rw [← part_eq hcont]
    rfl

theorem view_single {v w : Line} (hv : strip v = strip w) : view (.single i v) = (⟨i, [part w]⟩ : Entry).view ↔ continued w = false := by
  constructor
  · intro heq
    have hsnd : [strip v] = [part w] := congrArg Prod.snd heq
    refine Bool.eq_false_iff.mpr fun hcont => part_ne hcont ?_
    rw [← hv]
    exact (List.singleton_inj.mp hsnd).symm
  · intro hcont
    refine Prod.ext rfl (congrArg (fun p => [p]) ?_)
    rw [part_eq hcont]
    exact hv

theorem hasVariable_eq (h : Same s.toDefinitions r) (v : Line) : s.hasVariable v = r.hasVariable v := by
  unfold Reader.hasVariable Entries.hasVariable
  congr 1
  funext k
  have hk := congrArg Option.isSome (h.vars k)
  rw [Option.isSome_map, Option.isSome_map] at hk
  rw [hk]

theorem hasTarget_eq (h : Same s.toDefinitions r) (v : Line) : s.hasTarget v = r.hasTarget v := by
  unfold Reader.hasTarget Entries.hasTarget
  congr 1
  funext k
  have hk := congrArg Option.isSome (h.targets k)
  rw [Option.isSome_map, Option.isSome_map] at hk
  rw [hk]

theorem readLine_unread (h : Unread line) : s.readLine i line = .ok s := by
  unfold Reader.readLine
  rcases h with hc | ⟨hi, hd, ht⟩
  · rw [if_pos hc]
  · rw [hi, hd, ht]
    exact ite_self _

theorem readLine_recorded (h : ¬ Unread line) (hs : s.readLine i line = .ok s') : Recorded i s'.toDefinitions := by
  unfold Reader.readLine at hs
  split at hs
  · next hc => exact absurd (.inl hc) h
  · split at hs
    · cases hs
      exact .inl ⟨_, List.mem_append_right _ (List.mem_singleton_self _), rfl⟩
    · next hi =>
        split at hs
        · next k v more hd =>
            unfold Reader.defineVariable at hs
            split at hs
            · cases hs
            · refine .inr (.inl ⟨k, .single i v, ?_, rfl⟩)
              cases hs
              split <;> exact Function.update_self ..
        · next hd =>
            split at hs
            · next t v more ht =>
                unfold Reader.defineTarget at hs
                split at hs
                · cases hs
                · refine .inr (.inr ⟨t, .single i v, ?_, rfl⟩)
                  cases hs
                  split <;> exact Function.update_self ..
            · next ht => exact absurd (.inr ⟨hi, hd, ht⟩) h

theorem readLine_vars (h : definition k line = none) (hs : s.readLine i line = .ok s') : s'.vars k = s.vars k := by
  unfold Reader.readLine at hs
  split at hs
  · cases hs
    rfl
  · split at hs
    · cases hs
      rfl
    · split at hs
      · next j v more hd =>
          have hj : definition j line = some (v, more) := findSome_some (f := fun k => definition k line) hd
          have hne : k ≠ j := by
            rintro rfl
            rw [h] at hj
            cases hj
          unfold Reader.defineVariable at hs
          split at hs
          · cases hs
          · cases hs
            split <;> exact Function.update_of_ne hne _ _
      · split at hs
        · unfold Reader.defineTarget at hs
          split at hs
          · cases hs
          · cases hs
            split <;> rfl
        · cases hs
          rfl

theorem tab_unread (htab : line.head? = some '\t') : Unread line ↔ findDefinition line = none := by
  cases line with
  | nil => cases htab
  | cons c line =>
      obtain rfl := Option.some.inj htab
      have ht : findTarget ('\t' :: line) = none := by
        refine List.findSome?_eq_none_iff.mpr fun t _ => ?_
        cases t <;> rfl
      constructor
      · rintro (hc | ⟨-, hd, -⟩)
        · cases hc
        · exact hd
      · intro hd
        exact .inr ⟨rfl, hd, ht⟩

section Steps

variable {r : Reference}

def Modes (s : Reader) (r : Reference) : Prop :=
  match r.joined with
  | none => s.m = none ∧ s.d = r.rule ∧ ∀ t, r.rule = some t → (r.targets t).isSome
  | some (.var k) => s.m = some k ∧ s.d = none ∧ r.rule = none ∧ (r.vars k).isSome
  | some .other => s.m = none ∧ s.d = none ∧ r.rule = none
  | some _ => False

structure InStep (i : Nat) (s : Reader) (r : Reference) : Prop where
  same : Same s.toDefinitions r.toEntries
  below : Below i r.toEntries
  t : s.t = none
  modes : Modes s r

def StepsTogether (i : Nat) (s : Reader) (r : Reference) (line : Line) : Prop :=
  (Tame r line → ∃ s', s.step i line = .ok s' ∧ InStep (i + 1) s' (r.step i line)) ∧
    ∀ s', s.step i line = .ok s' → Same s'.toDefinitions (r.step i line).toEntries → Tame r line

theorem step_plain (ht : s.t = none) (hd : s.d = none) (hm : s.m = none) : s.step i line = s.readLine i line := by
  rw [Reader.step, ht, hd]
  change s.readVariable i line = _
  rw [Reader.readVariable, hm]

theorem step_variable (h : InStep i s r) (hp : Physical line) (hjoined : r.joined = some (.var k)) : StepsTogether i s r line := by
  have hmodes := h.modes
  rw [Modes, hjoined] at hmodes
  obtain ⟨hm, hd, hrule, hsome⟩ := hmodes
  obtain ⟨e, he⟩ := Option.isSome_iff_exists.mp hsome
  obtain ⟨it, hit, hview⟩ := item_of_var h.same he
  have hl := strip_continuation hp (List.suffix_refl line)
  have hstep : s.step i line = .ok { s.setItem k (it.append ((line.dropWhile isSpace).takeWhile (· ≠ '\n'))) with m := none } := by
    rw [Reader.step, h.t, hd]
    change s.readVariable i line = _
    rw [Reader.readVariable, hm]
    change s.continueVariable k line = _
    rw [Reader.continueVariable, hit]
    dsimp only
    rw [continuation_physical hp (List.suffix_refl line)]
    rfl
  have hr : r.step i line = r.join (.var k) line := by
    rw [Reference.step, hjoined]
  have happend : r.append (.var k) (part line) =
      { r.toEntries with vars := Function.update r.vars k (some (e.append (part line))) } := by
    rw [Entries.append, he]
    rfl
  have htame : Tame r line ↔ continued line = false := by
    rw [Tame, hjoined]
  rw [StepsTogether, htame, hr, hstep]
  constructor
  · intro hcont
    have hsame := same_setItem (k := k) h.same ((view_append hview hl).mpr hcont)
    refine ⟨_, rfl, ?_, ((h.below.append (.var k) (part line)).mono (Nat.le_succ i)), h.t, ?_⟩
    · rw [Reference.join, happend]
      exact hsame
    · rw [Modes, Reference.join, hcont]
      exact ⟨rfl, hd.trans hrule.symm, fun t ht => absurd (ht.symm.trans hrule) (Option.some_ne_none t)⟩
  · rintro s' ⟨rfl⟩ hsame
    have hvar := hsame.vars k
    rw [Reference.join, happend] at hvar
    change (Function.update s.vars k (some (it.append _)) k).map view =
      (Function.update r.vars k (some (e.append (part line))) k).map Entry.view at hvar
    rw [Function.update_self, Function.update_self] at hvar
    exact (view_append hview hl).mp (Option.some.inj hvar)

theorem step_other (h : InStep i s r) (hjoined : r.joined = some .other) : StepsTogether i s r line := by
  have hmodes := h.modes
  rw [Modes, hjoined] at hmodes
  obtain ⟨hm, hd, hrule⟩ := hmodes
  have hr : r.step i line = r.join .other line := by
    rw [Reference.step, hjoined]
  have htame : Tame r line ↔ Unread line := by
    rw [Tame, hjoined]
  rw [StepsTogether, htame, hr, step_plain h.t hd hm]
  constructor
  · intro hunread
    refine ⟨s, readLine_unread hunread, h.same, h.below.mono (Nat.le_succ i), h.t, ?_⟩
    · rw [Modes, Reference.join]
      cases continued line with
      | true => exact ⟨hm, hd, hrule⟩
      | false => exact ⟨hm, hd.trans hrule.symm, fun t ht => absurd (ht.symm.trans hrule) (Option.some_ne_none t)⟩
  · intro s' hs' hsame
    by_contra hread
    exact not_same_of_recorded h.below (readLine_recorded hread hs') hsame

theorem step_tab (h : InStep i s r) (hp : Physical line) (hjoined : r.joined = none) (hrule : r.rule = some t)
    (htab : line.head? = some '\t') : StepsTogether i s r line := by
  have hmodes := h.modes
  rw [Modes, hjoined] at hmodes
  obtain ⟨hm, hd, hsome⟩ := hmodes
  obtain ⟨e, he⟩ := Option.isSome_iff_exists.mp (hsome t hrule)
  obtain ⟨it, hit, hview⟩ := item_of_target h.same he
  obtain ⟨l, hl, hstrip⟩ := recipe_tab hp htab
  have hstep : s.step i line = (s.setTarget t (it.append l)).readLine i line := by
    rw [Reader.step, h.t, hd, hrule]
    change s.readRecipe i t line = _
    rw [Reader.readRecipe, hl]
    dsimp only
    rw [hit]
    change (s.setTarget t (it.append l)).readVariable i line = _
    rw [Reader.readVariable]
    rw [show (s.setTarget t (it.append l)).m = none from hm]
  have hr : r.step i line = r.join (.target t) line := by
    rw [Reference.step, hjoined, hrule]
    exact if_pos htab
  have happend : r.append (.target t) (part line) =
      { r.toEntries with targets := Function.update r.targets t (some (e.append (part line))) } := by
    rw [Entries.append, he]
    rfl
  have htame : Tame r line ↔ continued line = false ∧ findDefinition line = none := by
    rw [Tame, hjoined, hrule]
    exact iff_of_eq (if_pos htab)
  rw [StepsTogether, htame, hr, hstep]
  constructor
  · rintro ⟨hcont, hdef⟩
    have hsame := same_setTarget (t := t) h.same ((view_append hview hstrip).mpr hcont)
    refine ⟨_, readLine_unread ((tab_unread htab).mpr hdef), ?_, (h.below.append (.target t) (part line)).mono (Nat.le_succ i), h.t, ?_⟩
    · rw [Reference.join, happend]
      exact hsame
    · rw [Modes, Reference.join, hcont]
      refine ⟨hm, hd, fun t' ht' => ?_⟩
      obtain rfl := Option.some.inj (hrule.symm.trans ht')
      rw [happend]
      change (Function.update r.targets t (some (e.append (part line))) t).isSome = true
      rw [Function.update_self, Option.isSome_some]
  · intro s' hs' hsame
    have hdef : findDefinition line = none := by
      by_contra hne
      have hread : ¬ Unread line := fun hunread => hne ((tab_unread htab).mp hunread)
      exact not_same_of_recorded (h.below.append (.target t) (part line)) (readLine_recorded hread hs') hsame
    refine ⟨?_, hdef⟩
    rw [readLine_unread ((tab_unread htab).mpr hdef)] at hs'
    obtain rfl := Except.ok.inj hs'
    have htarget := hsame.targets t
    rw [Reference.join, happend] at htarget
    change (Function.update s.targets t (some (it.append l)) t).map view =
      (Function.update r.targets t (some (e.append (part line))) t).map Entry.view at htarget
    rw [Function.update_self, Function.update_self] at htarget
    exact (view_append hview hstrip).mp (Option.some.inj htarget)

theorem step_behind (h : InStep i s r) (hp : Physical line) (hjoined : r.joined = none) (hrule : r.rule = some t)
    (htab : line.head? ≠ some '\t') : StepsTogether i s r line := by
  have hmodes := h.modes
  rw [Modes, hjoined] at hmodes
  obtain ⟨hm, hd, -⟩ := hmodes
  have hrecipe : s.readRecipe i t line = .ok { s with d := none } := by
    rw [Reader.readRecipe, recipe_none htab]
  have hstep : s.step i line = .ok { s with d := none } := by
    rw [← hrecipe, Reader.step, h.t, hd, hrule]
  have hr : r.step i line = r.read i line := by
    rw [Reference.step, hjoined, hrule]
    exact if_neg htab
  have htame : Tame r line ↔ classify line = none := by
    rw [Tame, hjoined, hrule]
    exact iff_of_eq (if_neg htab)
  rw [StepsTogether, htame, hr, hstep, Reference.read]
  constructor
  · intro hclass
    rw [hclass]
    refine ⟨_, rfl, h.same, h.below.mono (Nat.le_succ i), h.t, ?_⟩
    rw [Modes]
    cases continued line with
    | true => exact ⟨hm, rfl, rfl⟩
    | false => exact ⟨hm, rfl, nofun⟩
  · rintro s' ⟨rfl⟩ hsame
    cases hclass : classify line with
    | none => rfl
    | some c =>
        rw [hclass] at hsame
        exact absurd hsame (not_same_record (s := s) h.same h.below (classify_ne_other hp hclass))

theorem readLine_included {w : Line} (hc : comment line = false) (hi : included line = some w) :
    s.readLine i line = .ok { s with includes := s.includes ++ [.single i w] } := by
  rw [Reader.readLine, hc, hi]
  rfl

theorem readLine_definition {v : Line} {more : Bool} (hc : comment line = false) (hi : included line = none)
    (hd : findDefinition line = some (k, v, more)) : s.readLine i line = s.defineVariable i k v more := by
  rw [Reader.readLine, hc, hi, hd]
  rfl

theorem readLine_target {v : Line} {more : Bool} (hc : comment line = false) (hi : included line = none)
    (hd : findDefinition line = none) (ht : findTarget line = some (t, v, more)) :
    s.readLine i line = s.defineTarget i t v more := by
  rw [Reader.readLine, hc, hi, hd, ht]
  rfl

theorem free_included {w : Line} (h : InStep i s r) (hm : s.m = none) (hd : s.d = none) (hc : comment line = false)
    (hi : included line = some w) :
    (continued w = false → ∃ s', s.readLine i line = .ok s' ∧ InStep (i + 1) s' ⟨r.record .included ⟨i, [part w]⟩, none, none⟩) ∧
      ∀ s', s.readLine i line = .ok s' → Same s'.toDefinitions (r.record .included ⟨i, [part w]⟩) → continued w = false := by
  have hview := view_single (i := i) (v := w) (w := w) rfl
  rw [readLine_included hc hi]
  constructor
  · intro hcont
    refine ⟨_, rfl, ⟨?_, h.same.vars, h.same.targets⟩, h.below.record .included (part w), h.t, hm, hd, nofun⟩
    change (s.includes ++ [_]).map view = (r.includes ++ [_]).map Entry.view
    rw [List.map_append, List.map_append, h.same.includes, List.map_singleton, List.map_singleton, hview.mpr hcont]
  · rintro s' ⟨rfl⟩ hsame
    have hincludes : (s.includes ++ [_]).map view = (r.includes ++ [_]).map Entry.view := hsame.includes
    rw [List.map_append, List.map_append, h.same.includes] at hincludes
    exact hview.mp (List.singleton_inj.mp (List.append_cancel_left hincludes))

theorem free_var {w : Line} (h : InStep i s r) (hm : s.m = none) (hd : s.d = none) (hc : comment line = false)
    (hi : included line = none) (hassign : assignment k line = some w)
    (hfind : ∀ v more, definition k line = some (v, more) → findDefinition line = some (k, v, more)) :
    (TameHead r.toEntries (some (.var k, w)) line → ∃ s', s.readLine i line = .ok s' ∧
      InStep (i + 1) s' ⟨r.record (.var k) ⟨i, [part w]⟩, none, if continued w then some (.var k) else none⟩) ∧
      ∀ s', s.readLine i line = .ok s' → Same s'.toDefinitions (r.record (.var k) ⟨i, [part w]⟩) →
        TameHead r.toEntries (some (.var k, w)) line := by
  constructor
  · rintro ⟨v, more, hdef, hno⟩
    obtain ⟨rfl, hv⟩ := definition_of_assignment hassign hdef
    have hview : view (.single i v) = (⟨i, [part w]⟩ : Entry).view := congrArg (fun p => (some i, [p])) hv
    have hsame := same_setItem (k := k) h.same hview
    rw [← hasVariable_eq h.same] at hno
    rw [readLine_definition hc hi (hfind _ _ hdef), Reader.defineVariable, hno]
    cases continued w with
    | true =>
        refine ⟨_, rfl, hsame, h.below.record (.var k) (part w), h.t, rfl, hd, rfl, ?_⟩
        change (Function.update r.vars k (some ⟨i, [part w]⟩) k).isSome = true
        rw [Function.update_self, Option.isSome_some]
    | false => exact ⟨_, rfl, hsame, h.below.record (.var k) (part w), h.t, hm, hd, nofun⟩
  · intro s' hs' hsame
    cases hdef : definition k line with
    | none =>
        have hk : (s'.vars k).map view = (Function.update r.vars k (some ⟨i, [part w]⟩) k).map Entry.view := hsame.vars k
        rw [readLine_vars hdef hs', Function.update_self, h.same.vars k] at hk
        obtain ⟨e, he, hview⟩ := Option.map_eq_some_iff.mp hk
        have hidx : e.idx = i := Option.some.inj (congrArg Prod.fst hview)
        exact absurd (h.below.vars k e he) (by omega)
    | some found =>
        obtain ⟨v, more⟩ := found
        refine ⟨v, more, hdef, Bool.eq_false_iff.mpr fun hyes => ?_⟩
        rw [← hasVariable_eq h.same] at hyes
        rw [readLine_definition hc hi (hfind _ _ hdef), Reader.defineVariable, hyes] at hs'
        cases hs'

theorem free_target {w : Line} (h : InStep i s r) (hp : Physical line) (hm : s.m = none) (hc : comment line = false)
    (hi : included line = none) (hdef : findDefinition line = none) (hprereq : prerequisites t line = some w)
    (hfind : findTarget line = some (t, (w.dropWhile isSpace).takeWhile (· ≠ '\n'), false)) :
    (TameHead r.toEntries (some (.target t, w)) line → ∃ s', s.readLine i line = .ok s' ∧
      InStep (i + 1) s' ⟨r.record (.target t) ⟨i, [part w]⟩, some t, none⟩) ∧
      ∀ s', s.readLine i line = .ok s' → Same s'.toDefinitions (r.record (.target t) ⟨i, [part w]⟩) →
        TameHead r.toEntries (some (.target t, w)) line := by
  have hview := view_single (i := i) (strip_continuation hp (prerequisites_suffix hprereq))
  have hread : s.readLine i line = s.defineTarget i t ((w.dropWhile isSpace).takeWhile (· ≠ '\n')) false :=
    readLine_target hc hi hdef hfind
  rw [hread, Reader.defineTarget]
  constructor
  · rintro ⟨hcont, hno⟩
    rw [← hasTarget_eq h.same] at hno
    rw [hno]
    refine ⟨_, rfl, same_setTarget (t := t) h.same (hview.mpr hcont), h.below.record (.target t) (part w), rfl, hm, rfl, ?_⟩
    rintro t' ⟨rfl⟩
    change (Function.update r.targets t (some ⟨i, [part w]⟩) t).isSome = true
    rw [Function.update_self, Option.isSome_some]
  · intro s' hs' hsame
    split at hs'
    · cases hs'
    · next hno =>
        cases hs'
        have htarget : (Function.update s.targets t (some (.single i _)) t).map view =
            (Function.update r.targets t (some ⟨i, [part w]⟩) t).map Entry.view := hsame.targets t
        rw [Function.update_self, Function.update_self] at htarget
        refine ⟨hview.mp (Option.some.inj htarget), ?_⟩
        rw [← hasTarget_eq h.same]
        exact Bool.eq_false_iff.mpr hno

theorem step_free (h : InStep i s r) (hp : Physical line) (hjoined : r.joined = none) (hrule : r.rule = none) :
    StepsTogether i s r line := by
  have hmodes := h.modes
  rw [Modes, hjoined] at hmodes
  obtain ⟨hm, hd, -⟩ := hmodes
  rw [hrule] at hd
  have hr : r.step i line = r.read i line := by
    rw [Reference.step, hjoined, hrule]
  have htame : Tame r line ↔ TameHead r.toEntries (classify line) line := by
    rw [Tame, hjoined, hrule]
  have hclass := class_classify hp
  rw [StepsTogether, htame, hr, step_plain h.t hd hm, Reference.read]
  generalize classify line = c at hclass ⊢
  cases hclass with
  | unread hunread =>
      refine ⟨fun _ => ⟨s, readLine_unread hunread, h.same, h.below.mono (Nat.le_succ i), h.t, ?_⟩, fun _ _ _ => trivial⟩
      rw [Modes]
      cases continued line with
      | true => exact ⟨hm, hd, rfl⟩
      | false => exact ⟨hm, hd, nofun⟩
  | @included w hc hi =>
      obtain ⟨htogether, htame⟩ := free_included h hm hd hc hi
      refine ⟨fun hcont => ?_, htame⟩
      have hnone : continued w = false := hcont
      dsimp only
      rw [hnone]
      exact htogether hcont
  | @var k w hc hi hassign hfind => exact free_var h hm hd hc hi hassign hfind
  | @target t w hc hi hdef hprereq hfind =>
      obtain ⟨htogether, htame⟩ := free_target h hp hm hc hi hdef hprereq hfind
      refine ⟨fun hcont => ?_, htame⟩
      have hnone : continued w = false := hcont.1
      dsimp only
      rw [hnone]
      exact htogether hcont

theorem stepsTogether (h : InStep i s r) (hp : Physical line) : StepsTogether i s r line := by
  have hmodes := h.modes
  cases hjoined : r.joined with
  | some kind =>
      rw [Modes, hjoined] at hmodes
      cases kind with
      | included => exact hmodes.elim
      | var k => exact step_variable h hp hjoined
      | target t => exact hmodes.elim
      | other => exact step_other h hjoined
  | none =>
      cases hrule : r.rule with
      | none => exact step_free h hp hjoined hrule
      | some t =>
          by_cases htab : line.head? = some '\t'
          · exact step_tab h hp hjoined hrule htab
          · exact step_behind h hp hjoined hrule htab

end Steps

end OiUserland.Bass.Reading
