import OiUserland.Bass.Written

namespace OiUserland.Bass.Edits

open Lib.KeptLines Makefiles Records Parts Parses Written

def definitionLines : List Line → Nat
  | [] => 0
  | l :: ls => if continued l then definitionLines ls + 1 else 1

def others (contents : List Line) (idx n : Nat) : List Line := contents.take idx ++ contents.drop (idx + n)

def landing (pos idx n : Nat) : Nat := if pos ≤ idx then pos else pos - n

def inserted (contents : List Line) (k : Keyword) (value : Line) (pos idx n : Nat) : List Line :=
  (others contents idx n).take (landing pos idx n) ++ written k value :: (others contents idx n).drop (landing pos idx n)

def OutsideRecipe (contents : List Line) (pos : Nat) : Prop :=
  ∀ s, Reader.start.scan 0 (contents.take pos) = .ok s → s.d = none

structure Passed (k : Keyword) (it : Item) (below : List Line) (s r : Reader) : Prop where
  idle : s.t = none ∧ s.m = none
  t : r.t = none
  m : r.m = none ∨ below = []
  d : r.d = s.d
  item : r.vars k = some it
  vars : ∀ j, j ≠ k → (r.vars j).isSome = (s.vars j).isSome
  targets : ∀ t, (r.targets t).isSome = (s.targets t).isSome

structure Stands (c : List Line) (k : Keyword) (it : Item) (idx n : Nat) (f s r : Reader) : Prop where
  above : Reader.start.scan 0 (c.take idx) = .ok s
  across : Reader.start.scan 0 (c.take (idx + n)) = .ok r
  below : r.scan (idx + n) (c.drop (idx + n)) = .ok f
  passed : Passed k it (c.drop (idx + n)) s r
  inside : n = 1 ∨ ∃ u, Reader.start.scan 0 (c.take (idx + 1)) = .ok u ∧ u.m = some k
  length : it.length = n
  le : idx + n ≤ c.length
  placed : place f k = some (some idx)

variable {k : Keyword} {n i i' idx pos : Nat} {v v' : Option Item} {s s' r f : Reader} {it : Item} {line w : Line} {value : Line}
  {ls c below : List Line} {more : Bool} {mk : Makefile} {text : List Char}

theorem continued_append {a : Char} (ha : isSpace a = false) (hne : a ≠ '\\') (u w : Line) : continued (u ++ a :: w) = continued w := by
  induction w using List.reverseRecOn with
  | nil =>
      rw [continued, strip_concat ha, List.getLast?_concat]
      exact decide_eq_false fun heq => hne (Option.some.inj heq)
  | append_singleton w x ih =>
      have hsplit : u ++ a :: (w ++ [x]) = (u ++ a :: w) ++ [x] := by rw [List.append_assoc, List.cons_append]
      rw [hsplit]
      by_cases hx : isSpace x = true
      · have hspaces : ∀ y ∈ [x], isSpace y = true := by
          intro y hy
          rw [List.mem_singleton.mp hy]
          exact hx
        rw [continued, continued, strip_append hspaces, strip_append hspaces]
        exact ih
      · have hx' := Bool.eq_false_iff.mpr hx
        rw [continued, continued, strip_concat hx', strip_concat hx', List.getLast?_concat, List.getLast?_concat]

theorem assignment_suffix (h : assignment k line = some w) : ∃ u, line = u ++ '=' :: w := by
  rw [assignment] at h
  cases heq : (behind k.name (line.dropWhile isSpace)).map (List.dropWhile isSpace) with
  | none =>
      rw [heq] at h
      cases h
  | some l =>
      rw [heq] at h
      cases l with
      | nil => cases h
      | cons a l =>
          dsimp only at h
          by_cases ha : a = '='
          · rw [if_pos ha] at h
            obtain rfl := Option.some.inj h
            obtain ⟨p, hp, hl⟩ := Option.map_eq_some_iff.mp heq
            have hsuffix : a :: l <:+ line :=
              (hl ▸ List.dropWhile_suffix _).trans ((behind_suffix hp).trans (List.dropWhile_suffix _))
            obtain ⟨u, hu⟩ := hsuffix
            rw [ha] at hu
            exact ⟨u, hu.symm⟩
          · rw [if_neg ha] at h
            cases h

theorem more_continued (h : definition k line = some (w, more)) : continued line = more := by
  cases hassign : assignment k line with
  | none =>
      rw [definition_of_assignment_none hassign] at h
      cases h
  | some p =>
      obtain ⟨u, hu⟩ := assignment_suffix hassign
      rw [hu, continued_append rfl (by decide)]
      exact (definition_of_assignment hassign h).1.symm

theorem definitionLines_cons_pos (l : Line) (ls : List Line) : 0 < definitionLines (l :: ls) := by
  rw [definitionLines]
  split
  · exact Nat.succ_pos _
  · exact Nat.one_pos

theorem definitionLines_le (ls : List Line) : definitionLines ls ≤ ls.length := by
  induction ls with
  | nil => exact Nat.le_refl 0
  | cons l ls ih =>
      rw [definitionLines, List.length_cons]
      split
      · exact Nat.succ_le_succ ih
      · exact Nat.succ_le_succ (Nat.zero_le _)

theorem ne_of_idle (h : s.m = none) : s.m ≠ some k := by
  rw [h]
  exact nofun

theorem alike_refl (n : Nat) (hm : s.m ≠ some k) : Alike k n (s.vars k) (s.vars k) s s :=
  ⟨rfl, rfl, rfl, fun _ _ => rfl, fun _ => rfl, .inl ⟨rfl, rfl, hm⟩⟩

theorem Alike.write (h : Alike k n v v' s s') (hm : s.m ≠ some k) (n' : Nat) (it : Item) :
    Alike k n' (s.vars k) (some it) s (s'.setItem k it) := by
  refine ⟨h.m, h.t, h.d, fun j hj => ?_, h.targets, .inl ⟨rfl, setItem_self .., hm⟩⟩
  rw [setItem_ne _ hj]
  exact h.vars j hj

theorem Alike.rest (h : Alike k n v v' s s') (hi : n ≤ i) (hv : v'.isSome → v.isSome ∨ ∀ l ∈ ls, ¬ Names k l)
    (hs : s.scan i ls = .ok f) (hplace : ∀ a, place f k = some (some a) → a < n) (i' : Nat) :
    ∃ f', s'.scan i' ls = .ok f' ∧ Alike k n v v' f f' ∧ f.vars k = v ∧ f'.vars k = v' := by
  have hscan : ∃ f', s'.scan i' ls = .ok f' ∧ Alike k n v v' f f' := Alike.scan h hi hv hs
  obtain ⟨f', hs', halike⟩ := hscan
  refine ⟨f', hs', halike, ?_⟩
  rcases halike.item with ⟨hv, hv', -⟩ | ⟨x, a, hx, hidx, hn, -⟩
  · exact ⟨hv, hv'⟩
  · refine absurd (hplace a ?_) (Nat.not_lt.mpr hn)
    rw [place, hx, Option.map_some, hidx]

theorem Passed.alike (h : Passed k it below s r) (ha : Alike k n v v' s s') (hr : r.m = none) (n' : Nat) :
    Alike k n' (some it) (s'.vars k) r s' := by
  refine ⟨?_, ?_, ha.d.trans h.d.symm, fun j hj => ?_, fun t => ?_, .inl ⟨h.item, rfl, ?_⟩⟩
  · rw [ha.m, h.idle.2, hr]
  · rw [ha.t, h.idle.1, h.t]
  · rw [ha.vars j hj, h.vars j hj]
  · rw [ha.targets t, h.targets t]
  · exact ne_of_idle hr

theorem Passed.rest (h : Passed k it below s r) (ha : Alike k n v v' s s') (hs : r.scan i below = .ok f)
    (hplace : ∀ a, place f k = some (some a) → a < i) (i' : Nat) : ∃ f', s'.scan i' below = .ok f' ∧ f'.vars k = s'.vars k := by
  rcases h.m with hm | hnil
  · obtain ⟨f', hs', -, -, hk⟩ := Alike.rest (h.alike ha hm i) (Nat.le_refl i) (fun _ => .inl rfl) hs hplace i'
    exact ⟨f', hs', hk⟩
  · rw [hnil]
    exact ⟨s', rfl, rfl⟩

theorem place_item (hit : s.vars k = some it) (hidx : it.idx = some idx) : place s k = some (some idx) := by
  rw [place, hit, Option.map_some, hidx]

theorem place_start (hs : Reader.start.scan 0 ls = .ok r) {a : Nat} (h : place r k = some (some a)) : a < ls.length := by
  rcases scan_place k hs with ⟨b, hb, -, hlt⟩ | hnone
  · have hab : b = a := by simpa [hb] using h
    omega
  · rw [hnone] at h
    cases h

theorem definition_at (hs : s.scan idx (line :: ls) = .ok f) (hf : place f k = some (some idx)) (hbefore : place s k ≠ some (some idx)) :
    ∃ r w more, s.step idx line = .ok r ∧ r.scan (idx + 1) ls = .ok f ∧ definition k line = some (w, more) ∧ Defined k idx w more s r := by
  rw [Reader.scan] at hs
  cases hstep : s.step idx line with
  | error e =>
      rw [hstep] at hs
      cases hs
  | ok r =>
      rw [hstep] at hs
      rcases step_item k hstep with ⟨w, more, hdef, hdefined⟩ | hsame
      · exact ⟨r, w, more, rfl, hs, hdef, hdefined⟩
      · rcases scan_place k hs with ⟨a, ha, hlow, -⟩ | hlater
        · rw [hf] at ha
          cases ha
          omega
        · exact absurd (hsame.symm.trans (hlater.symm.trans hf)) hbefore

theorem item_below (hm : s.m ≠ some k) (hs : s.scan i ls = .ok f) (hf : place f k = some (some idx)) (hi : idx < i) :
    f.vars k = s.vars k := by
  have hplace : ∀ a, place f k = some (some a) → a < i := by
    intro a ha
    rw [hf] at ha
    cases ha
    exact hi
  obtain ⟨f', -, -, hk, -⟩ := Alike.rest (alike_refl i hm) (Nat.le_refl i) (fun h => .inl h) hs hplace i
  exact hk

theorem continueVariable_last (hp : Physical line) (hit : s.vars k = some it) : ∃ it', it'.length = it.length + 1 ∧
    s.continueVariable k line = .ok { s.setItem k it' with m := none } := by
  refine ⟨it.append ((line.dropWhile isSpace).takeWhile (· ≠ '\n')), ?_, ?_⟩
  · rw [Item.length, Item.append, List.length_append, List.length_singleton]
    rfl
  · rw [Reader.continueVariable, hit, continuation_physical hp (List.suffix_refl _)]
    rfl

theorem definition_lines (hp : ∀ l ∈ line :: ls, Physical l) (hs : s.scan idx (line :: ls) = .ok f) (hf : f.vars k = some it)
    (hidx : it.idx = some idx) (hbefore : place s k ≠ some (some idx)) (hn : n = definitionLines (line :: ls)) (hle : n ≤ 2)
    (hd : n ≤ 1 ∨ s.d = none) : ∃ r, s.scan idx ((line :: ls).take n) = .ok r ∧ r.scan (idx + n) ((line :: ls).drop n) = .ok f ∧
      Passed k it ((line :: ls).drop n) s r ∧ (n = 1 ∨ ∃ u, s.scan idx [line] = .ok u ∧ u.m = some k) ∧ it.length = n := by
  have hplace := place_item hf hidx
  obtain ⟨r, w, more, hstep, hrest, hdef, hdefined⟩ := definition_at hs hplace hbefore
  have hmore := more_continued hdef
  have hfirst : s.scan idx [line] = .ok r := by
    rw [Reader.scan, hstep]
    rfl
  have hsome : ∀ j, j ≠ k → (r.vars j).isSome = (s.vars j).isSome := fun j hj => congrArg Option.isSome (hdefined.vars j hj)
  cases more with
  | false =>
      have hn1 : n = 1 := by rw [hn, definitionLines, hmore, if_neg Bool.false_ne_true]
      subst hn1
      have hm : r.m = none := hdefined.m.2
      have hitem := item_below (ne_of_idle hm) hrest hplace (Nat.lt_succ_self idx)
      rw [hdefined.item, hf] at hitem
      cases hitem
      exact ⟨r, hfirst, hrest, ⟨⟨hdefined.t.1, hdefined.m.1⟩, hdefined.t.2, .inl hm, hdefined.d, hdefined.item, hsome, hdefined.targets⟩, .inl rfl, rfl⟩
  | true =>
      rw [definitionLines, hmore, if_pos rfl] at hn
      cases ls with
      | nil =>
          have hn1 : n = 1 := hn
          subst hn1
          cases hrest
          rw [hdefined.item] at hf
          cases hf
          exact ⟨f, hfirst, rfl, ⟨⟨hdefined.t.1, hdefined.m.1⟩, hdefined.t.2, .inr rfl, hdefined.d, hdefined.item, hsome, hdefined.targets⟩, .inl rfl, rfl⟩
      | cons l ls =>
          have hpos := definitionLines_cons_pos l ls
          have hn2 : n = 2 := by omega
          subst hn2
          have hsd : s.d = none := hd.resolve_left (by decide)
          have hm : r.m = some k := hdefined.m.2
          have hpl : Physical l := hp l (List.mem_cons_of_mem _ (List.mem_cons_self ..))
          obtain ⟨it', hlength, hcontinue⟩ := continueVariable_last hpl hdefined.item
          have hsecond : r.step (idx + 1) l = .ok { r.setItem k it' with m := none } := by
            rw [Reader.step, hdefined.t.2, hdefined.d, hsd]
            dsimp only
            rw [Reader.readVariable, hm]
            exact hcontinue
          have hboth : s.scan idx [line, l] = .ok { r.setItem k it' with m := none } := by
            rw [Reader.scan, hstep]
            dsimp only
            rw [Reader.scan, hsecond]
            rfl
          rw [Reader.scan, hsecond] at hrest
          have hset : (r.setItem k it').vars k = some it' := setItem_self ..
          have hitem := item_below (s := { r.setItem k it' with m := none }) (fun h => by cases h) hrest hplace (by omega)
          rw [hf] at hitem
          obtain rfl := Option.some.inj (hitem.trans hset)
          refine ⟨_, hboth, hrest, ⟨⟨hdefined.t.1, hdefined.m.1⟩, hdefined.t.2, .inl rfl, hdefined.d, hset, fun j hj => ?_, hdefined.targets⟩, .inr ⟨r, hfirst, hm⟩, hlength⟩
          exact (congrArg Option.isSome (setItem_ne _ hj _)).trans (hsome j hj)

theorem old_definition (hp : ∀ l ∈ c, Physical l) (hs : Reader.start.scan 0 c = .ok f) (hf : f.vars k = some it)
    (hidx : it.idx = some idx) (hn : n = definitionLines (c.drop idx)) (hle : n ≤ 2) (hd : n ≤ 1 ∨ OutsideRecipe c idx) :
    ∃ s r, Stands c k it idx n f s r := by
  have hplace := place_item hf hidx
  have hlt : idx < c.length := place_start hs hplace
  have hlen : (c.take idx).length = idx := List.length_take_of_le (Nat.le_of_lt hlt)
  obtain ⟨line, ls, hdrop⟩ := List.exists_cons_of_ne_nil (List.drop_eq_nil_iff.not.mpr (Nat.not_le.mpr hlt))
  rw [← List.take_append_drop idx c] at hs
  obtain ⟨s, habove, hbelow⟩ := scan_split hs
  rw [hlen, Nat.zero_add, hdrop] at hbelow
  rw [hdrop] at hn
  have hp' : ∀ l ∈ line :: ls, Physical l := by
    rw [← hdrop]
    exact fun l hl => hp l ((List.drop_suffix _ _).subset hl)
  have hbefore : place s k ≠ some (some idx) := by
    intro hbefore
    have := place_start habove hbefore
    omega
  obtain ⟨r, htake, hrest, hpassed, hinside, hlength⟩ :=
    definition_lines hp' hbelow hf hidx hbefore hn hle (hd.imp_right fun h => h s habove)
  have hdropn : c.drop (idx + n) = (line :: ls).drop n := by rw [← hdrop, List.drop_drop]
  have hover : ∀ m u, s.scan idx ((line :: ls).take m) = .ok u → Reader.start.scan 0 (c.take (idx + m)) = .ok u := by
    intro m u hu
    rw [List.take_add, hdrop]
    apply scan_join habove
    rw [hlen, Nat.zero_add]
    exact hu
  have hle : idx + n ≤ c.length := by
    have := definitionLines_le (line :: ls)
    rw [← hn, ← hdrop, List.length_drop] at this
    omega
  refine ⟨s, r, habove, hover n r htake, hdropn ▸ hrest, hdropn ▸ hpassed, ?_, hlength, hle, hplace⟩
  exact hinside.imp_right fun ⟨u, hu, hm⟩ => ⟨u, hover 1 u hu, hm⟩

theorem Stands.lines_pos (h : Stands c k it idx n f s r) : 0 < n := by
  rw [← h.length]
  exact List.length_pos_of_ne_nil it.nonempty

theorem Stands.lt_below (h : Stands c k it idx n f s r) : idx < idx + n := Nat.lt_add_of_pos_right h.lines_pos

theorem Stands.lt (h : Stands c k it idx n f s r) : idx < c.length := h.lt_below.trans_le h.le

theorem Stands.place_below (h : Stands c k it idx n f s r) {a i : Nat} (hi : idx < i) (ha : place f k = some (some a)) : a < i := by
  rw [h.placed] at ha
  cases ha
  exact hi

theorem scan_written (ht : s.t = none) (hm : s.m = none) (hd : s.d = none) (hvalue : '\\' ∉ value)
    (hs : (s.setItem k (.single i (readBack value))).scan (i + 1) ls = .ok f) : s.scan i (written k value :: ls) = .ok f := by
  rw [Reader.scan, step_written ht hm hd hvalue]
  exact hs

theorem kept_others (h : Kept '\n' c) (idx n : Nat) : Kept '\n' (others c idx n) := by
  apply h.sublist
  have hdrop : (c.drop (idx + n)).Sublist (c.drop idx) := by
    rw [← List.drop_drop]
    exact List.drop_sublist ..
  calc (others c idx n).Sublist (c.take idx ++ c.drop idx) := List.Sublist.append (List.Sublist.refl _) hdrop
    _ = c := List.take_append_drop ..

theorem kept_inserted {above under : List Line} (hkept : Kept '\n' (above ++ under)) (hvalue : '\n' ∉ value)
    (hended : ∀ l ∈ above, Ended '\n' l) : Kept '\n' (above ++ written k value :: under) := by
  have habove := hkept.sublist (List.sublist_append_left above under)
  have hunder := hkept.sublist (List.sublist_append_right above under)
  have hone : ∀ l ∈ [written k value], Ended '\n' l := by
    intro l hl
    rw [List.mem_singleton.mp hl]
    exact written_ended k value
  exact habove.append ((kept_written k hvalue).append hunder hone) hended

theorem update_of_scan (hs : Reader.start.scan 0 c = .ok f) : Makefile.update c = .ok ⟨f.toDefinitions, c⟩ := by
  rw [Makefile.update, hs]

theorem physical_of_kept (h : Kept '\n' c) : ∀ l ∈ c, Physical l := by
  induction c with
  | nil => exact fun l hl => nomatch hl
  | cons l c ih => exact List.forall_mem_cons.mpr ⟨h.2.1, ih h.2.2.2⟩

end OiUserland.Bass.Edits
