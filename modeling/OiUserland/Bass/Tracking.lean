import OiUserland.Bass.Edits
import OiUserland.Lib.Leftovers

namespace OiUserland.Bass.Tracking

open Makefiles Records Parses Written Edits

def moved (σ : Nat → Nat) (it : Item) : Item := { it with idx := it.idx.map σ }

def shift (idx n m a : Nat) : Nat := if a < idx then a else a + m - n

variable {s s' r f : Reader} {i i' idx n m a : Nat} {j k : Keyword} {t d : Option Target}
    {line : Line} {ls c : List Line}
  {v v' : Option Item} {it : Item} {σ : Nat → Nat} {value : Line}

def lineEffect (i : Nat) (line : Line) (j : Keyword) (v : Option Item) : Option Keyword → Option Item
  | some k => if j = k then (continuation line).elim v fun p => v.map fun it => it.append p.1 else v
  | none =>
    if comment line ∨ (included line).isSome then v
    else (findDefinition line).elim v fun p => if j = p.1 then some (.single i p.2.1) else v

def effect (t d : Option Target) (mode : Option Keyword) (i : Nat) (line : Line) (j : Keyword)
    (v : Option Item) : Option Item :=
  if t.isSome ∨ d.isSome ∧ recipe line = none then v else lineEffect i line j v mode

theorem readLine_effect (hs : s.readLine i line = .ok r) (j : Keyword) :
    r.vars j = lineEffect i line j (s.vars j) none := by
  rw [Reader.readLine] at hs
  rw [lineEffect]
  cases hc : comment line with
  | true =>
      rw [hc] at hs
      cases hs
      rfl
  | false =>
      rw [hc, if_neg Bool.false_ne_true] at hs
      cases hinc : included line with
      | some l =>
          rw [hinc] at hs
          cases hs
          rfl
      | none =>
          rw [hinc] at hs
          rw [if_neg (by simp)]
          cases hdef : findDefinition line with
          | none =>
              rw [hdef] at hs
              cases ht : findTarget line with
              | none =>
                  rw [ht] at hs
                  cases hs
                  rfl
              | some p =>
                  obtain ⟨t, w, more⟩ := p
                  rw [ht] at hs
                  dsimp only at hs
                  rw [Reader.defineTarget] at hs
                  cases hw : s.hasTarget w with
                  | true =>
                      rw [hw] at hs
                      cases hs
                  | false =>
                      rw [hw] at hs
                      cases more <;> (cases hs; rfl)
          | some p =>
              obtain ⟨k, w, more⟩ := p
              rw [hdef] at hs
              dsimp only at hs
              rw [Reader.defineVariable] at hs
              cases hw : s.hasVariable w with
              | true =>
                  rw [hw] at hs
                  cases hs
              | false =>
                  rw [hw] at hs
                  have hset : (s.setItem k (.single i w)).vars j = if j = k then some (.single i w) else s.vars j :=
                    Function.update_apply ..
                  cases more <;> (cases hs; exact hset)

theorem readVariable_effect (hs : s.readVariable i line = .ok r) (j : Keyword) :
    r.vars j = lineEffect i line j (s.vars j) s.m := by
  rw [Reader.readVariable] at hs
  cases hm : s.m with
  | none =>
      rw [hm] at hs
      exact readLine_effect hs j
  | some k =>
      rw [hm] at hs
      dsimp only at hs
      rw [Reader.continueVariable] at hs
      cases hit : s.vars k with
      | none =>
          rw [hit] at hs
          cases hs
      | some it =>
          rw [hit] at hs
          cases hc : continuation line with
          | none =>
              rw [hc] at hs
              cases hs
          | some p =>
              obtain ⟨l, more⟩ := p
              rw [hc] at hs
              have hset : (s.setItem k (it.append l)).vars j = lineEffect i line j (s.vars j) (some k) := by
                rw [lineEffect, hc]
                by_cases hj : j = k
                · subst hj
                  rw [if_pos rfl, setItem_self, hit]
                  rfl
                · rw [if_neg hj, setItem_ne _ hj]
              cases more <;> (cases hs; exact hset)

theorem step_effect (hs : s.step i line = .ok r) (j : Keyword) :
    r.vars j = effect s.t s.d s.m i line j (s.vars j) := by
  rw [Reader.step] at hs
  rw [effect]
  cases ht : s.t with
  | some t =>
      rw [ht] at hs
      rw [continueTarget_vars hs]
      rfl
  | none =>
      rw [ht] at hs
      cases hd : s.d with
      | none =>
          rw [hd] at hs
          exact readVariable_effect hs j
      | some d =>
          rw [hd] at hs
          dsimp only at hs
          rw [Reader.readRecipe] at hs
          cases hrecipe : recipe line with
          | none =>
              rw [hrecipe] at hs
              cases hs
              rw [if_pos (.inr ⟨rfl, rfl⟩)]
          | some l =>
              rw [hrecipe] at hs
              cases hdt : s.targets d with
              | none =>
                  rw [hdt] at hs
                  cases hs
              | some it =>
                  rw [hdt] at hs
                  rw [if_neg (by simp)]
                  exact readVariable_effect hs j

theorem lineEffect_moved (mode : Option Keyword) (hi : σ i = i') :
    lineEffect i' line j (v.map (moved σ)) mode = (lineEffect i line j v mode).map (moved σ) := by
  cases mode with
  | some k =>
      rw [lineEffect, lineEffect]
      by_cases hj : j = k
      · rw [if_pos hj, if_pos hj]
        cases continuation line with
        | none => rfl
        | some p => cases v <;> rfl
      · rw [if_neg hj, if_neg hj]
  | none =>
      rw [lineEffect, lineEffect]
      split
      · rfl
      · cases findDefinition line with
        | none => rfl
        | some p =>
            dsimp only [Option.elim]
            split
            · subst hi
              rfl
            · rfl

theorem effect_moved (t d : Option Target) (mode : Option Keyword) (hi : σ i = i') :
    effect t d mode i' line j (v.map (moved σ)) = (effect t d mode i line j v).map (moved σ) := by
  rw [effect, effect]
  split
  · rfl
  · exact lineEffect_moved mode hi

theorem scan_tracked (h : Alike k n v v' s s') (hn : n ≤ i) (hv : v'.isSome → v.isSome ∨ ∀ l ∈ ls, ¬ Names k l)
    (hvars : ∀ j, j ≠ k → s'.vars j = (s.vars j).map (moved σ)) (hσ : ∀ p, σ (i + p) = i' + p)
    (hs : s.scan i ls = .ok f) : ∃ f', s'.scan i' ls = .ok f' ∧ Alike k n v v' f f' ∧
      ∀ j, j ≠ k → f'.vars j = (f.vars j).map (moved σ) := by
  induction ls generalizing s s' i i' with
  | nil =>
      cases hs
      exact ⟨s', rfl, h, hvars⟩
  | cons l ls ih =>
      have hfirst : v'.isSome → v.isSome ∨ ¬ Names k l := fun hsome =>
        (hv hsome).imp_right fun hls => hls l (List.mem_cons_self ..)
      have hrest : v'.isSome → v.isSome ∨ ∀ l ∈ ls, ¬ Names k l := fun hsome =>
        (hv hsome).imp_right fun hls l' hl' => hls l' (List.mem_cons_of_mem _ hl')
      have hσ0 : σ i = i' := hσ 0
      have hσ1 : ∀ p, σ (i + 1 + p) = i' + 1 + p := fun p => by
        rw [Nat.add_assoc, hσ, Nat.add_assoc]
      rw [Reader.scan] at hs ⊢
      cases hstep : s.step i l with
      | error e =>
          rw [hstep] at hs
          cases hs
      | ok s₁ =>
          rw [hstep] at hs
          have hnext : ∃ r', s'.step i' l = .ok r' ∧ Alike k n v v' s₁ r' := h.step hn hfirst hstep
          obtain ⟨s₁', hstep', h₁⟩ := hnext
          rw [hstep']
          refine ih h₁ (Nat.le_succ_of_le hn) hrest (fun j hj => ?_) hσ1 hs
          rw [step_effect hstep' j, step_effect hstep j, hvars j hj, h.t, h.d, h.m]
          exact effect_moved s.t s.d s.m hσ0

section Places

theorem stands_scan {n : Nat} (h : Stands c k it idx n f s r) : Reader.start.scan 0 c = .ok f := by
  rw [← List.take_append_drop (idx + n) c]
  refine scan_join h.across ?_
  rw [List.length_take_of_le h.le, Nat.zero_add]
  exact h.below

theorem effect_other (hj : j ≠ k) (v : Option Item) : effect t d (some k) i line j v = v := by
  rw [effect, lineEffect, if_neg hj, ite_self]

theorem scan_last {ls : List Line} (hs : s.scan i (ls ++ [line]) = .ok r) :
    ∃ u, s.scan i ls = .ok u ∧ u.step (i + ls.length) line = .ok r := by
  obtain ⟨u, hu, hlast⟩ := scan_split hs
  refine ⟨u, hu, ?_⟩
  rw [Reader.scan] at hlast
  cases hstep : u.step (i + ls.length) line with
  | error e =>
      rw [hstep] at hlast
      cases hlast
  | ok w =>
      rw [hstep] at hlast
      exact hlast

theorem take_next (hlt : a < c.length) : ∃ line, c.take (a + 1) = c.take a ++ [line] ∧
    c.drop a = line :: c.drop (a + 1) :=
  ⟨(c)[a], List.take_succ_eq_append_getElem hlt, List.drop_eq_getElem_cons hlt⟩

theorem defined_at (hs : Reader.start.scan 0 c = .ok f) (hf : f.vars k = some it) (hidx : it.idx = some a) :
    ∃ u r w more line, a < c.length ∧ c.drop a = line :: c.drop (a + 1) ∧ Reader.start.scan 0 (c.take a) = .ok u ∧
      Reader.start.scan 0 (c.take (a + 1)) = .ok r ∧ definition k line = some (w, more) ∧ Defined k a w more u r ∧
      r.scan (a + 1) (c.drop (a + 1)) = .ok f := by
  have hplace := place_item hf hidx
  have hlt : a < c.length := place_start hs hplace
  have hlen : (c.take a).length = a := List.length_take_of_le (Nat.le_of_lt hlt)
  obtain ⟨line, htake, hdrop⟩ := take_next hlt
  rw [← List.take_append_drop a c] at hs
  obtain ⟨u, habove, hbelow⟩ := scan_split hs
  rw [hlen, Nat.zero_add, hdrop] at hbelow
  have hbefore : place u k ≠ some (some a) := by
    intro hbefore
    have := place_start habove hbefore
    omega
  obtain ⟨r, w, more, hstep, hrest, hdef, hdefined⟩ := definition_at hbelow hplace hbefore
  refine ⟨u, r, w, more, line, hlt, hdrop, habove, ?_, hdef, hdefined, hrest⟩
  rw [htake]
  refine scan_join habove ?_
  rw [hlen, Nat.zero_add, Reader.scan, hstep]
  rfl

variable {n : Nat}

theorem stands_others (h : Stands c k it idx n f s r) (hf : f.vars k = some it)
    (hidx : it.idx = some idx) (hle : n ≤ 2)
    (hj : j ≠ k) : r.vars j = s.vars j := by
  obtain ⟨u, q, w, more, line, -, -, hu, hq, -, hdefined, -⟩ := defined_at (stands_scan h) hf hidx
  obtain rfl := Except.ok.inj (hu.symm.trans h.above)
  by_cases hn : n = 1
  · subst hn
    obtain rfl := Except.ok.inj (hq.symm.trans h.across)
    exact hdefined.vars j hj
  · have hpos := h.lines_pos
    obtain rfl : n = 2 := by omega
    obtain ⟨q', hq', hm⟩ := h.inside.resolve_left hn
    obtain rfl := Except.ok.inj (hq.symm.trans hq')
    obtain ⟨line', htake, -⟩ := take_next h.le
    have hacross := h.across
    rw [htake] at hacross
    obtain ⟨q', hq', hstep⟩ := scan_last hacross
    obtain rfl := Except.ok.inj (hq.symm.trans hq')
    rw [step_effect hstep j, hm, effect_other hj, hdefined.vars j hj]

theorem stands_apart (h : Stands c k it idx n f s r) (hf : f.vars k = some it)
    (hidx : it.idx = some idx) (hle : n ≤ 2)
    (hj : j ≠ k) {it' : Item} (hf' : f.vars j = some it') (hidx' : it'.idx = some a) : a < idx ∨ idx + n ≤ a := by
  have hplace := place_item hf' hidx'
  rcases scan_place j h.below with ⟨b, hb, hlow, -⟩ | hsame
  · rw [hplace] at hb
    cases hb
    exact .inr hlow
  · rw [hplace, place, stands_others h hf hidx hle hj] at hsame
    have hlt := place_start h.above hsame.symm
    rw [List.length_take] at hlt
    exact .inl (by omega)

end Places

section Edits

variable {w : Reader} {n : Nat}

theorem moved_above (hs : Reader.start.scan 0 ls = .ok s) (hσ : ∀ a, a < ls.length → σ a = a) (j : Keyword) :
    (s.vars j).map (moved σ) = s.vars j := by
  cases hit : s.vars j with
  | none => rfl
  | some it =>
      obtain ⟨idx, str, hne⟩ := it
      cases idx with
      | none => rfl
      | some a =>
          have hlt : a < ls.length := place_start hs (k := j) (by rw [place, hit]; rfl)
          exact congrArg (fun b => some (Item.mk (some b) str hne)) (hσ a hlt)

theorem shift_above (h : a < idx) : shift idx n m a = a := if_pos h

theorem shift_below (p : Nat) : shift idx n m (idx + n + p) = idx + m + p := by
  rw [shift, if_neg (by omega)]
  omega

theorem scan_below (h : Stands c k it idx n f s r) (hf : f.vars k = some it) (hidx : it.idx = some idx)
    (hle : n ≤ 2)
    (hw : w.m = none ∧ w.t = none ∧ w.d = s.d) (hvars : ∀ j, j ≠ k → w.vars j = s.vars j)
    (htargets : ∀ t, (w.targets t).isSome = (s.targets t).isSome) (m : Nat) :
    ∃ f', w.scan (idx + m) (c.drop (idx + n)) = .ok f' ∧ f'.vars k = w.vars k ∧
      (∀ j, j ≠ k → f'.vars j = (f.vars j).map (moved (shift idx n m))) ∧ f'.d = f.d := by
  have hmoved : ∀ j, j ≠ k → w.vars j = (r.vars j).map (moved (shift idx n m)) := fun j hj => by
    rw [stands_others h hf hidx hle hj, hvars j hj]
    refine (moved_above h.above (fun a ha => shift_above ?_) j).symm
    rw [List.length_take] at ha
    omega
  rcases h.passed.m with hm | hnil
  · have halike : Alike k (idx + n) (some it) (w.vars k) r w := by
      refine ⟨hw.1.trans hm.symm, hw.2.1.trans h.passed.t.symm, hw.2.2.trans h.passed.d.symm, fun j hj => ?_,
        fun t => (htargets t).trans (h.passed.targets t).symm, .inl ⟨h.passed.item, rfl, ne_of_idle hm⟩⟩
      rw [hmoved j hj, Option.isSome_map]
    obtain ⟨f', hs', halike', hothers⟩ :=
      scan_tracked halike (Nat.le_refl _) (fun _ => .inl rfl) hmoved shift_below h.below
    refine ⟨f', hs', ?_, hothers, halike'.d⟩
    rcases halike'.item with ⟨-, hk, -⟩ | ⟨x, a, hx, ha, hlow, -⟩
    · exact hk
    · have hlt := h.place_below h.lt_below (place_item hx ha)
      omega
  · have hbelow := h.below
    rw [hnil] at hbelow ⊢
    cases hbelow
    exact ⟨w, rfl, rfl, hmoved, hw.2.2.trans h.passed.d.symm⟩

theorem scan_replaced (h : Stands c k it idx n f s r) (hf : f.vars k = some it)
    (hidx : it.idx = some idx) (hle : n ≤ 2)
    (hd : s.d = none) (hvalue : '\\' ∉ value) :
    ∃ f', Reader.start.scan 0 (c.take idx ++ written k value :: c.drop (idx + n)) = .ok f' ∧
      f'.vars k = some (.single idx (readBack value)) ∧
      (∀ j, j ≠ k → f'.vars j = (f.vars j).map (moved (shift idx n 1))) ∧ f'.d = f.d := by
  have hlen : (c.take idx).length = idx := List.length_take_of_le (Nat.le_of_lt h.lt)
  obtain ⟨f', hs', hk, hothers, hd'⟩ := scan_below (w := s.setItem k (.single idx (readBack value))) h hf hidx hle
    ⟨h.passed.idle.2, h.passed.idle.1, rfl⟩ (fun j hj => setItem_ne _ hj _) (fun _ => rfl) 1
  refine ⟨f', scan_join h.above ?_, hk.trans (setItem_self ..), hothers, hd'⟩
  rw [hlen, Nat.zero_add]
  exact scan_written h.passed.idle.1 h.passed.idle.2 hd hvalue hs'

theorem scan_removed (h : Stands c k it idx n f s r) (hf : f.vars k = some it)
    (hidx : it.idx = some idx) (hle : n ≤ 2) :
    ∃ f', Reader.start.scan 0 (c.take idx ++ c.drop (idx + n)) = .ok f' ∧ f'.vars k = s.vars k ∧
      (∀ j, j ≠ k → f'.vars j = (f.vars j).map (moved (shift idx n 0))) ∧ f'.d = f.d := by
  have hlen : (c.take idx).length = idx := List.length_take_of_le (Nat.le_of_lt h.lt)
  obtain ⟨f', hs', hk, hothers, hd'⟩ := scan_below h hf hidx hle ⟨h.passed.idle.2, h.passed.idle.1, rfl⟩
    (fun _ _ => rfl) (fun _ => rfl) 0
  refine ⟨f', scan_join h.above ?_, hk, hothers, hd'⟩
  rw [hlen, Nat.zero_add]
  exact hs'

end Edits

section Prefixes

variable {n : Nat} {W : List Line}

theorem stands_take (h : Stands c k it idx n f s r) (hidx : it.idx = some idx) {p : Nat} (hp : idx + n ≤ p) :
    ∃ g, Stands (c.take p) k it idx n g s r ∧ g.vars k = some it := by
  have htake : ∀ q, q ≤ p → (c.take p).take q = c.take q := fun q hq => by rw [List.take_take, Nat.min_eq_left hq]
  have hsplit : c.drop (idx + n) = (c.take p).drop (idx + n) ++ c.drop p := by
    have hle : idx + n ≤ (c.take p).length := by
      rw [List.length_take]
      have := h.le
      omega
    rw [← List.drop_append_of_le_length hle, List.take_append_drop]
  have hbelow := h.below
  rw [hsplit] at hbelow
  obtain ⟨g, hg, hrest⟩ := scan_split hbelow
  have hr : place r k = some (some idx) := place_item h.passed.item hidx
  have hplaced : place g k = some (some idx) := by
    rcases scan_place k hg with ⟨a, ha, hlow, -⟩ | hsame
    · rcases scan_place k hrest with ⟨b, hb, hlow', -⟩ | hsame'
      · rw [h.placed] at hb
        cases hb
        have := h.lines_pos
        omega
      · rw [h.placed, ha] at hsame'
        cases hsame'
        have := h.lines_pos
        omega
    · exact hsame.trans hr
  have hpassed : Passed k it ((c.take p).drop (idx + n)) s r := by
    refine ⟨h.passed.idle, h.passed.t, h.passed.m.imp_right fun hnil => ?_, h.passed.d, h.passed.item,
      h.passed.vars,
      h.passed.targets⟩
    rw [hnil] at hsplit
    exact (List.append_eq_nil_iff.mp hsplit.symm).1
  have hinside : n = 1 ∨ ∃ u, Reader.start.scan 0 ((c.take p).take (idx + 1)) = .ok u ∧ u.m = some k := by
    have := h.lines_pos
    rw [htake _ (by omega)]
    exact h.inside
  refine ⟨g, ⟨?_, ?_, hg, hpassed, hinside, h.length, ?_, hplaced⟩, ?_⟩
  · rw [htake idx (by omega)]
    exact h.above
  · rw [htake _ hp]
    exact h.across
  · rw [List.length_take]
    have := h.le
    omega
  · rcases hpassed.m with hm | hnil
    · exact (item_below (ne_of_idle hm) hg hplaced h.lt_below).trans h.passed.item
    · rw [hnil] at hg
      cases hg
      exact h.passed.item

def Tracks (c : List Line) (k : Keyword) (idx n : Nat) (W : List Line) : Prop :=
  ∀ p, idx + n ≤ p → ∃ g g', Reader.start.scan 0 (c.take p) = .ok g ∧
    Reader.start.scan 0 (c.take idx ++ (W ++ (c.take p).drop (idx + n))) = .ok g' ∧
    (∀ j, j ≠ k → g'.vars j = (g.vars j).map (moved (shift idx n W.length))) ∧ g'.d = g.d

theorem tracks_replaced (h : Stands c k it idx n f s r) (hidx : it.idx = some idx) (hle : n ≤ 2) (hd : s.d = none)
    (hvalue : '\\' ∉ value) : Tracks c k idx n [written k value] := by
  intro p hp
  obtain ⟨g, hstands, hg⟩ := stands_take h hidx hp
  obtain ⟨g', hs', -, hothers, hd'⟩ := scan_replaced hstands hg hidx hle hd hvalue
  rw [List.take_take, Nat.min_eq_left (by omega)] at hs'
  exact ⟨g, g', stands_scan hstands, hs', hothers, hd'⟩

theorem tracks_removed (h : Stands c k it idx n f s r) (hidx : it.idx = some idx) (hle : n ≤ 2) :
    Tracks c k idx n [] := by
  intro p hp
  obtain ⟨g, hstands, hg⟩ := stands_take h hidx hp
  obtain ⟨g', hs', -, hothers, hd'⟩ := scan_removed hstands hg hidx hle
  rw [List.take_take, Nat.min_eq_left (by omega)] at hs'
  exact ⟨g, g', stands_scan hstands, hs', hothers, hd'⟩

theorem take_edited {p : Nat} (hidx : idx ≤ c.length) (hp : idx + n ≤ p) :
    (c.take idx ++ (W ++ c.drop (idx + n))).take (p + W.length - n)
    = c.take idx ++ (W ++ (c.take p).drop (idx + n)) := by
  have hlen : (c.take idx).length = idx := List.length_take_of_le hidx
  have hsplit : p + W.length - n = (c.take idx).length + (W.length + (p - (idx + n))) := by
    rw [hlen]
    omega
  rw [hsplit, List.take_length_add_append, List.take_length_add_append, List.drop_take]

theorem drop_edited {p : Nat} (hidx : idx ≤ c.length) (hp : idx + n ≤ p) :
    (c.take idx ++ (W ++ c.drop (idx + n))).drop (p + W.length - n) = c.drop p := by
  have hlen : (c.take idx).length = idx := List.length_take_of_le hidx
  have hsplit : p + W.length - n = (c.take idx).length + (W.length + (p - (idx + n))) := by
    rw [hlen]
    omega
  rw [hsplit, List.drop_length_add_append, List.drop_length_add_append, List.drop_drop]
  congr 1
  omega

theorem take_edited_above {p : Nat} (hidx : idx ≤ c.length) (hp : p ≤ idx) :
    (c.take idx ++ (W ++ c.drop (idx + n))).take p = c.take p := by
  rw [List.take_append_of_le_length (by rwa [List.length_take_of_le hidx]), List.take_take, Nat.min_eq_left hp]

theorem drop_edited_above {p : Nat} (hidx : idx ≤ c.length) (hp : p ≤ idx) :
    (c.take idx ++ (W ++ c.drop (idx + n))).drop p = (c.take idx).drop p ++ (W ++ c.drop (idx + n)) :=
  List.drop_append_of_le_length (by rwa [List.length_take_of_le hidx])

theorem above_edited (h : Tracks c k idx n W) (hidx : idx ≤ c.length) (ha : a < idx ∨ idx + n ≤ a)
    (hs : Reader.start.scan 0 ((c.take idx ++ (W ++ c.drop (idx + n))).take (shift idx n W.length a)) = .ok s) :
    ∃ g, Reader.start.scan 0 (c.take a) = .ok g ∧ s.d = g.d ∧
    ∀ j, j ≠ k → s.vars j = (g.vars j).map (moved (shift idx n W.length)) := by
  rcases ha with hlt | hge
  · rw [shift_above hlt, take_edited_above hidx (Nat.le_of_lt hlt)] at hs
    refine ⟨s, hs, rfl, fun j _ => (moved_above hs (fun b hb => shift_above ?_) j).symm⟩
    rw [List.length_take] at hb
    omega
  · obtain ⟨g, g', hg, hg', hothers, hd⟩ := h a hge
    have hshift : shift idx n W.length a = a + W.length - n := if_neg (by omega)
    rw [hshift, take_edited hidx hge] at hs
    obtain rfl := Except.ok.inj (hg'.symm.trans hs)
    exact ⟨g, hg, hd, hothers⟩

end Prefixes

section Lengths

variable {n : Nat}

theorem definitionLines_append {b x y : List Line} (hx : x ≠ []) (h : definitionLines (b ++ x) ≤ b.length) :
    definitionLines (b ++ y) = definitionLines (b ++ x) := by
  induction b with
  | nil =>
      obtain ⟨l, x, rfl⟩ := List.exists_cons_of_ne_nil hx
      have := definitionLines_cons_pos l x
      rw [List.nil_append, List.length_nil] at h
      omega
  | cons l b ih =>
      rw [List.cons_append, definitionLines, List.length_cons] at h
      rw [List.cons_append, List.cons_append, definitionLines, definitionLines]
      cases hl : continued l with
      | false => rfl
      | true =>
          rw [hl, if_pos rfl] at h
          rw [if_pos rfl, if_pos rfl, ih (Nat.le_of_succ_le_succ h)]

theorem stands_ends (h : Stands c k it idx n f s r) {it' : Item} (hf' : f.vars j = some it')
    (hidx' : it'.idx = some a) (ha : a < idx)
    (hlines : definitionLines (c.drop a) ≤ 2) : a + definitionLines (c.drop a) ≤ idx := by
  obtain ⟨u, q, w, more, line, -, hdrop, hu, hq, hdef, hdefined, -⟩ := defined_at (stands_scan h) hf' hidx'
  by_cases hnext : a + 1 = idx
  · -- the next line is no continuation
    have habove := h.above
    rw [← hnext] at habove
    obtain rfl := Except.ok.inj (hq.symm.trans habove)
    have hm := hdefined.m.2
    rw [h.passed.idle.2] at hm
    have hmore : more = false := by
      cases more with
      | false => rfl
      | true => cases hm
    have hone : definitionLines (c.drop a) = 1 := by
      rw [hdrop, definitionLines, more_continued hdef, hmore]
      rfl
    omega
  · omega

end Lengths

end OiUserland.Bass.Tracking

namespace OiUserland.Bass.OtherLines

open Lib.Leftovers Makefiles Parses Written Edits Tracking

def owns (mk : Makefile) (k : Keyword) (i : Nat) : Bool :=
  match (mk.vars k).bind Item.idx with
  | none => false
  | some idx => idx ≤ i && i < idx + definitionLines (mk.contents.drop idx)

def otherLines (ks : List Keyword) (mk : Makefile) : List Line :=
  leftovers (fun i => ks.any fun k => owns mk k i) 0 mk.contents

def made (f : Reader) (c : List Line) : Makefile := ⟨f.toDefinitions, c⟩

variable {k j : Keyword} {ks : List Keyword} {it : Item} {idx n a i : Nat} {f f' s r : Reader}
    {c W : List Line} {value : Line}

theorem owns_none (h : (f.vars k).bind Item.idx = none) (i : Nat) : owns (made f c) k i = false := by
  change (match (f.vars k).bind Item.idx with
    | none => false
    | some idx => decide (idx ≤ i) && decide (i < idx + definitionLines (c.drop idx))) = false
  rw [h]

theorem owns_some (h : (f.vars k).bind Item.idx = some a) (i : Nat) :
    owns (made f c) k i = decide (a ≤ i ∧ i < a + definitionLines (c.drop a)) := by
  change (match (f.vars k).bind Item.idx with
    | none => false
    | some idx => decide (idx ≤ i) && decide (i < idx + definitionLines (c.drop idx))) = _
  rw [h]
  exact (Bool.decide_and ..).symm

theorem idx_moved {σ : Nat → Nat} (h : f'.vars j = (f.vars j).map (moved σ)) :
    (f'.vars j).bind Item.idx = ((f.vars j).bind Item.idx).map σ := by
  rw [h]
  cases f.vars j <;> rfl

theorem lines_moved (h : Stands c k it idx n f s r) (ha : a < idx ∨ idx + n ≤ a)
    (hends : a < idx → a + definitionLines (c.drop a) ≤ idx)
    (hne : c.drop idx ≠ []) :
    definitionLines ((c.take idx ++ (W ++ c.drop (idx + n))).drop (shift idx n W.length a))
    = definitionLines (c.drop a) := by
  have hidx := Nat.le_of_lt h.lt
  rcases ha with hlt | hge
  · have hsplit : c.drop a = (c.take idx).drop a ++ c.drop idx := by
      rw [← List.drop_append_of_le_length (by rw [List.length_take_of_le hidx]; omega), List.take_append_drop]
    have hlength : ((c.take idx).drop a).length = idx - a := by
      rw [List.length_drop, List.length_take_of_le hidx]
    have hle : definitionLines ((c.take idx).drop a ++ c.drop idx) ≤ ((c.take idx).drop a).length := by
      rw [hlength, ← hsplit]
      have := hends hlt
      omega
    rw [shift_above hlt, drop_edited_above hidx (Nat.le_of_lt hlt), definitionLines_append hne hle, hsplit]
  · have hshift : shift idx n W.length a = a + W.length - n := if_neg (by omega)
    rw [hshift, drop_edited hidx hge]

theorem owns_moved (h : Stands c k it idx n f s r) (hf : f.vars k = some it) (hidx : it.idx = some idx)
    (hle : n ≤ 2) (hj : j ≠ k)
    (hlines : ∀ b, (f.vars j).bind Item.idx = some b → definitionLines (c.drop b) ≤ 2)
    (hmoved : f'.vars j = (f.vars j).map (moved (shift idx n W.length))) :
    (∀ p, p < idx → owns (made f c) j p = owns (made f' (c.take idx ++ (W ++ c.drop (idx + n)))) j p) ∧
      ∀ p, owns (made f c) j (idx + n + p) = owns (made f' (c.take idx ++ (W ++ c.drop (idx + n)))) j
      (idx + W.length + p) := by
  have hplace := idx_moved hmoved
  cases hb : (f.vars j).bind Item.idx with
  | none =>
      rw [hb] at hplace
      refine ⟨fun p _ => ?_, fun p => ?_⟩
      · rw [owns_none hb, owns_none hplace]
      · rw [owns_none hb, owns_none hplace]
  | some b =>
      rw [hb] at hplace
      obtain ⟨it', hit', hidx'⟩ := Option.bind_eq_some_iff.mp hb
      have hapart := stands_apart h hf hidx hle hj hit' hidx'
      have hends : b < idx → b + definitionLines (c.drop b) ≤ idx :=
        fun hlt => stands_ends h hit' hidx' hlt (hlines b hb)
      have hne : c.drop idx ≠ [] := List.drop_eq_nil_iff.not.mpr (Nat.not_le.mpr h.lt)
      have hsame := lines_moved (W := W) h hapart hends hne
      refine ⟨fun p hp => ?_, fun p => ?_⟩
      · rw [owns_some hb, owns_some hplace, hsame, decide_eq_decide]
        rcases hapart with hlt | hge
        · rw [shift_above hlt]
        · rw [shift, if_neg (by omega)]
          omega
      · rw [owns_some hb, owns_some hplace, hsame, decide_eq_decide]
        rcases hapart with hlt | hge
        · have := hends hlt
          rw [shift_above hlt]
          omega
        · rw [shift, if_neg (by omega)]
          omega

theorem any_congr {g g' : Keyword → Bool} (h : ∀ j ∈ ks, g j = g' j) : ks.any g = ks.any g' := by
  induction ks with
  | nil => rfl
  | cons k ks ih =>
      rw [List.any_cons, List.any_cons, h k (List.mem_cons_self ..), ih fun j hj => h j (List.mem_cons_of_mem _ hj)]

theorem otherLines_edited (h : Stands c k it idx n f s r) (hf : f.vars k = some it)
    (hidx : it.idx = some idx) (hle : n ≤ 2)
    (hn : n = definitionLines (c.drop idx)) (hk : k ∈ ks)
    (hlines : ∀ j ∈ ks, ∀ b, (f.vars j).bind Item.idx = some b → definitionLines (c.drop b) ≤ 2)
    (hmoved : ∀ j, j ≠ k → f'.vars j = (f.vars j).map (moved (shift idx n W.length)))
    (hown : ∀ i, owns (made f' (c.take idx ++ (W ++ c.drop (idx + n)))) k i = decide (idx ≤ i ∧
    i < idx + W.length)) :
    otherLines ks (made f' (c.take idx ++ (W ++ c.drop (idx + n)))) = otherLines ks (made f c) := by
  have hlength : (c.take idx).length = idx := List.length_take_of_le (Nat.le_of_lt h.lt)
  have hlength' : ((c.drop idx).take n).length = n := List.length_take_of_le (by
    rw [List.length_drop]
    have := h.le
    omega)
  have hsplit : c.take idx ++ ((c.drop idx).take n ++ c.drop (idx + n)) = c := by
    rw [← List.drop_drop, List.take_append_drop, List.take_append_drop]
  have hold : ∀ i, owns (made f c) k i = decide (idx ≤ i ∧ i < idx + n) := fun i => by
    rw [hn]
    refine owns_some ?_ i
    rw [hf]
    exact hidx
  have hothers (j : Keyword) (hj : j ∈ ks) (hjk : j ≠ k) :=
    owns_moved (W := W) h hf hidx hle hjk (hlines j hj) (hmoved j hjk)
  have hkept : leftovers (fun i => ks.any fun k => owns (made f c) k i) 0
    (c.take idx ++ ((c.drop idx).take n ++ c.drop (idx + n))) =
      leftovers (fun i => ks.any fun k => owns (made f' (c.take idx ++ (W ++ c.drop (idx + n)))) k i) 0
        (c.take idx ++ (W ++ c.drop (idx + n))) := by
    apply leftovers_replaced
    · intro p hp
      rw [hlength] at hp
      refine any_congr fun j hj => ?_
      by_cases hjk : j = k
      · rw [hjk, hold, hown, decide_eq_decide]
        omega
      · exact (hothers j hj hjk).1 p hp
    · intro p hp
      rw [hlength'] at hp
      rw [hlength]
      refine List.any_eq_true.mpr ⟨k, hk, ?_⟩
      rw [hold]
      exact decide_eq_true (by omega)
    · intro p hp
      rw [hlength]
      refine List.any_eq_true.mpr ⟨k, hk, ?_⟩
      rw [hown]
      exact decide_eq_true (by omega)
    · intro p _
      rw [hlength, hlength']
      refine any_congr fun j hj => ?_
      by_cases hjk : j = k
      · rw [hjk, hold, hown, decide_eq_decide]
        omega
      · exact (hothers j hj hjk).2 p
  rw [hsplit] at hkept
  exact hkept.symm

theorem definitionLines_written (hvalue : '\\' ∉ value) (k : Keyword) (ls : List Line) :
    definitionLines (written k value :: ls) = 1 := by
  rw [definitionLines, more_continued (definition_written k hvalue)]
  rfl

theorem owns_written (hk : f'.vars k = some (.single idx (readBack value))) (hlt : idx ≤ c.length)
    (hvalue : '\\' ∉ value) (below : List Line)
    (i : Nat) : owns (made f' (c.take idx ++ ([written k value] ++ below))) k i
    = decide (idx ≤ i ∧ i < idx + 1) := by
  have hdrop : (c.take idx ++ ([written k value] ++ below)).drop idx = written k value :: below := by
    rw [List.drop_append_of_le_length (by rw [List.length_take_of_le hlt]), List.drop_take_self, List.nil_append]
    rfl
  rw [owns_some (a := idx) (by rw [hk]; rfl), hdrop, definitionLines_written hvalue]

end OiUserland.Bass.OtherLines
