import OiUserland.Bass.Reading

namespace OiUserland.Bass.Parses

open Makefiles Reading

def Names (k : Keyword) (line : Line) : Prop := ∃ j more, definition j line = some (k.name, more)

def Untouched (k : Keyword) (v v' : Option Item) (s s' : Reader) : Prop :=
  s.vars k = v ∧ s'.vars k = v' ∧ s.m ≠ some k

/-- The variable was defined on a line from `n` on. -/
def Redefined (k : Keyword) (n : Nat) (s s' : Reader) : Prop :=
  ∃ it i, s.vars k = some it ∧ it.idx = some i ∧ n ≤ i ∧ (s'.vars k).isSome

structure Alike (k : Keyword) (n : Nat) (v v' : Option Item) (s s' : Reader) : Prop where
  m : s'.m = s.m
  t : s'.t = s.t
  d : s'.d = s.d
  vars : ∀ j, j ≠ k → (s'.vars j).isSome = (s.vars j).isSome
  targets : ∀ t, (s'.targets t).isSome = (s.targets t).isSome
  item : Untouched k v v' s s' ∨ Redefined k n s s'

variable {k j : Keyword} {t : Target} {n a i i' : Nat} {v v' : Option Item} {s s' r : Reader} {it it' : Item} {line : Line}
  {ls as bs : List Line}

theorem setItem_self (s : Reader) (k : Keyword) (it : Item) : (s.setItem k it).vars k = some it := Function.update_self ..

theorem setItem_ne (s : Reader) (hj : j ≠ k) (it : Item) : (s.setItem k it).vars j = s.vars j := Function.update_of_ne hj ..

theorem Alike.setTarget (h : Alike k n v v' s s') (t : Target) (it it' : Item) :
    Alike k n v v' (s.setTarget t it) (s'.setTarget t it') := by
  refine ⟨h.m, h.t, h.d, h.vars, fun u => ?_, h.item⟩
  change (Function.update s'.targets t (some it') u).isSome = (Function.update s.targets t (some it) u).isSome
  by_cases hu : u = t
  · rw [hu, Function.update_self, Function.update_self, Option.isSome_some, Option.isSome_some]
  · rw [Function.update_of_ne hu, Function.update_of_ne hu]
    exact h.targets u

theorem Alike.setOther (h : Alike k n v v' s s') (hj : j ≠ k) (it it' : Item) :
    Alike k n v v' (s.setItem j it) (s'.setItem j it') := by
  refine ⟨h.m, h.t, h.d, fun u hu => ?_, h.targets, ?_⟩
  · by_cases huj : u = j
    · rw [huj, setItem_self, setItem_self, Option.isSome_some, Option.isSome_some]
    · rw [setItem_ne _ huj, setItem_ne _ huj]
      exact h.vars u hu
  · rcases h.item with ⟨hv, hv', hm⟩ | ⟨x, a, hx, hidx, hn, hsome⟩
    · exact .inl ⟨(setItem_ne _ hj.symm _).trans hv, (setItem_ne _ hj.symm _).trans hv', hm⟩
    · refine .inr ⟨x, a, (setItem_ne _ hj.symm _).trans hx, hidx, hn, ?_⟩
      rw [setItem_ne _ hj.symm]
      exact hsome

theorem Alike.redefine (h : Alike k n v v' s s') (it it' : Item) (hidx : it.idx = some a) (hn : n ≤ a) :
    Alike k n v v' (s.setItem k it) (s'.setItem k it') ∧ Redefined k n (s.setItem k it) (s'.setItem k it') := by
  have hredefined : Redefined k n (s.setItem k it) (s'.setItem k it') :=
    ⟨it, a, setItem_self .., hidx, hn, by rw [setItem_self, Option.isSome_some]⟩
  refine ⟨⟨h.m, h.t, h.d, fun u hu => ?_, h.targets, .inr hredefined⟩, hredefined⟩
  rw [setItem_ne _ hu, setItem_ne _ hu]
  exact h.vars u hu

theorem Alike.mode (h : Alike k n v v' s s') (m : Option Keyword) (hm : m = some k → Redefined k n s s') :
    Alike k n v v' { s with m := m } { s' with m := m } := by
  refine ⟨rfl, h.t, h.d, h.vars, h.targets, ?_⟩
  rcases h.item with ⟨hv, hv', -⟩ | hredefined
  · by_cases hmk : m = some k
    · exact .inr (hm hmk)
    · exact .inl ⟨hv, hv', hmk⟩
  · exact .inr hredefined

theorem Alike.rule (h : Alike k n v v' s s') (t d : Option Target) :
    Alike k n v v' { s with t := t, d := d } { s' with t := t, d := d } :=
  ⟨h.m, rfl, rfl, h.vars, h.targets, h.item⟩

theorem Alike.hasVariable (h : Alike k n v v' s s') (hv : v'.isSome → v.isSome ∨ ¬ Names k line) {w : Line} {more : Bool}
    (hdef : definition j line = some (w, more)) (hs : s.hasVariable w = false) : s'.hasVariable w = false := by
  refine Bool.eq_false_iff.mpr fun hyes => Bool.eq_false_iff.mp hs ?_
  obtain ⟨u, hu, hsome⟩ := List.any_eq_true.mp hyes
  rw [Bool.and_eq_true, decide_eq_true_eq] at hsome
  refine List.any_eq_true.mpr ⟨u, hu, ?_⟩
  rw [Bool.and_eq_true, decide_eq_true_eq]
  refine ⟨?_, hsome.2⟩
  by_cases huk : u = k
  · subst huk
    rcases h.item with ⟨hsv, hsv', -⟩ | ⟨x, a, hx, -, -, -⟩
    · rw [hsv'] at hsome
      rw [hsv]
      refine (hv hsome.1).resolve_right fun hnames => hnames ⟨j, more, ?_⟩
      rw [hdef, hsome.2]
    · rw [hx]
      rfl
  · rw [← h.vars u huk]
    exact hsome.1

theorem Alike.hasTarget (h : Alike k n v v' s s') (w : Line) : s'.hasTarget w = s.hasTarget w := by
  unfold Reader.hasTarget
  congr 1
  funext u
  rw [h.targets u]

theorem Alike.continueTarget (h : Alike k n v v' s s') (hs : s.continueTarget t line = .ok r) :
    ∃ r', s'.continueTarget t line = .ok r' ∧ Alike k n v v' r r' := by
  rw [Reader.continueTarget] at hs ⊢
  have hsome := h.targets t
  cases ht : s.targets t with
  | none =>
      rw [ht] at hs
      cases hs
  | some it =>
      rw [ht] at hs hsome
      obtain ⟨it', ht'⟩ := Option.isSome_iff_exists.mp hsome
      rw [ht']
      cases hc : continuation line with
      | none =>
          rw [hc] at hs
          cases hs
      | some p =>
          obtain ⟨l, more⟩ := p
          rw [hc] at hs
          cases more with
          | true =>
              cases hs
              exact ⟨_, rfl, h.setTarget t _ _⟩
          | false =>
              cases hs
              exact ⟨_, rfl, (h.setTarget t _ _).rule none (some t)⟩

theorem Alike.continueVariable {m : Keyword} (h : Alike k n v v' s s') (hm : s.m = some m)
    (hs : s.continueVariable m line = .ok r) : ∃ r', s'.continueVariable m line = .ok r' ∧ Alike k n v v' r r' := by
  rw [Reader.continueVariable] at hs ⊢
  cases hit : s.vars m with
  | none =>
      rw [hit] at hs
      cases hs
  | some it =>
      rw [hit] at hs
      cases hc : continuation line with
      | none =>
          rw [hc] at hs
          cases hs
      | some p =>
          obtain ⟨l, more⟩ := p
          rw [hc] at hs
          have hset : ∃ it', s'.vars m = some it' ∧ Alike k n v v' (s.setItem m (it.append l)) (s'.setItem m (it'.append l)) ∧
              (m = k → Redefined k n (s.setItem m (it.append l)) (s'.setItem m (it'.append l))) := by
            by_cases hmk : m = k
            · subst hmk
              rcases h.item with ⟨-, -, hne⟩ | ⟨x, a, hx, hidx, hn, hsome⟩
              · exact absurd hm hne
              · obtain ⟨it', hit'⟩ := Option.isSome_iff_exists.mp hsome
                obtain rfl := Option.some.inj (hit.symm.trans hx)
                have hre := h.redefine (it.append l) (it'.append l) hidx hn
                exact ⟨it', hit', hre.1, fun _ => hre.2⟩
            · have hsome := h.vars m hmk
              rw [hit] at hsome
              obtain ⟨it', hit'⟩ := Option.isSome_iff_exists.mp hsome
              exact ⟨it', hit', h.setOther hmk _ _, fun heq => absurd heq hmk⟩
          obtain ⟨it', hit', halike, -⟩ := hset
          rw [hit']
          cases more with
          | true =>
              cases hs
              exact ⟨_, rfl, halike⟩
          | false =>
              cases hs
              exact ⟨_, rfl, halike.mode none fun h => by cases h⟩

theorem Alike.defineVariable {w : Line} {more : Bool} (h : Alike k n v v' s s') (hi : n ≤ i)
    (hno : s.hasVariable w = false → s'.hasVariable w = false) (hs : s.defineVariable i j w more = .ok r) :
    ∃ r', s'.defineVariable i' j w more = .ok r' ∧ Alike k n v v' r r' := by
  rw [Reader.defineVariable] at hs ⊢
  cases hw : s.hasVariable w with
  | true =>
      rw [hw] at hs
      cases hs
  | false =>
      rw [hw] at hs
      rw [hno hw]
      have hset : Alike k n v v' (s.setItem j (.single i w)) (s'.setItem j (.single i' w)) ∧
          (j = k → Redefined k n (s.setItem j (.single i w)) (s'.setItem j (.single i' w))) := by
        by_cases hjk : j = k
        · subst hjk
          have hre := h.redefine (.single i w) (.single i' w) rfl hi
          exact ⟨hre.1, fun _ => hre.2⟩
        · exact ⟨h.setOther hjk _ _, fun heq => absurd heq hjk⟩
      cases more with
      | true =>
          cases hs
          exact ⟨_, rfl, hset.1.mode (some j) fun heq => hset.2 (Option.some.inj heq)⟩
      | false =>
          cases hs
          exact ⟨_, rfl, hset.1⟩

theorem Alike.defineTarget {w : Line} {more : Bool} (h : Alike k n v v' s s') (hs : s.defineTarget i t w more = .ok r) :
    ∃ r', s'.defineTarget i' t w more = .ok r' ∧ Alike k n v v' r r' := by
  rw [Reader.defineTarget] at hs ⊢
  rw [h.hasTarget w]
  cases hw : s.hasTarget w with
  | true =>
      rw [hw] at hs
      cases hs
  | false =>
      rw [hw] at hs
      cases more with
      | true =>
          cases hs
          exact ⟨_, rfl, (h.setTarget t _ _).rule (some t) none⟩
      | false =>
          cases hs
          exact ⟨_, rfl, (h.setTarget t _ _).rule none (some t)⟩

theorem Alike.readLine (h : Alike k n v v' s s') (hi : n ≤ i) (hv : v'.isSome → v.isSome ∨ ¬ Names k line)
    (hs : s.readLine i line = .ok r) : ∃ r', s'.readLine i' line = .ok r' ∧ Alike k n v v' r r' := by
  rw [Reader.readLine] at hs ⊢
  cases hc : comment line with
  | true =>
      rw [hc] at hs
      cases hs
      exact ⟨s', rfl, h⟩
  | false =>
      rw [hc, if_neg Bool.false_ne_true] at hs
      rw [if_neg Bool.false_ne_true]
      cases hinc : included line with
      | some l =>
          rw [hinc] at hs
          cases hs
          exact ⟨_, rfl, h.m, h.t, h.d, h.vars, h.targets, h.item⟩
      | none =>
          rw [hinc] at hs
          cases hdef : findDefinition line with
          | some p =>
              obtain ⟨j, w, more⟩ := p
              rw [hdef] at hs
              have hj : definition j line = some (w, more) := findSome_some (f := fun k => definition k line) hdef
              exact h.defineVariable hi (h.hasVariable hv hj) hs
          | none =>
              rw [hdef] at hs
              cases ht : findTarget line with
              | some p =>
                  rw [ht] at hs
                  exact h.defineTarget hs
              | none =>
                  rw [ht] at hs
                  cases hs
                  exact ⟨s', rfl, h⟩

theorem Alike.readVariable (h : Alike k n v v' s s') (hi : n ≤ i) (hv : v'.isSome → v.isSome ∨ ¬ Names k line)
    (hs : s.readVariable i line = .ok r) : ∃ r', s'.readVariable i' line = .ok r' ∧ Alike k n v v' r r' := by
  rw [Reader.readVariable] at hs ⊢
  rw [h.m]
  cases hm : s.m with
  | some m =>
      rw [hm] at hs
      exact h.continueVariable hm hs
  | none =>
      rw [hm] at hs
      exact h.readLine hi hv hs

theorem Alike.readRecipe {d : Target} (h : Alike k n v v' s s') (hi : n ≤ i) (hv : v'.isSome → v.isSome ∨ ¬ Names k line)
    (hs : s.readRecipe i d line = .ok r) : ∃ r', s'.readRecipe i' d line = .ok r' ∧ Alike k n v v' r r' := by
  rw [Reader.readRecipe] at hs ⊢
  cases hrecipe : recipe line with
  | none =>
      rw [hrecipe] at hs
      cases hs
      refine ⟨_, rfl, ?_⟩
      exact ⟨h.m, h.t, rfl, h.vars, h.targets, h.item⟩
  | some l =>
      rw [hrecipe] at hs
      have hsome := h.targets d
      cases hd : s.targets d with
      | none =>
          rw [hd] at hs
          cases hs
      | some it =>
          rw [hd] at hs hsome
          obtain ⟨it', hd'⟩ := Option.isSome_iff_exists.mp hsome
          rw [hd']
          exact (h.setTarget d (it.append l) (it'.append l)).readVariable hi hv hs

theorem Alike.step (h : Alike k n v v' s s') (hi : n ≤ i) (hv : v'.isSome → v.isSome ∨ ¬ Names k line)
    (hs : s.step i line = .ok r) : ∃ r', s'.step i' line = .ok r' ∧ Alike k n v v' r r' := by
  rw [Reader.step] at hs ⊢
  rw [h.t, h.d]
  cases ht : s.t with
  | some t =>
      rw [ht] at hs
      exact h.continueTarget hs
  | none =>
      rw [ht] at hs
      cases hd : s.d with
      | some d =>
          rw [hd] at hs
          exact h.readRecipe hi hv hs
      | none =>
          rw [hd] at hs
          exact h.readVariable hi hv hs

theorem Alike.scan (h : Alike k n v v' s s') (hi : n ≤ i) (hv : v'.isSome → v.isSome ∨ ∀ l ∈ ls, ¬ Names k l)
    (hs : s.scan i ls = .ok r) : ∃ r', s'.scan i' ls = .ok r' ∧ Alike k n v v' r r' := by
  induction ls generalizing s s' i i' with
  | nil =>
      cases hs
      exact ⟨s', rfl, h⟩
  | cons l ls ih =>
      have hfirst : v'.isSome → v.isSome ∨ ¬ Names k l := fun hsome =>
        (hv hsome).imp_right fun hls => hls l (List.mem_cons_self ..)
      have hrest : v'.isSome → v.isSome ∨ ∀ l ∈ ls, ¬ Names k l := fun hsome =>
        (hv hsome).imp_right fun hls l' hl' => hls l' (List.mem_cons_of_mem _ hl')
      rw [Reader.scan] at hs ⊢
      cases hstep : s.step i l with
      | error e =>
          rw [hstep] at hs
          cases hs
      | ok s₁ =>
          rw [hstep] at hs
          have hnext : ∃ r', s'.step i' l = .ok r' ∧ Alike k n v v' s₁ r' := h.step hi hfirst hstep
          obtain ⟨s₁', hstep', h₁⟩ := hnext
          rw [hstep']
          exact ih h₁ (by omega) hrest hs

theorem scan_append (s : Reader) (i : Nat) (as bs : List Line) : s.scan i (as ++ bs) =
    match s.scan i as with
    | .error e => .error e
    | .ok s' => s'.scan (i + as.length) bs := by
  induction as generalizing s i with
  | nil => rfl
  | cons a as ih =>
      rw [List.cons_append, Reader.scan, Reader.scan]
      cases s.step i a with
      | error e => rfl
      | ok s' =>
          dsimp only
          rw [ih, List.length_cons, Nat.add_right_comm, Nat.add_assoc]

theorem scan_split (h : s.scan i (as ++ bs) = .ok r) :
    ∃ s', s.scan i as = .ok s' ∧ s'.scan (i + as.length) bs = .ok r := by
  rw [scan_append] at h
  cases ha : s.scan i as with
  | error e =>
      rw [ha] at h
      cases h
  | ok s' =>
      rw [ha] at h
      exact ⟨s', rfl, h⟩

theorem scan_join (ha : s.scan i as = .ok s') (hb : s'.scan (i + as.length) bs = .ok r) : s.scan i (as ++ bs) = .ok r := by
  rw [scan_append, ha]
  exact hb

structure Defined (k : Keyword) (i : Nat) (w : Line) (more : Bool) (s r : Reader) : Prop where
  t : s.t = none ∧ r.t = none
  m : s.m = none ∧ r.m = if more then some k else none
  d : r.d = s.d
  item : r.vars k = some (.single i w)
  vars : ∀ j, j ≠ k → r.vars j = s.vars j
  targets : ∀ t, (r.targets t).isSome = (s.targets t).isSome

def place (s : Reader) (k : Keyword) : Option (Option Nat) := (s.vars k).map Item.idx

theorem readLine_item (k : Keyword) (ht : s.t = none) (hm : s.m = none) (hs : s.readLine i line = .ok r) :
    (∃ w more, definition k line = some (w, more) ∧ Defined k i w more s r) ∨ r.vars k = s.vars k := by
  cases hdef : definition k line with
  | none => exact .inr (readLine_vars hdef hs)
  | some p =>
      rw [Reader.readLine] at hs
      cases hc : comment line with
      | true =>
          rw [hc] at hs
          cases hs
          exact .inr rfl
      | false =>
          rw [hc, if_neg Bool.false_ne_true] at hs
          cases hinc : included line with
          | some l =>
              rw [hinc] at hs
              cases hs
              exact .inr rfl
          | none =>
              rw [hinc] at hs
              cases hfind : findDefinition line with
              | none =>
                  -- a line that defines the variable is found
                  have hnone := List.findSome?_eq_none_iff.mp hfind k (by cases k <;> decide)
                  rw [hdef] at hnone
                  cases hnone
              | some q =>
                  obtain ⟨j, w, more⟩ := q
                  rw [hfind] at hs
                  have hj : definition j line = some (w, more) := findSome_some (f := fun k => definition k line) hfind
                  dsimp only at hs
                  rw [Reader.defineVariable] at hs
                  cases hw : s.hasVariable w with
                  | true =>
                      rw [hw] at hs
                      cases hs
                  | false =>
                      rw [hw, if_neg Bool.false_ne_true] at hs
                      by_cases hjk : j = k
                      · subst hjk
                        left
                        obtain rfl : (w, more) = p := Option.some.inj (hj.symm.trans hdef)
                        refine ⟨w, more, rfl, ?_⟩
                        cases more with
                        | true =>
                            cases hs
                            exact ⟨⟨ht, ht⟩, ⟨hm, rfl⟩, rfl, setItem_self .., fun u hu => setItem_ne _ hu _, fun _ => rfl⟩
                        | false =>
                            cases hs
                            exact ⟨⟨ht, ht⟩, ⟨hm, hm⟩, rfl, setItem_self .., fun u hu => setItem_ne _ hu _, fun _ => rfl⟩
                      · right
                        cases more with
                        | true =>
                            cases hs
                            exact setItem_ne _ (Ne.symm hjk) _
                        | false =>
                            cases hs
                            exact setItem_ne _ (Ne.symm hjk) _

theorem continueVariable_place {m : Keyword} (k : Keyword) (hs : s.continueVariable m line = .ok r) : place r k = place s k := by
  rw [Reader.continueVariable] at hs
  cases hit : s.vars m with
  | none =>
      rw [hit] at hs
      cases hs
  | some it =>
      rw [hit] at hs
      cases hc : continuation line with
      | none =>
          rw [hc] at hs
          cases hs
      | some p =>
          obtain ⟨l, more⟩ := p
          rw [hc] at hs
          have hset : place (s.setItem m (it.append l)) k = place s k := by
            by_cases hmk : k = m
            · rw [place, place, hmk, setItem_self, hit]
              rfl
            · rw [place, place, setItem_ne _ hmk]
          cases more with
          | true =>
              cases hs
              exact hset
          | false =>
              cases hs
              exact hset

theorem continueTarget_vars (hs : s.continueTarget t line = .ok r) : r.vars = s.vars := by
  rw [Reader.continueTarget] at hs
  cases ht : s.targets t with
  | none =>
      rw [ht] at hs
      cases hs
  | some it =>
      rw [ht] at hs
      cases hc : continuation line with
      | none =>
          rw [hc] at hs
          cases hs
      | some p =>
          obtain ⟨l, more⟩ := p
          rw [hc] at hs
          cases more with
          | true =>
              cases hs
              rfl
          | false =>
              cases hs
              rfl

theorem readVariable_item (k : Keyword) (ht : s.t = none) (hs : s.readVariable i line = .ok r) :
    (∃ w more, definition k line = some (w, more) ∧ Defined k i w more s r) ∨ place r k = place s k := by
  rw [Reader.readVariable] at hs
  cases hm : s.m with
  | some m =>
      rw [hm] at hs
      exact .inr (continueVariable_place k hs)
  | none =>
      rw [hm] at hs
      exact (readLine_item k ht hm hs).imp_right fun h => congrArg (Option.map Item.idx) h

theorem step_item (k : Keyword) (hs : s.step i line = .ok r) :
    (∃ w more, definition k line = some (w, more) ∧ Defined k i w more s r) ∨ place r k = place s k := by
  rw [Reader.step] at hs
  cases ht : s.t with
  | some t =>
      rw [ht] at hs
      right
      rw [place, place, continueTarget_vars hs]
  | none =>
      rw [ht] at hs
      cases hd : s.d with
      | none =>
          rw [hd] at hs
          exact readVariable_item k ht hs
      | some d =>
          rw [hd] at hs
          dsimp only at hs
          rw [Reader.readRecipe] at hs
          cases hrecipe : recipe line with
          | none =>
              rw [hrecipe] at hs
              cases hs
              exact .inr rfl
          | some l =>
              rw [hrecipe] at hs
              cases hdt : s.targets d with
              | none =>
                  rw [hdt] at hs
                  cases hs
              | some it =>
                  rw [hdt] at hs
                  refine (readVariable_item k (s := s.setTarget d (it.append l)) ht hs).imp_left ?_
                  rintro ⟨w, more, hdef, hdefined⟩
                  refine ⟨w, more, hdef, hdefined.t, hdefined.m, hdefined.d, hdefined.item, hdefined.vars, fun u => ?_⟩
                  rw [hdefined.targets u]
                  change (Function.update s.targets d (some _) u).isSome = _
                  by_cases hu : u = d
                  · rw [hu, Function.update_self, hdt]
                    rfl
                  · rw [Function.update_of_ne hu]

theorem scan_place (k : Keyword) (hs : s.scan i ls = .ok r) :
    (∃ a, place r k = some (some a) ∧ i ≤ a ∧ a < i + ls.length) ∨ place r k = place s k := by
  induction ls generalizing s i with
  | nil =>
      cases hs
      exact .inr rfl
  | cons l ls ih =>
      rw [Reader.scan] at hs
      cases hstep : s.step i l with
      | error e =>
          rw [hstep] at hs
          cases hs
      | ok s₁ =>
          rw [hstep] at hs
          rw [List.length_cons]
          rcases ih hs with ⟨a, hplace, hlow, hhigh⟩ | hplace
          · exact .inl ⟨a, hplace, by omega, by omega⟩
          · rcases step_item k hstep with ⟨w, more, -, hdefined⟩ | hsame
            · refine .inl ⟨i, ?_, Nat.le_refl i, by omega⟩
              rw [hplace, place, hdefined.item]
              rfl
            · exact .inr (hplace.trans hsame)

end OiUserland.Bass.Parses
