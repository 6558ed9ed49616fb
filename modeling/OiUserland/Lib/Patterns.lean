import OiUserland.Lib.Regexes

namespace OiUserland.Lib.Patterns

open Regexes

inductive Outcome (α : Type)
  | ok (a : α)
  | error
  | extended
  deriving DecidableEq

def Outcome.bind {α β : Type} (o : Outcome α) (f : α → Outcome β) : Outcome β :=
  match o with
  | .ok a => f a
  | .error => .error
  | .extended => .extended

/-- A group that is open: its number, the alternatives before the last one and the items of the
last one. The last alternative and the last item come first. -/
structure Frame where
  num : Nat
  alts : List Regex
  items : List Regex
  deriving DecidableEq

inductive SetPos
  | opened
  | item
  | escaped
  | single (c : Char)
  | range (c : Char)
  | rangeEscaped (c : Char)
  deriving DecidableEq

inductive Mode
  | plain
  | repeated
  | opened
  | escaped
  | braced (lo : List Char) (hi : Option (List Char))
  | set (negated : Bool) (ranges : List (Char × Char)) (pos : SetPos)
  deriving DecidableEq

structure Parser where
  frames : List Frame
  next : Nat
  mode : Mode
  deriving DecidableEq

def literal (c : Char) : Regex := .chars false [(c, c)]

def sequence (items : List Regex) : Regex := items.foldr (fun r t => .cat t r) .empty

def Frame.body (f : Frame) : Regex := f.alts.foldl (fun r a => .alt a r) (sequence f.items)

def Frame.add (r : Regex) (f : Frame) : Frame := { f with items := r :: f.items }

def Parser.onTop (u : Frame → Frame) (mode : Mode) (p : Parser) : Parser :=
  match p.frames with
  | [] => p
  | f :: fs => { p with frames := u f :: fs, mode := mode }

def Parser.add (r : Regex) (p : Parser) : Parser := p.onTop (Frame.add r) .plain

def maxRepeat : Nat := 4294967295

def Frame.repeatLast (min : Nat) (max : Option Nat) (f : Frame) : Frame :=
  match f.items with
  | r :: items => { f with items := .rep r min max true :: items }
  | [] => f

def Parser.quantify (min : Nat) (max : Option Nat) (p : Parser) : Outcome Parser :=
  match p.frames.head?.map Frame.items with
  | some (.bol :: _) => .error
  | some (.eol :: _) => .error
  | some (.rep _ _ _ _ :: _) => .error
  | some (_ :: _) => .ok (p.onTop (Frame.repeatLast min max) .repeated)
  | _ => .error

def Frame.lazy (f : Frame) : Frame :=
  match f.items with
  | .rep r min max _ :: items => { f with items := .rep r min max false :: items }
  | _ => f

def Frame.alternative (f : Frame) : Frame := { f with alts := sequence f.items :: f.alts, items := [] }

def Parser.close (p : Parser) : Outcome Parser :=
  match p.frames with
  | f :: g :: fs => .ok { p with frames := g.add (.cap f.num f.body) :: fs, mode := .plain }
  | _ => .error

def Parser.plainStep (c : Char) (p : Parser) : Outcome Parser :=
  match c with
  | '.' => .ok (p.add .dot)
  | '^' => .ok (p.add .bol)
  | '$' => .ok (p.add .eol)
  | '*' => p.quantify 0 none
  | '+' => p.quantify 1 none
  | '?' => p.quantify 0 (some 1)
  | '|' => .ok (p.onTop Frame.alternative .plain)
  | '(' => .ok { p with frames := ⟨p.next, [], []⟩ :: p.frames, next := p.next + 1, mode := .opened }
  | ')' => p.close
  | '[' => .ok { p with mode := .set false [] .opened }
  | '\\' => .ok { p with mode := .escaped }
  | '{' => .ok { p with mode := .braced [] none }
  | c => .ok (p.add (literal c))

def Parser.setItem (negated : Bool) (ranges : List (Char × Char)) (c : Char) (p : Parser) : Outcome Parser :=
  if c = ']' ∧ ranges ≠ [] then .ok (p.add (.chars negated ranges))
  else if c = '\\' then .ok { p with mode := .set negated ranges .escaped }
  else .ok { p with mode := .set negated ranges (.single c) }

def Parser.setRange (negated : Bool) (ranges : List (Char × Char)) (lo hi : Char) (p : Parser) : Outcome Parser :=
  if hi < lo then .error else .ok { p with mode := .set negated ((lo, hi) :: ranges) .item }

def Parser.setStep (negated : Bool) (ranges : List (Char × Char)) (pos : SetPos) (c : Char) (p : Parser) : Outcome Parser :=
  match pos with
  | .opened => if c = '^' then .ok { p with mode := .set true [] .item } else p.setItem false [] c
  | .item => p.setItem negated ranges c
  | .escaped => if c.isAlphanum then .extended else .ok { p with mode := .set negated ranges (.single c) }
  | .single d =>
      if c = '-' then .ok { p with mode := .set negated ranges (.range d) } else p.setItem negated ((d, d) :: ranges) c
  | .range d =>
      if c = ']' then .ok (p.add (.chars negated (('-', '-') :: (d, d) :: ranges)))
      else if c = '\\' then .ok { p with mode := .set negated ranges (.rangeEscaped d) }
      else p.setRange negated ranges d c
  | .rangeEscaped d => if c.isAlphanum then .extended else p.setRange negated ranges d c

def braceText (lo : List Char) (hi : Option (List Char)) : List Char :=
  match hi with
  | none => '{' :: lo
  | some hi => '{' :: lo ++ ',' :: hi

def Parser.addText (text : List Char) (p : Parser) : Parser := text.foldl (fun p c => p.add (literal c)) p

def number (digits : List Char) : Nat := Nat.ofDigitChars 10 digits 0

def Parser.repeatRange (lo hi : List Char) (p : Parser) : Outcome Parser :=
  let max := if hi = [] then none else some (number hi)
  if maxRepeat ≤ number lo ∨ maxRepeat ≤ number hi then .error
  else if hi ≠ [] ∧ number hi < number lo then .error
  else p.quantify (number lo) max

def Parser.braceStep (lo : List Char) (hi : Option (List Char)) (c : Char) (p : Parser) : Outcome Parser :=
  if c.isDigit then
    match hi with
    | none => .ok { p with mode := .braced (lo ++ [c]) none }
    | some hi => .ok { p with mode := .braced lo (some (hi ++ [c])) }
  else if c = ',' ∧ hi = none then .ok { p with mode := .braced lo (some []) }
  else if c = '}' ∧ (lo ≠ [] ∨ hi ≠ none) then p.repeatRange lo (hi.getD lo)
  else (p.addText (braceText lo hi)).plainStep c

def Parser.step (p : Parser) (c : Char) : Outcome Parser :=
  match p.mode with
  | .plain => p.plainStep c
  | .repeated => if c = '?' then .ok (p.onTop Frame.lazy .plain) else p.plainStep c
  | .opened => if c = '?' then .extended else p.plainStep c
  | .escaped => if c.isAlphanum then .extended else .ok (p.add (literal c))
  | .braced lo hi => p.braceStep lo hi c
  | .set negated ranges pos => p.setStep negated ranges pos c

def Parser.run (p : Parser) : List Char → Outcome Parser
  | [] => .ok p
  | c :: cs => (p.step c).bind fun p => p.run cs

def Parser.pattern (p : Parser) : Outcome Regex :=
  match p.frames with
  | [f] => .ok f.body
  | _ => .error

def Parser.finish (p : Parser) : Outcome Regex :=
  match p.mode with
  | .escaped => .error
  | .set _ _ _ => .error
  | .braced lo hi => (p.addText (braceText lo hi)).pattern
  | _ => p.pattern

def Parser.start : Parser := ⟨[⟨0, [], []⟩], 1, .plain⟩

def compile (pattern : List Char) : Outcome Regex := (Parser.start.run pattern).bind Parser.finish

section Groups

variable {n k : Nat} {f below : Frame} {fs : List Frame} {p p' : Parser} {c : Char} {u : Frame → Frame} {mode : Mode}

def Frame.groups (f : Frame) : List Nat := (f.alts ++ f.items).flatMap Regexes.groups

theorem groups_sequence {items : List Regex} : n ∈ groups (sequence items) ↔ n ∈ items.flatMap groups := by
  induction items with
  | nil => exact Iff.rfl
  | cons r items ih =>
      change n ∈ groups (sequence items) ++ groups r ↔ n ∈ groups r ++ items.flatMap groups
      rw [List.mem_append, List.mem_append, ih, or_comm]

def Behind (k : Nat) (f : Frame) : Prop := ∀ n ∈ f.groups, k < n

inductive Open (below : Frame) (k : Nat) : List Frame → Prop
  | base {f : Frame} (hnum : f.num = k) (hf : Behind k f) : Open below k [f, below]
  | push {g : Frame} {fs : List Frame} (hnum : k < g.num) (hg : Behind k g) (h : Open below k fs) : Open below k (g :: fs)

structure Inside (below : Frame) (k : Nat) (p : Parser) : Prop where
  next : k < p.next
  frames : Open below k p.frames

structure Closed (k : Nat) (p : Parser) : Prop where
  next : k < p.next
  frames : ∀ g ∈ p.frames, g.num ≠ k

structure Keeps (k : Nat) (u : Frame → Frame) : Prop where
  num : ∀ f, (u f).num = f.num
  behind : ∀ f, Behind k f → Behind k (u f)

theorem Open.change (hu : Keeps k u) (h : Open below k (f :: fs)) : Open below k (u f :: fs) := by
  cases h with
  | base hnum hf => exact .base ((hu.num f).trans hnum) (hu.behind f hf)
  | push hnum hg h => exact .push ((hu.num f).symm ▸ hnum) (hu.behind f hg) h

theorem Inside.onTop (h : Inside below k p) (hu : Keeps k u) : Inside below k (p.onTop u mode) := by
  obtain ⟨hnext, hframes⟩ := h
  unfold Parser.onTop
  split
  · exact ⟨hnext, hframes⟩
  · next f fs heq => exact ⟨hnext, (heq ▸ hframes).change hu⟩

theorem Closed.onTop (h : Closed k p) (hu : Keeps k u) : Closed k (p.onTop u mode) := by
  obtain ⟨hnext, hframes⟩ := h
  unfold Parser.onTop
  split
  · exact ⟨hnext, hframes⟩
  · next f fs heq =>
      rw [heq] at hframes
      refine ⟨hnext, fun g hg => ?_⟩
      rcases List.mem_cons.mp hg with rfl | hg
      · rw [hu.num f]
        exact hframes f (List.mem_cons_self ..)
      · exact hframes g (List.mem_cons_of_mem _ hg)

theorem behind_add {r : Regex} (hr : ∀ n ∈ groups r, k < n) (hf : Behind k f) : Behind k (f.add r) := by
  intro n hn
  obtain ⟨t, ht, hnt⟩ := List.mem_flatMap.mp hn
  rcases List.mem_append.mp ht with ht | ht
  · exact hf n (List.mem_flatMap.mpr ⟨t, List.mem_append_left _ ht, hnt⟩)
  · rcases List.mem_cons.mp ht with rfl | ht
    · exact hr n hnt
    · exact hf n (List.mem_flatMap.mpr ⟨t, List.mem_append_right _ ht, hnt⟩)

theorem keeps_add {r : Regex} (hr : ∀ n ∈ groups r, k < n) : Keeps k (Frame.add r) := ⟨fun _ => rfl, fun _ hf => behind_add hr hf⟩

theorem keeps_alternative : Keeps k Frame.alternative := by
  refine ⟨fun _ => rfl, fun f hf n hn => hf n ?_⟩
  rw [Frame.groups, Frame.alternative, List.append_nil, List.flatMap_cons, List.mem_append, groups_sequence] at hn
  rw [Frame.groups, List.flatMap_append, List.mem_append]
  exact hn.symm

theorem keeps_lazy : Keeps k Frame.lazy := by
  refine ⟨fun f => ?_, fun f hf n hn => hf n ?_⟩
  · unfold Frame.lazy
    split <;> rfl
  · unfold Frame.lazy at hn
    split at hn
    · next r min max greedy items heq =>
        rw [Frame.groups, List.flatMap_append, List.flatMap_cons] at hn
        rw [Frame.groups, heq, List.flatMap_append, List.flatMap_cons]
        exact hn
    · exact hn

theorem keeps_repeatLast {min : Nat} {max : Option Nat} : Keeps k (Frame.repeatLast min max) := by
  refine ⟨fun f => ?_, fun f hf n hn => hf n ?_⟩
  · unfold Frame.repeatLast
    split <;> rfl
  · unfold Frame.repeatLast at hn
    split at hn
    · next r items heq =>
        rw [Frame.groups, List.flatMap_append, List.flatMap_cons] at hn
        rw [Frame.groups, heq, List.flatMap_append, List.flatMap_cons]
        exact hn
    · exact hn

structure Kept (k : Nat) (P : Parser → Prop) : Prop where
  mode : ∀ p mode, P p → P { p with mode := mode }
  top : ∀ p u mode, P p → Keeps k u → P (p.onTop u mode)
  opens : ∀ p, P p → P { p with frames := ⟨p.next, [], []⟩ :: p.frames, next := p.next + 1, mode := .opened }
  close : ∀ p p', P p → p.close = .ok p' → P p'

variable {P : Parser → Prop}

theorem Kept.add (hk : Kept k P) {r : Regex} (hr : groups r = []) (h : P p) : P (p.add r) :=
  hk.top p _ _ h (keeps_add (hr ▸ nofun))

theorem Kept.quantify (hk : Kept k P) {min : Nat} {max : Option Nat} (h : P p) (hrun : p.quantify min max = .ok p') : P p' := by
  unfold Parser.quantify at hrun
  split at hrun
  · cases hrun
  · cases hrun
  · cases hrun
  · cases hrun
    exact hk.top p _ _ h keeps_repeatLast
  · cases hrun

theorem Kept.plainStep (hk : Kept k P) (h : P p) (hrun : p.plainStep c = .ok p') : P p' := by
  unfold Parser.plainStep at hrun
  split at hrun
  · cases hrun
    exact hk.add rfl h
  · cases hrun
    exact hk.add rfl h
  · cases hrun
    exact hk.add rfl h
  · exact hk.quantify h hrun
  · exact hk.quantify h hrun
  · exact hk.quantify h hrun
  · cases hrun
    exact hk.top p _ _ h keeps_alternative
  · cases hrun
    exact hk.opens p h
  · exact hk.close p p' h hrun
  · cases hrun
    exact hk.mode p _ h
  · cases hrun
    exact hk.mode p _ h
  · cases hrun
    exact hk.mode p _ h
  · cases hrun
    exact hk.add rfl h

theorem Kept.addText (hk : Kept k P) (text : List Char) (h : P p) : P (p.addText text) := by
  induction text generalizing p with
  | nil => exact h
  | cons d text ih => exact ih (hk.add rfl h)

theorem Kept.setItem (hk : Kept k P) {negated : Bool} {ranges : List (Char × Char)} (h : P p)
    (hrun : p.setItem negated ranges c = .ok p') : P p' := by
  unfold Parser.setItem at hrun
  split at hrun
  · cases hrun
    exact hk.add rfl h
  · split at hrun <;>
    · cases hrun
      exact hk.mode p _ h

theorem Kept.setRange (hk : Kept k P) {negated : Bool} {ranges : List (Char × Char)} {d : Char} (h : P p)
    (hrun : p.setRange negated ranges d c = .ok p') : P p' := by
  unfold Parser.setRange at hrun
  split at hrun
  · cases hrun
  · cases hrun
    exact hk.mode p _ h

theorem Kept.setStep (hk : Kept k P) {negated : Bool} {ranges : List (Char × Char)} {pos : SetPos} (h : P p)
    (hrun : p.setStep negated ranges pos c = .ok p') : P p' := by
  cases pos with
  | opened =>
      simp only [Parser.setStep] at hrun
      split at hrun
      · cases hrun
        exact hk.mode p _ h
      · exact hk.setItem h hrun
  | item => exact hk.setItem h hrun
  | escaped =>
      simp only [Parser.setStep] at hrun
      split at hrun
      · cases hrun
      · cases hrun
        exact hk.mode p _ h
  | single d =>
      simp only [Parser.setStep] at hrun
      split at hrun
      · cases hrun
        exact hk.mode p _ h
      · exact hk.setItem h hrun
  | range d =>
      simp only [Parser.setStep] at hrun
      split at hrun
      · cases hrun
        exact hk.add rfl h
      · split at hrun
        · cases hrun
          exact hk.mode p _ h
        · exact hk.setRange h hrun
  | rangeEscaped d =>
      simp only [Parser.setStep] at hrun
      split at hrun
      · cases hrun
      · exact hk.setRange h hrun

theorem Kept.braceStep (hk : Kept k P) {lo : List Char} {hi : Option (List Char)} (h : P p)
    (hrun : p.braceStep lo hi c = .ok p') : P p' := by
  unfold Parser.braceStep at hrun
  split at hrun
  · split at hrun <;>
    · cases hrun
      exact hk.mode p _ h
  · split at hrun
    · cases hrun
      exact hk.mode p _ h
    · split at hrun
      · unfold Parser.repeatRange at hrun
        dsimp only at hrun
        split at hrun
        · cases hrun
        · split at hrun
          · cases hrun
          · exact hk.quantify h hrun
      · exact hk.plainStep (hk.addText _ h) hrun

theorem Kept.step (hk : Kept k P) (h : P p) (hrun : p.step c = .ok p') : P p' := by
  unfold Parser.step at hrun
  split at hrun
  · exact hk.plainStep h hrun
  · split at hrun
    · cases hrun
      exact hk.top p _ _ h keeps_lazy
    · exact hk.plainStep h hrun
  · split at hrun
    · cases hrun
    · exact hk.plainStep h hrun
  · split at hrun
    · cases hrun
    · cases hrun
      exact hk.add rfl h
  · exact hk.braceStep h hrun
  · exact hk.setStep h hrun

theorem Kept.run (hk : Kept k P) (text : List Char) (h : P p) (hrun : p.run text = .ok p') : P p' := by
  induction text generalizing p with
  | nil =>
      cases hrun
      exact h
  | cons c text ih =>
      rw [Parser.run] at hrun
      cases hstep : p.step c with
      | ok q =>
          rw [hstep] at hrun
          exact ih (hk.step h hstep) hrun
      | error =>
          rw [hstep] at hrun
          cases hrun
      | extended =>
          rw [hstep] at hrun
          cases hrun

end Groups

end OiUserland.Lib.Patterns
