import Mathlib.Data.List.Basic

namespace OiUserland.Dga.Colormaps

abbrev Byte := BitVec 8

/-- The info page of a grabbed colormap: the shadow has the red, the green and the blue values one array
after the other, and each entry has a flag that it has been changed. -/
structure Grabbedcmap where
  count : BitVec 32
  installed : Bool
  reallen : Nat
  start : Int
  len : Int
  shadow : Nat → BitVec 16
  flags : Nat → Byte

/-- The arguments of a call that writes entries. The arrays have at least `count` values. -/
structure Write where
  index : Nat
  count : Nat
  red : Nat → Byte
  green : Nat → Byte
  blue : Nat → Byte

inductive Post
  | ioctl (index count : Nat)
  | putfunc (index count : Nat)
  deriving DecidableEq

section Arrays

variable {α : Type}

def store (m : Nat → α) (i : Nat) : List α → Nat → α
  | [] => m
  | v :: vs => store (Function.update m i v) (i + 1) vs

def values (n : Nat) (f : Nat → α) : List α := (List.range n).map f

def stutter (v : Byte) : BitVec 16 := v.setWidth 16 ||| v.setWidth 16 <<< 8

def upper (x : BitVec 16) : Byte := (x.sshiftRight 8).setWidth 8

end Arrays

def clip (p : Grabbedcmap) (index count : Nat) : Nat :=
  if p.reallen < index + count then p.reallen - index else count

def dgaCmGet (p : Grabbedcmap) (index count : Nat) : List Byte × List Byte × List Byte :=
  let n := clip p index count
  (values n fun i => upper (p.shadow (index + i)),
    values n fun i => upper (p.shadow (index + p.reallen + i)),
    values n fun i => upper (p.shadow (index + p.reallen + p.reallen + i)))

def change (p : Grabbedcmap) (w : Write) : Grabbedcmap :=
  let n := clip p w.index w.count
  if n = 0 then p
  else
    let start := if w.index < p.start then (w.index : Int) else p.start
    let len := if start + p.len < w.index + n then w.index + n - start else p.len
    let shadow := store p.shadow w.index (values n fun i => stutter (w.red i))
    let shadow := store shadow (w.index + p.reallen) (values n fun i => stutter (w.green i))
    let shadow := store shadow (w.index + p.reallen + p.reallen) (values n fun i => stutter (w.blue i))
    { p with
      start := start
      len := len
      shadow := shadow
      flags := store p.flags w.index (values n fun _ => 1)
      count := p.count + 1 }

def posted (post : Nat → Nat → Post) (p : Grabbedcmap) (w : Write) : Option Post :=
  let n := clip p w.index w.count
  if n = 0 ∨ p.installed = false then none else some (post w.index n)

def dgaCmPut (p : Grabbedcmap) (w : Write) : Grabbedcmap × Option Post := (change p w, posted .ioctl p w)

def dgaCmWrite (p : Grabbedcmap) (w : Write) : Grabbedcmap × Option Post := (change p w, posted .putfunc p w)

inductive Call
  | put (w : Write)
  | write (w : Write)

def Call.args : Call → Write
  | .put w | .write w => w

def step (p : Grabbedcmap) : Call → Grabbedcmap
  | .put w => (dgaCmPut p w).1
  | .write w => (dgaCmWrite p w).1

structure Entry where
  red : Byte
  green : Byte
  blue : Byte

def entry (p : Grabbedcmap) (e : Nat) : Entry :=
  ⟨upper (p.shadow e), upper (p.shadow (e + p.reallen)), upper (p.shadow (e + p.reallen + p.reallen))⟩

def Writes (reallen : Nat) (w : Write) (e : Nat) : Prop := w.index ≤ e ∧ e < w.index + w.count ∧ e < reallen

instance (reallen : Nat) (w : Write) (e : Nat) : Decidable (Writes reallen w e) := inferInstanceAs (Decidable (_ ∧ _))

def Write.entry (w : Write) (e : Nat) : Entry := ⟨w.red (e - w.index), w.green (e - w.index), w.blue (e - w.index)⟩

def after (p : Grabbedcmap) : List Call → Grabbedcmap
  | [] => p
  | call :: calls => step (after p calls) call

def lastValue (p : Grabbedcmap) (e : Nat) : List Call → Entry
  | [] => entry p e
  | call :: calls => if Writes p.reallen call.args e then call.args.entry e else lastValue p e calls

variable {α : Type} {p : Grabbedcmap} {w : Write} {call : Call} {calls : List Call} {e n : Nat}

theorem store_get (m : Nat → α) (i : Nat) (vs : List α) (j : Nat) :
    store m i vs j = if i ≤ j then vs.getD (j - i) (m j) else m j := by
  induction vs generalizing m i with
  | nil => simp [store]
  | cons v vs ih =>
      rw [store, ih]
      rcases Nat.lt_trichotomy i j with hlt | rfl | hgt
      · rw [if_pos (Nat.succ_le_of_lt hlt), if_pos (Nat.le_of_lt hlt), Function.update_of_ne (Nat.ne_of_gt hlt)]
        obtain ⟨d, rfl⟩ := Nat.exists_eq_add_of_lt hlt
        rw [show i + d + 1 - i = d + 1 by omega, show i + d + 1 - (i + 1) = d by omega, List.getD_cons_succ]
      · rw [if_neg (Nat.not_succ_le_self i), if_pos (Nat.le_refl i), Function.update_self, Nat.sub_self]
        rfl
      · rw [if_neg (by omega), if_neg (by omega), Function.update_of_ne (Nat.ne_of_lt hgt)]

theorem store_values (m : Nat → α) (i : Nat) (f : Nat → α) (j : Nat) :
    store m i (values n f) j = if i ≤ j ∧ j < i + n then f (j - i) else m j := by
  rw [store_get]
  by_cases hi : i ≤ j
  · rw [if_pos hi, values, List.getD_eq_getElem?_getD, List.getElem?_map]
    by_cases hj : j < i + n
    · rw [if_pos ⟨hi, hj⟩, List.getElem?_range (by omega)]
      rfl
    · rw [if_neg fun h => hj h.2, List.getElem?_eq_none (by rw [List.length_range]; omega)]
      rfl
  · rw [if_neg hi, if_neg fun h => hi h.1]

theorem upper_stutter (v : Byte) : upper (stutter v) = v := by
  ext i hi
  simp only [upper, stutter, BitVec.getElem_setWidth, BitVec.getLsbD_sshiftRight, BitVec.getLsbD_or,
    BitVec.getLsbD_shiftLeft, BitVec.getLsbD_setWidth]
  have hhigh : ¬ 16 ≤ i := by omega
  have hlow : ¬ 8 + i < 8 := by omega
  simp [show 8 + i < 16 by omega, show i < 16 by omega, hhigh, hlow, BitVec.getLsbD_eq_getElem hi]

theorem clip_eq (p : Grabbedcmap) (index count : Nat) : clip p index count = min count (p.reallen - index) := by
  rw [clip]
  split <;> omega

theorem step_change (p : Grabbedcmap) (call : Call) : step p call = change p call.args := by
  cases call <;> rfl

theorem change_none (h : clip p w.index w.count = 0) : change p w = p := if_pos h

theorem change_reallen (p : Grabbedcmap) (w : Write) : (change p w).reallen = p.reallen := by
  by_cases h : clip p w.index w.count = 0
  · rw [change_none h]
  · rw [change, if_neg h]

theorem after_reallen (p : Grabbedcmap) (calls : List Call) : (after p calls).reallen = p.reallen := by
  induction calls with
  | nil => rfl
  | cons call calls ih => rw [after, step_change, change_reallen, ih]

theorem writes_iff : Writes p.reallen w e ↔ w.index ≤ e ∧ e < w.index + clip p w.index w.count := by
  rw [Writes, clip_eq]
  omega

theorem change_flags (p : Grabbedcmap) (w : Write) (e : Nat) :
    (change p w).flags e = if Writes p.reallen w e then 1 else p.flags e := by
  by_cases h : clip p w.index w.count = 0
  · rw [change_none h, if_neg fun hw => by have := writes_iff.mp hw; omega]
  · rw [change, if_neg h]
    dsimp only
    rw [store_values]
    by_cases hw : Writes p.reallen w e
    · rw [if_pos (writes_iff.mp hw), if_pos hw]
    · rw [if_neg fun h => hw (writes_iff.mpr h), if_neg hw]

theorem change_entry (he : e < p.reallen) :
    entry (change p w) e = if Writes p.reallen w e then w.entry e else entry p e := by
  by_cases h : clip p w.index w.count = 0
  · rw [change_none h, if_neg fun hw => by have := writes_iff.mp hw; omega]
  · have hclip := clip_eq p w.index w.count
    rw [change, if_neg h, entry]
    dsimp only
    simp only [store_values]
    by_cases hw : Writes p.reallen w e
    · obtain ⟨hle, hlt⟩ := writes_iff.mp hw
      rw [if_pos hw, if_neg (by omega), if_neg (by omega), if_pos ⟨hle, hlt⟩, if_neg (by omega), if_pos (by omega),
        if_pos (by omega), Write.entry, upper_stutter, upper_stutter, upper_stutter,
        show e + p.reallen - (w.index + p.reallen) = e - w.index by omega,
        show e + p.reallen + p.reallen - (w.index + p.reallen + p.reallen) = e - w.index by omega]
    · have hout : ¬ (w.index ≤ e ∧ e < w.index + clip p w.index w.count) := fun h => hw (writes_iff.mpr h)
      rw [if_neg hw, if_neg (by omega), if_neg (by omega), if_neg hout, if_neg (by omega), if_neg (by omega),
        if_neg (by omega), if_neg (by omega), if_neg (by omega), if_neg (by omega)]
      rfl

/-- The range has been cleared. -/
structure Cleared (p : Grabbedcmap) : Prop where
  len : p.len = 0
  flags : ∀ e, e < p.reallen → p.flags e = 0

def Written (p : Grabbedcmap) (calls : List Call) (e : Nat) : Prop := ∃ call ∈ calls, Writes p.reallen call.args e

def InRange (p : Grabbedcmap) (e : Nat) : Prop := p.start ≤ e ∧ (e : Int) < p.start + p.len

instance (p : Grabbedcmap) (e : Nat) : Decidable (InRange p e) := inferInstanceAs (Decidable (_ ∧ _))

/-- The page after some calls on a cleared one. -/
structure Recorded (p : Grabbedcmap) (calls : List Call) : Prop where
  covered : ∀ e, Written p calls e → InRange (after p calls) e
  flags : ∀ e, e < p.reallen → ((after p calls).flags e ≠ 0 ↔ Written p calls e)
  gets : ∀ index count, dgaCmGet (after p calls) index count =
    (values (clip p index count) fun i => (lastValue p (index + i) calls).red,
      values (clip p index count) fun i => (lastValue p (index + i) calls).green,
      values (clip p index count) fun i => (lastValue p (index + i) calls).blue)

/-- A write below the range reaches the end of the range. -/
def Extends (p : Grabbedcmap) (w : Write) : Prop :=
  clip p w.index w.count = 0 ∨ p.start ≤ w.index ∨ p.len ≤ 0 ∨ p.start + p.len ≤ w.index + clip p w.index w.count

/-- Each call has extended the range that it found. -/
def Extending (p : Grabbedcmap) : List Call → Prop
  | [] => True
  | call :: calls => Extending p calls ∧ Extends (after p calls) call.args

structure Spanned (p : Grabbedcmap) (calls : List Call) : Prop where
  covered : ∀ e, Written p calls e → InRange (after p calls) e
  nonneg : 0 ≤ (after p calls).len
  reached : 0 < (after p calls).len →
    ∃ e, Written p calls e ∧ (e : Int) + 1 = (after p calls).start + (after p calls).len

theorem written_cons : Written p (call :: calls) e ↔ Writes p.reallen call.args e ∨ Written p calls e :=
  List.exists_mem_cons_iff ..

theorem change_range (h : clip p w.index w.count ≠ 0) :
    (change p w).start = min (w.index : Int) p.start ∧
      (change p w).len = max p.len (w.index + clip p w.index w.count - min (w.index : Int) p.start) := by
  rw [change, if_neg h]
  dsimp only
  constructor
  · split <;> omega
  · split <;> split <;> omega

theorem Spanned.extend (h : Spanned p calls) (hext : Extends (after p calls) call.args) :
    Spanned p (call :: calls) := by
  have hreallen := after_reallen p calls
  have hafter : after p (call :: calls) = change (after p calls) call.args := step_change ..
  have hnonneg := h.nonneg
  by_cases hclip : clip (after p calls) call.args.index call.args.count = 0
  · have hnone (e : Nat) : ¬ Writes p.reallen call.args e := fun hw => by
      have := writes_iff.mp (hreallen.symm ▸ hw)
      omega
    have hsame : ∀ e, Written p (call :: calls) e ↔ Written p calls e := fun e =>
      written_cons.trans (or_iff_right (hnone e))
    refine ⟨fun e he => ?_, ?_, fun hpos => ?_⟩
    · rw [hafter, change_none hclip]
      exact h.covered e ((hsame e).mp he)
    · rw [hafter, change_none hclip]
      exact h.nonneg
    · rw [hafter, change_none hclip] at hpos ⊢
      obtain ⟨e, he, hend⟩ := h.reached hpos
      exact ⟨e, (hsame e).mpr he, hend⟩
  · obtain ⟨hstart, hlen⟩ := change_range hclip
    have hends : (after p (call :: calls)).start + (after p (call :: calls)).len =
        if 0 < (after p calls).len then
          max ((after p calls).start + (after p calls).len)
            (call.args.index + clip (after p calls) call.args.index call.args.count)
        else call.args.index + clip (after p calls) call.args.index call.args.count := by
      rw [hafter, hstart, hlen]
      rcases hext with h0 | hle | hempty | hreach
      · exact absurd h0 hclip
      · split <;> omega
      · split <;> omega
      · split <;> omega
    have hnew (e : Nat) : Writes p.reallen call.args e ↔ call.args.index ≤ e ∧
        e < call.args.index + clip (after p calls) call.args.index call.args.count := by
      rw [← hreallen]
      exact writes_iff
    refine ⟨fun e he => ?_, ?_, fun _ => ?_⟩
    · rw [InRange, hends]
      rw [hafter, hstart]
      rcases written_cons.mp he with hw | hold
      · obtain ⟨hle, hlt⟩ := (hnew e).mp hw
        split <;> omega
      · obtain ⟨hle, hlt⟩ := h.covered e hold
        split <;> omega
    · rw [hafter, hlen]
      omega
    · rw [hends]
      by_cases hlast : 0 < (after p calls).len ∧
          call.args.index + clip (after p calls) call.args.index call.args.count ≤
            (after p calls).start + (after p calls).len
      · obtain ⟨e, he, hend⟩ := h.reached hlast.1
        refine ⟨e, written_cons.mpr (.inr he), ?_⟩
        rw [if_pos hlast.1, hend]
        omega
      · refine ⟨call.args.index + clip (after p calls) call.args.index call.args.count - 1, ?_, ?_⟩
        · exact written_cons.mpr (.inl ((hnew _).mpr (by omega)))
        · split <;> omega

theorem spanned (hclear : Cleared p) (h : Extending p calls) : Spanned p calls := by
  induction calls with
  | nil =>
      refine ⟨fun e he => ?_, Int.le_of_eq hclear.len.symm, fun hpos => ?_⟩
      · obtain ⟨_, hmem, _⟩ := he
        cases hmem
      · exact absurd hclear.len (Int.ne_of_gt hpos)
  | cons call calls ih => exact (ih h.1).extend h.2

theorem flags_recorded (hclear : Cleared p) (calls : List Call) (he : e < p.reallen) :
    (after p calls).flags e ≠ 0 ↔ Written p calls e := by
  induction calls with
  | nil =>
      refine iff_of_false (fun h => h (hclear.flags e he)) ?_
      rintro ⟨_, hmem, _⟩
      cases hmem
  | cons call calls ih =>
      rw [after, step_change, change_flags, after_reallen, written_cons]
      by_cases hw : Writes p.reallen call.args e
      · rw [if_pos hw]
        exact iff_of_true (by decide) (.inl hw)
      · rw [if_neg hw, ih, or_iff_right hw]

theorem entry_after (calls : List Call) (he : e < p.reallen) : entry (after p calls) e = lastValue p e calls := by
  induction calls with
  | nil => rfl
  | cons call calls ih =>
      rw [after, step_change, change_entry (by rwa [after_reallen]), after_reallen, lastValue, ih]

theorem gets_after (p : Grabbedcmap) (calls : List Call) (index count : Nat) : dgaCmGet (after p calls) index count =
    (values (clip p index count) fun i => (lastValue p (index + i) calls).red,
      values (clip p index count) fun i => (lastValue p (index + i) calls).green,
      values (clip p index count) fun i => (lastValue p (index + i) calls).blue) := by
  have hclip : clip (after p calls) index count = clip p index count := by rw [clip_eq, clip_eq, after_reallen]
  have hentry : ∀ i ∈ List.range (clip p index count),
      entry (after p calls) (index + i) = lastValue p (index + i) calls := by
    intro i hi
    have := List.mem_range.mp hi
    rw [clip_eq] at this
    exact entry_after calls (by omega)
  rw [dgaCmGet, hclip]
  refine Prod.ext ?_ (Prod.ext ?_ ?_)
  · exact List.map_congr_left fun i hi => congrArg Entry.red (hentry i hi)
  · refine List.map_congr_left fun i hi => ?_
    rw [← congrArg Entry.green (hentry i hi),
      show index + (after p calls).reallen + i = index + i + (after p calls).reallen by omega]
    rfl
  · refine List.map_congr_left fun i hi => ?_
    rw [← congrArg Entry.blue (hentry i hi), show index + (after p calls).reallen + (after p calls).reallen + i =
      index + i + (after p calls).reallen + (after p calls).reallen by omega]
    rfl

/-- The range covers what has been written as long as each write below it reaches its end, and loses an entry at
the first one that does not. -/
theorem range_recorded (hclear : Cleared p) (h : Extending p calls) :
    Recorded p calls ∧ ∀ call, Recorded p (call :: calls) ↔ Extends (after p calls) call.args := by
  have hspanned := spanned hclear h
  refine ⟨⟨hspanned.covered, fun e => flags_recorded hclear calls, gets_after p calls⟩, fun call => ?_⟩
  refine ⟨fun hrec => ?_, fun hext => ?_⟩
  · by_contra hnot
    rw [Extends, not_or, not_or, not_or] at hnot
    obtain ⟨hclip, hbelow, hpos, hshort⟩ := hnot
    obtain ⟨e, he, hend⟩ := hspanned.reached (by omega)
    obtain ⟨-, hlt⟩ := hrec.covered e (written_cons.mpr (.inr he))
    obtain ⟨hstart, hlen⟩ := change_range hclip
    rw [after, step_change, hstart, hlen] at hlt
    omega
  · exact ⟨(hspanned.extend hext).covered, fun e => flags_recorded hclear _, gets_after p _⟩

/-- A colormap of 256 entries whose range is empty and behind them. -/
def blank : Grabbedcmap := ⟨0, false, 256, 256, 0, fun _ => 0, fun _ => 0⟩

def gray (index count : Nat) : Call := .put ⟨index, count, fun _ => 7, fun _ => 7, fun _ => 7⟩

theorem cleared_blank : Cleared blank := ⟨rfl, fun _ _ => rfl⟩

/-- A range that is written from below to above. -/
theorem range_recorded_above : Recorded blank [gray 20 4, gray 16 4] ∧
    ∀ call, Recorded blank (call :: [gray 20 4, gray 16 4]) ↔ Extends (after blank [gray 20 4, gray 16 4]) call.args :=
  range_recorded cleared_blank ⟨⟨trivial, .inr (.inr (.inl (by decide)))⟩, .inr (.inl (by decide))⟩

/-- Entry 16 is not in the range any more when the entries from 8 to 11 have been written behind it. -/
theorem range_loses : ¬ ∀ p calls, Cleared p → Recorded p calls := by
  intro h
  have hlost := (h blank [gray 8 4, gray 16 4] cleared_blank).covered 16
    ⟨gray 16 4, List.mem_cons_of_mem _ (List.mem_cons_self ..), by decide⟩
  exact absurd hlost (by decide)

end OiUserland.Dga.Colormaps
