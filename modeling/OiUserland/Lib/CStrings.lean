import Mathlib.Algebra.Group.Nat.Defs
import Mathlib.Algebra.Group.Int.Defs
import Mathlib.Data.List.TakeWhile

namespace OiUserland.Lib.CStrings

def cString (s : List Char) : List Char := s.takeWhile (· ≠ '\x00')

theorem cString_of_not_mem {s : List Char} (h : '\x00' ∉ s) : cString s = s := by
  rw [cString, List.takeWhile_eq_self_iff]
  intro c hc
  simp only [decide_eq_true_eq]
  rintro rfl
  exact h hc

def isSpace (c : Char) : Bool := c = ' ' ∨ ('\t' ≤ c ∧ c ≤ '\r')

/-- strchr(), where the byte that is found is then replaced by NUL: the string
before it and the one behind it. -/
def strchr (c : Char) : List Char → Option (List Char × List Char)
  | [] => none
  | x :: s => if x = c then some ([], s) else (strchr c s).map fun (p, r) => (x :: p, r)

theorem strchr_append {c : Char} {p r : List Char} (h : c ∉ p) : strchr c (p ++ c :: r) = some (p, r) := by
  induction p with
  | nil => simp [strchr]
  | cons x p ih =>
      have hx : x ≠ c := fun hx => h (hx ▸ List.mem_cons_self ..)
      rw [List.cons_append, strchr, if_neg hx, ih fun hin => h (List.mem_cons_of_mem _ hin), Option.map_some]

theorem strchr_eq_some {c : Char} {s p r : List Char} (h : strchr c s = some (p, r)) : s = p ++ c :: r ∧ c ∉ p := by
  induction s generalizing p with
  | nil => cases h
  | cons x s ih =>
      rw [strchr] at h
      split at h
      · rename_i hx
        obtain ⟨rfl, rfl⟩ := Prod.mk.inj (Option.some.inj h)
        exact ⟨by rw [hx, List.nil_append], List.not_mem_nil⟩
      · rename_i hx
        obtain ⟨⟨p', r'⟩, hp, h⟩ := Option.map_eq_some_iff.mp h
        obtain ⟨rfl, rfl⟩ := Prod.mk.inj h
        obtain ⟨rfl, hnot⟩ := ih hp
        refine ⟨rfl, fun hin => ?_⟩
        rcases List.mem_cons.mp hin with heq | hin
        · exact hx heq.symm
        · exact hnot hin

def strncmp : Nat → List Char → List Char → Int
  | 0, _, _ => 0
  | n + 1, s, t =>
      if s.headD '\x00' ≠ t.headD '\x00' then (s.headD '\x00').toNat - (t.headD '\x00').toNat
      else if s.headD '\x00' = '\x00' then 0
      else strncmp n s.tail t.tail

theorem strncmp_ne_zero {n : Nat} {s t : List Char} (h : s.headD '\x00' ≠ t.headD '\x00') : strncmp (n + 1) s t ≠ 0 := by
  rw [strncmp, if_pos h]
  intro hzero
  have hcodes : (s.headD '\x00').toNat = (t.headD '\x00').toNat := by omega
  exact h (Char.toNat_inj.mp hcodes)

theorem strncmp_cons {n : Nat} {x : Char} {s t : List Char} (hx : x ≠ '\x00') :
    strncmp (n + 1) (x :: s) (x :: t) = strncmp n s t := by
  have hsame : ¬ (x :: s).headD '\x00' ≠ (x :: t).headD '\x00' := not_not.mpr rfl
  exact (if_neg hsame).trans (if_neg hx)

theorem strncmp_take {n : Nat} {s t : List Char} (hs : '\x00' ∉ s) (hn : n ≤ s.length) :
    strncmp n s t = 0 ↔ s.take n <+: t := by
  induction n generalizing s t with
  | zero => exact ⟨fun _ => List.nil_prefix, fun _ => rfl⟩
  | succ n ih =>
      cases s with
      | nil => exact absurd hn (Nat.not_succ_le_zero n)
      | cons x s =>
          have hx : x ≠ '\x00' := fun heq => hs (heq ▸ List.mem_cons_self ..)
          have hs' : '\x00' ∉ s := fun hin => hs (List.mem_cons_of_mem _ hin)
          rw [List.take_succ_cons]
          cases t with
          | nil => exact ⟨fun h => absurd h (strncmp_ne_zero hx), fun h => absurd h (by simp)⟩
          | cons y t =>
              by_cases hxy : x = y
              · subst hxy
                rw [strncmp_cons hx, ih hs' (Nat.le_of_succ_le_succ hn), List.prefix_cons_inj]
              · refine ⟨fun h => absurd h (strncmp_ne_zero hxy), fun h => absurd (List.cons_prefix_cons.mp h).1 hxy⟩

theorem strncmp_eq {n : Nat} {s t : List Char} (hs : '\x00' ∉ s) (ht : '\x00' ∉ t) (hn : s.length < n) :
    strncmp n s t = 0 ↔ s = t := by
  induction n generalizing s t with
  | zero => exact absurd hn (Nat.not_lt_zero _)
  | succ n ih =>
      cases s with
      | nil =>
          cases t with
          | nil => exact ⟨fun _ => rfl, fun _ => rfl⟩
          | cons y t =>
              have hy : '\x00' ≠ y := fun heq => ht (heq ▸ List.mem_cons_self ..)
              exact ⟨fun h => absurd h (strncmp_ne_zero hy), nofun⟩
      | cons x s =>
          have hx : x ≠ '\x00' := fun heq => hs (heq ▸ List.mem_cons_self ..)
          have hs' : '\x00' ∉ s := fun hin => hs (List.mem_cons_of_mem _ hin)
          cases t with
          | nil => exact ⟨fun h => absurd h (strncmp_ne_zero hx), nofun⟩
          | cons y t =>
              have ht' : '\x00' ∉ t := fun hin => ht (List.mem_cons_of_mem _ hin)
              by_cases hxy : x = y
              · subst hxy
                rw [strncmp_cons hx, ih hs' ht' (Nat.lt_of_succ_lt_succ hn), List.cons.injEq, and_iff_right rfl]
              · exact ⟨fun h => absurd h (strncmp_ne_zero hxy), fun h => absurd (List.cons.inj h).1 hxy⟩

def longMax : Int := 2 ^ 63 - 1

def longMin : Int := -2 ^ 63

def sign : List Char → Bool × List Char
  | '-' :: s => (true, s)
  | '+' :: s => (false, s)
  | s => (false, s)

def toLong (n : Int) : Int × Bool :=
  if longMax < n then (longMax, true) else if n < longMin then (longMin, true) else (n, false)

theorem toLong_of_le {n : Int} (hmin : longMin ≤ n) (hmax : n ≤ longMax) : toLong n = (n, false) := by
  rw [toLong, if_neg (Int.not_lt.mpr hmax), if_neg (Int.not_lt.mpr hmin)]

/-- strtol(s, NULL, 10) for a long of 64 bits, and whether it sets errno to ERANGE. -/
def strtol (s : List Char) : Int × Bool :=
  let (neg, s) := sign (s.dropWhile isSpace)
  let n : Int := Nat.ofDigitChars 10 (s.takeWhile Char.isDigit) 0
  toLong (if neg then -n else n)

def decimal (n : Nat) : List Char := Nat.toDigits 10 n

theorem isDigit_of_mem_decimal {n : Nat} {c : Char} (h : c ∈ decimal n) : c.isDigit :=
  Nat.isDigit_of_mem_toDigits (by decide) (by decide) h

theorem isDigit_codes {c : Char} (h : c.isDigit) : 48 ≤ c.toNat ∧ c.toNat ≤ 57 := by
  simp only [Char.isDigit, ge_iff_le, Bool.and_eq_true, decide_eq_true_eq, UInt32.le_iff_toNat_le] at h
  exact h

theorem not_isDigit {c : Char} (h : c.toNat < 48 ∨ 57 < c.toNat) (n : Nat) : c ∉ decimal n := by
  intro hin
  have := isDigit_codes (isDigit_of_mem_decimal hin)
  omega

theorem takeWhile_digits {s : List Char} (h : ∀ c ∈ s, c.isDigit) : s.takeWhile Char.isDigit = s :=
  List.takeWhile_eq_self_iff.mpr h

theorem sign_digits {s : List Char} (h : ∀ c ∈ s, c.isDigit) : sign (s.dropWhile isSpace) = (false, s) := by
  cases s with
  | nil => rfl
  | cons c s =>
      have hc := isDigit_codes (h c (List.mem_cons_self ..))
      have hspace : ¬ isSpace c = true := by
        simp only [isSpace, decide_eq_true_eq, not_or, not_and]
        refine ⟨?_, fun _ hle => ?_⟩
        · rintro rfl
          exact absurd hc (by decide)
        · have : c.toNat ≤ 13 := hle
          omega
      rw [List.dropWhile_cons_of_neg hspace, sign.eq_3]
      · rintro t h
        obtain ⟨rfl, -⟩ := List.cons.inj h
        exact absurd hc (by decide)
      · rintro t h
        obtain ⟨rfl, -⟩ := List.cons.inj h
        exact absurd hc (by decide)

theorem strtol_digits {s : List Char} (h : ∀ c ∈ s, c.isDigit) : strtol s = toLong (Nat.ofDigitChars 10 s 0 : Nat) := by
  simp only [strtol, sign_digits h, takeWhile_digits h]
  rfl

theorem ofDigitChars_decimal (n : Nat) : Nat.ofDigitChars 10 (decimal n) 0 = n := Nat.ofDigitChars_ten_toDigits

theorem strtol_decimal {n : Nat} (h : (n : Int) ≤ longMax) : strtol (decimal n) = ((n : Int), false) := by
  have hmin : longMin ≤ (n : Int) := by
    rw [longMin]
    omega
  rw [strtol_digits fun c hc => isDigit_of_mem_decimal hc, ofDigitChars_decimal]
  exact toLong_of_le hmin h

section Unsigned

def ulongMax : Nat := 2 ^ 64 - 1

def digitValue (c : Char) : Nat :=
  if c.isDigit then c.toNat - 48
  else if c.isLower then c.toNat - 87
  else if c.isUpper then c.toNat - 55
  else 36

def isDigitIn (base : Nat) (c : Char) : Bool := digitValue c < base

def inBase (base : Nat) (ds : List Char) : Nat := ds.foldl (fun n d => base * n + digitValue d) 0

def baseOf : List Char → Nat × List Char
  | '0' :: x :: d :: s =>
      if (x = 'x' ∨ x = 'X') ∧ isDigitIn 16 d = true then (16, d :: s) else (8, '0' :: x :: d :: s)
  | '0' :: s => (8, '0' :: s)
  | s => (10, s)

/-- strtoul(s, &rest, 0) for an unsigned long of 64 bits. Where there is no number, nothing is
converted and `rest` is the string itself. -/
def strtoul (s : List Char) : Option (Nat × List Char) :=
  let (neg, t) := sign (s.dropWhile isSpace)
  let (base, t) := baseOf t
  let n := inBase base (t.takeWhile (isDigitIn base))
  if t.takeWhile (isDigitIn base) = [] then none
  else
    let value := if ulongMax < n then ulongMax else if neg then (2 ^ 64 - n) % 2 ^ 64 else n
    some (value, t.dropWhile (isDigitIn base))

/-- How a number is written: in decimal, in octal behind a zero, or in hexadecimal. -/
inductive Numeral : List Char → Nat → Prop
  | decimal {d : Char} {ds : List Char} (hd : d ≠ '0') (hds : ∀ x ∈ d :: ds, isDigitIn 10 x = true) :
      Numeral (d :: ds) (inBase 10 (d :: ds))
  | octal {ds : List Char} (hds : ∀ x ∈ ds, isDigitIn 8 x = true) : Numeral ('0' :: ds) (inBase 8 ('0' :: ds))
  | hexadecimal {x d : Char} {ds : List Char} (hx : x = 'x' ∨ x = 'X') (hds : ∀ y ∈ d :: ds, isDigitIn 16 y = true) :
      Numeral ('0' :: x :: d :: ds) (inBase 16 (d :: ds))

/-- What follows a number in a text: nothing, or a blank first. -/
def Ends (rest : List Char) : Prop := ∀ x, rest.head? = some x → isSpace x = true

variable {s rest : List Char} {n : Nat} {c : Char}

theorem sign_length_le (s : List Char) : (sign s).2.length ≤ s.length := by
  unfold sign
  split
  · simp
  · simp
  · simp

theorem baseOf_length_le (s : List Char) : (baseOf s).2.length ≤ s.length := by
  unfold baseOf
  split
  · split
    · simp
    · simp
  · simp
  · simp

theorem dropWhile_length_lt {p : Char → Bool} (h : s.takeWhile p ≠ []) : (s.dropWhile p).length < s.length := by
  have hpos := List.length_pos_iff.mpr h
  calc (s.dropWhile p).length < (s.takeWhile p).length + (s.dropWhile p).length := by omega
    _ = s.length := by rw [← List.length_append, List.takeWhile_append_dropWhile]

theorem strtoul_length (h : strtoul s = some (n, rest)) : rest.length < s.length := by
  unfold strtoul at h
  dsimp only at h
  split at h
  · cases h
  · rename_i hne
    obtain ⟨-, rfl⟩ := Prod.mk.inj (Option.some.inj h)
    set t := (baseOf (sign (s.dropWhile isSpace)).2).2 with ht
    have h1 : t.length ≤ s.length := calc
      t.length ≤ (sign (s.dropWhile isSpace)).2.length := baseOf_length_le _
      _ ≤ (s.dropWhile isSpace).length := sign_length_le _
      _ ≤ s.length := (List.dropWhile_suffix _).length_le
    exact Nat.lt_of_lt_of_le (dropWhile_length_lt hne) h1

theorem codes_of_isSpace (h : isSpace c = true) : c.toNat < 33 := by
  rw [isSpace, decide_eq_true_eq] at h
  rcases h with rfl | ⟨-, h⟩
  · decide
  · have : c.toNat ≤ 13 := h
    omega

theorem digitValue_low (h : c.toNat < 48) : digitValue c = 36 := by
  have h1 : ¬ c.isDigit = true := fun hd => by
    have := isDigit_codes hd
    omega
  have h2 : ¬ c.isLower = true := fun hd => by
    have : 97 ≤ c.toNat := UInt32.le_iff_toNat_le.mp (of_decide_eq_true (Bool.and_eq_true_iff.mp hd).1)
    omega
  have h3 : ¬ c.isUpper = true := fun hd => by
    have : 65 ≤ c.toNat := UInt32.le_iff_toNat_le.mp (of_decide_eq_true hd).1
    omega
  rw [digitValue, if_neg h1, if_neg h2, if_neg h3]

theorem not_isDigitIn_low {base : Nat} (hbase : base ≤ 36) (h : c.toNat < 48) : isDigitIn base c = false := by
  rw [isDigitIn, digitValue_low h, decide_eq_false_iff_not]
  omega

theorem takeWhile_isDigitIn {base : Nat} {ds : List Char} (hbase : base ≤ 36)
    (hds : ∀ x ∈ ds, isDigitIn base x = true) (hrest : Ends rest) :
    (ds ++ rest).takeWhile (isDigitIn base) = ds ∧ (ds ++ rest).dropWhile (isDigitIn base) = rest := by
  rw [List.takeWhile_append_of_pos hds, List.dropWhile_append_of_pos hds]
  cases rest with
  | nil => exact ⟨List.append_nil ds, rfl⟩
  | cons x rest =>
      have hx := codes_of_isSpace (hrest x rfl)
      have hnot : ¬ isDigitIn base x = true := by
        rw [not_isDigitIn_low hbase (by omega)]
        exact Bool.false_ne_true
      rw [List.takeWhile_cons_of_neg hnot, List.dropWhile_cons_of_neg hnot]
      exact ⟨List.append_nil ds, rfl⟩

theorem sign_of_digit {d : Char} (hd : 48 ≤ d.toNat) (s : List Char) : sign (d :: s) = (false, d :: s) := by
  rw [sign.eq_3]
  · rintro t h
    obtain ⟨rfl, -⟩ := List.cons.inj h
    exact absurd hd (by decide)
  · rintro t h
    obtain ⟨rfl, -⟩ := List.cons.inj h
    exact absurd hd (by decide)

theorem dropWhile_blanks {b : List Char} {d : Char} (hb : ∀ x ∈ b, isSpace x = true) (hd : 48 ≤ d.toNat)
    (s : List Char) : (b ++ d :: s).dropWhile isSpace = d :: s := by
  rw [List.dropWhile_append_of_pos hb, List.dropWhile_cons_of_neg]
  intro h
  have := codes_of_isSpace h
  omega

theorem low_le_of_isDigitIn {base : Nat} (hbase : base ≤ 36) (h : isDigitIn base c = true) : 48 ≤ c.toNat := by
  by_contra hlt
  rw [not_isDigitIn_low hbase (by omega)] at h
  cases h

theorem baseOf_octal (h : ∀ x, s.head? = some x → ¬ (x = 'x' ∨ x = 'X')) : baseOf ('0' :: s) = (8, '0' :: s) := by
  match s with
  | [] => rfl
  | [x] => rfl
  | x :: d :: s => rw [baseOf, if_neg fun hx => h x rfl hx.1]

theorem Numeral.base_eq {t : List Char} (ht : Numeral t n) (hrest : Ends rest) :
    ∃ base ds, base ≤ 36 ∧ baseOf (t ++ rest) = (base, ds ++ rest) ∧ ds ≠ [] ∧ (∀ x ∈ ds, isDigitIn base x = true) ∧
      n = inBase base ds := by
  cases ht with
  | @decimal d ds hd hds =>
      refine ⟨10, d :: ds, by decide, ?_, List.cons_ne_nil _ _, hds, rfl⟩
      unfold baseOf
      split
      · rename_i heq
        exact absurd (List.cons.inj heq).1 hd
      · rename_i heq
        exact absurd (List.cons.inj heq).1 hd
      · rfl
  | @octal ds hds =>
      refine ⟨8, '0' :: ds, by decide, ?_, List.cons_ne_nil _ _, ?_, rfl⟩
      · refine baseOf_octal fun x hx => ?_
        cases ds with
        | nil =>
            have hsp := codes_of_isSpace (hrest x hx)
            rintro (rfl | rfl)
            · exact absurd hsp (by decide)
            · exact absurd hsp (by decide)
        | cons o ds =>
            obtain rfl : o = x := Option.some.inj hx
            have ho := hds o (List.mem_cons_self ..)
            rintro (rfl | rfl)
            · exact absurd ho (by decide)
            · exact absurd ho (by decide)
      · intro x hx
        rcases List.mem_cons.mp hx with rfl | hx
        · decide
        · exact hds x hx
  | @hexadecimal x d ds hx hds =>
      refine ⟨16, d :: ds, by decide, ?_, List.cons_ne_nil _ _, hds, rfl⟩
      have hd := hds d (List.mem_cons_self ..)
      rw [List.cons_append, List.cons_append, List.cons_append, baseOf, if_pos ⟨hx, hd⟩]

theorem Numeral.head_eq {t : List Char} (ht : Numeral t n) : ∃ d ds, t = d :: ds ∧ 48 ≤ d.toNat := by
  cases ht with
  | decimal hd hds => exact ⟨_, _, rfl, low_le_of_isDigitIn (by decide) (hds _ (List.mem_cons_self ..))⟩
  | octal hds => exact ⟨_, _, rfl, by decide⟩
  | hexadecimal hx hds => exact ⟨_, _, rfl, by decide⟩

theorem strtoul_numeral {b t : List Char} (hb : ∀ x ∈ b, isSpace x = true) (ht : Numeral t n) (hn : n ≤ ulongMax)
    (hrest : Ends rest) : strtoul (b ++ (t ++ rest)) = some (n, rest) := by
  obtain ⟨base, ds, hbase, heq, hne, hds, hvalue⟩ := ht.base_eq hrest
  obtain ⟨d, ds', rfl, hd⟩ := ht.head_eq
  obtain ⟨htake, hdrop⟩ := takeWhile_isDigitIn hbase hds hrest
  rw [List.cons_append] at heq ⊢
  simp only [strtoul, dropWhile_blanks hb hd, sign_of_digit hd, heq, htake, hdrop, hne, ↓reduceIte, Bool.false_eq_true,
    ← hvalue, Nat.not_lt.mpr hn]

theorem strtoul_blank (h : ∀ x ∈ s, isSpace x = true) : strtoul s = none := by
  have hs : s.dropWhile isSpace = [] := List.dropWhile_eq_nil_iff.mpr h
  simp only [strtoul, hs]
  rfl

end Unsigned

end OiUserland.Lib.CStrings
