import OiUserland.HealthMonitor.DiskNames
import OiUserland.Lib.Faults

namespace OiUserland.HealthMonitor.DeviceStrings

open Lib.Faults Lib.CStrings DiskNames

structure CStr where
  text : List Char
  nul_free : '\x00' ∉ text

/-- The bytes of a string. A pointer into it is what follows from there on, and nothing may be
accessed behind the NUL. -/
def CStr.cells (s : CStr) : List Char := s.text ++ ['\x00']

def sizeofSnm : Nat := 256

def put (size : Nat) (c : Char) (out : List Char) : Run (List Char) :=
  if out.length < size then .ok (out ++ [c]) else .error .badWrite

def doSnm : List Char → List Char → Run (List Char)
  | [], _ => .error .badRead
  | c :: orig, shortnm =>
      if c ≠ 's' ∧ c ≠ 'p' then do
        let shortnm ← put sizeofSnm c shortnm
        doSnm orig shortnm
      else put sizeofSnm '\x00' shortnm

/-- The characters in common are passed, the NUL too. -/
def skipCommon : List Char → List Char → Run (List Char)
  | c :: lname, d :: fnm => if c = d then skipCommon lname fnm else .ok (d :: fnm)
  | _, _ => .error .badRead

def strrchr (c : Char) : List Char → Run (Option Nat)
  | [] => .error .badRead
  | x :: s =>
      if x = '\x00' then .ok none
      else do
        let found ← strrchr c s
        pure ((found.map (· + 1)).or (if x = c then some 0 else none))

def lname : List Char := "../../devices".toList

def trim (fnm : List Char) : Run (List Char) := do
  let fnm ← skipCommon (lname ++ ['\x00']) fnm
  match ← strrchr ':' fnm with
  | some ptr => pure (fnm.set ptr '\x00')
  | none => pure fnm

/-- What pline reads and sets of an nms_t. -/
structure Nms where
  real : List Char
  dnum : Int
  dty : Option (List Char)
  deriving DecidableEq

def toSlash : List Char → Run (List Char)
  | [] => .error .badRead
  | c :: ib => if c ≠ '\x00' ∧ c ≠ '/' then toSlash ib else .ok (c :: ib)

def findQuote : List Char → Run (Option (List Char × List Char))
  | [] => .error .badRead
  | c :: ib =>
      if c = '"' then .ok (some ([], ib))
      else if c = '\x00' then .ok none
      else do
        let found ← findQuote ib
        pure (found.map fun (path, rpt) => (c :: path, rpt))

def findStr (inbuf : List Char) (list : List Nms) : Option Nat := list.findIdx? (·.real = inbuf)

def blank (c : Char) : Bool := isSpace c ∧ c ≠ '\n'

def skipBlanks : List Char → Run (List Char)
  | [] => .error .badRead
  | c :: rpt => if c ≠ '\x00' ∧ blank c then skipBlanks rpt else .ok (c :: rpt)

def toNewline : List Char → Run (List Char)
  | [] => .error .badRead
  | c :: v => if c ≠ '\n' then do return c :: (← toNewline v) else .ok []

def backTo (c : Char) (ib : List Char) : Nat → Run Nat
  | 0 => .ok 0
  | bpt + 1 =>
      match ib[bpt + 1]? with
      | none => .error .badRead
      | some x => if x ≠ c then backTo c ib bpt else .ok (bpt + 1)

def strcpy : Nat → List Char → Run (List Char)
  | 0, _ => .error .badWrite
  | _ + 1, [] => .error .badRead
  | len + 1, c :: s => if c = '\x00' then .ok [] else do return c :: (← strcpy len s)

/-- The type that is set: NULL where it cannot be allocated, none where the path has no
device with a unit address. -/
def typeOf (allocated : Bool) (ib : List Char) (bpt : Nat) : Run (Option (Option (List Char))) := do
  let unit ← backTo '@' ib bpt
  if 0 < unit then
    let slash ← backTo '/' (ib.set unit '\x00') (unit - 1)
    if 0 < slash then
      if allocated then
        let dty ← strcpy (unit - slash) ((ib.set unit '\x00').drop (slash + 1))
        pure (some (some dty))
      else pure (some none)
    else pure none
  else pure none

def pline (allocated : Bool) (ib : List Char) (list : List Nms) : Run (Nat × List Nms) := do
  let ib ← toSlash ib
  if ib.head? = some '\x00' then pure (0, list)
  else
    match ← findQuote ib with
    | none => pure (0, list)
    | some (path, rpt) =>
        match findStr path list with
        | none => pure (0, list)
        | some entry =>
            let rpt ← skipBlanks rpt
            if rpt.head? = some '\x00' then pure (0, list)
            else
              let number ← toNewline rpt
              if number = [] then pure (0, list)
              else
                let dty ← typeOf allocated (path ++ ['\x00']) path.length
                pure (if dty.isSome ∧ allocated then 1 else 0,
                  list.modify entry fun e => { e with dnum := atoi number, dty := dty.getD e.dty })

/-- The call ends, and it has only accessed its string and its output buffer. -/
def Safe {α : Type} (x : Run α) : Prop := ∃ a, x = .ok a

/-- The name has a slice or a partition, and what is in front of it leaves room for the NUL. -/
def Sliced (room : Nat) (name : List Char) : Prop :=
  ∃ pre c post, name = pre ++ c :: post ∧ (c = 's' ∨ c = 'p') ∧ (∀ x ∈ pre, x ≠ 's' ∧ x ≠ 'p') ∧ pre.length < room

def Quoted (line path rpt : List Char) : Prop :=
  ∃ pre, line = pre ++ (path ++ '"' :: rpt) ∧ '/' ∉ pre ∧ path.head? = some '/' ∧ '"' ∉ path

/-- The path of the line is that of an entry, and what is behind it and behind white space is not ended
by a newline. -/
def Unended (line : List Char) (list : List Nms) : Prop :=
  ∃ path rpt, Quoted line path rpt ∧ (∃ e ∈ list, e.real = path) ∧ rpt.dropWhile blank ≠ [] ∧
    '\n' ∉ rpt.dropWhile blank

section Names

variable {room : Nat} {c : Char} {s out : List Char}

theorem safe_ok {α : Type} (a : α) : Safe (.ok a : Run α) := ⟨a, rfl⟩

theorem not_safe_error {α : Type} (e : Fault) : ¬ Safe (.error e : Run α) := by
  rintro ⟨a, h⟩
  cases h

theorem put_safe (size : Nat) : Safe (put size c out) ↔ out.length < size := by
  rw [put]
  split
  · next h => exact iff_of_true (safe_ok _) h
  · next h => exact iff_of_false (not_safe_error _) h

theorem sliced_stop (h : c = 's' ∨ c = 'p') : Sliced room (c :: s) ↔ 0 < room := by
  constructor
  · rintro ⟨pre, -, -, -, -, -, hroom⟩
    exact Nat.zero_lt_of_lt hroom
  · exact fun hroom => ⟨[], c, s, rfl, h, nofun, hroom⟩

theorem sliced_next (h : c ≠ 's' ∧ c ≠ 'p') : Sliced room (c :: s) ↔ Sliced (room - 1) s := by
  constructor
  · rintro ⟨pre, d, post, hname, hd, hpre, hroom⟩
    cases pre with
    | nil =>
        obtain ⟨rfl, -⟩ := List.cons.inj hname
        exact absurd hd (not_or.mpr h)
    | cons x pre =>
        obtain ⟨-, hname⟩ := List.cons.inj hname
        exact ⟨pre, d, post, hname, hd, fun y hy => hpre y (List.mem_cons_of_mem _ hy), Nat.lt_sub_of_add_lt hroom⟩
  · rintro ⟨pre, d, post, rfl, hd, hpre, hroom⟩
    exact ⟨c :: pre, d, post, rfl, hd, List.forall_mem_cons.mpr ⟨h, hpre⟩, Nat.add_lt_of_lt_sub hroom⟩

theorem doSnm_safe (h : '\x00' ∉ s) : Safe (doSnm (s ++ ['\x00']) out) ↔ Sliced (sizeofSnm - out.length) s := by
  induction s generalizing out with
  | nil =>
      refine iff_of_false ?_ ?_
      · rintro ⟨a, hrun⟩
        rw [List.nil_append, doSnm, if_pos (by decide)] at hrun
        obtain ⟨b, -, hrun⟩ := bind_eq_ok.mp hrun
        cases hrun
      · rintro ⟨pre, c, post, hname, -⟩
        exact List.append_ne_nil_of_right_ne_nil pre (List.cons_ne_nil c post) hname.symm
  | cons c s ih =>
      rw [List.cons_append, doSnm]
      by_cases hc : c ≠ 's' ∧ c ≠ 'p'
      · rw [if_pos hc, sliced_next hc, put]
        split
        · have hlen : sizeofSnm - out.length - 1 = sizeofSnm - (out ++ [c]).length := by
            rw [List.length_append, List.length_singleton, Nat.sub_add_eq]
          rw [hlen]
          exact ih fun hin => h (List.mem_cons_of_mem _ hin)
        · next hfull =>
            refine iff_of_false (not_safe_error _) ?_
            rintro ⟨pre, -, -, -, -, -, hroom⟩
            omega
      · rw [if_neg hc, put_safe, sliced_stop (by simpa only [not_and_or, not_not] using hc), Nat.sub_pos_iff_lt]

end Names

section Targets

variable {c : Char} {l s : List Char}

theorem strrchr_safe (c : Char) (s : List Char) : Safe (strrchr c (s ++ ['\x00'])) := by
  induction s with
  | nil => exact safe_ok none
  | cons x s ih =>
      rw [List.cons_append, strrchr]
      split
      · exact safe_ok none
      · obtain ⟨found, hfound⟩ := ih
        rw [hfound]
        exact safe_ok _

theorem skipCommon_self (l : List Char) : skipCommon l l = .error .badRead := by
  induction l with
  | nil => rfl
  | cons c l ih => rw [skipCommon, if_pos rfl, ih]

theorem skipCommon_ne (hl : '\x00' ∉ l) (hs : '\x00' ∉ s) (h : l ≠ s) :
    ∃ r, skipCommon (l ++ ['\x00']) (s ++ ['\x00']) = .ok (r ++ ['\x00']) := by
  induction l generalizing s with
  | nil =>
      cases s with
      | nil => exact absurd rfl h
      | cons d s =>
          have hd : '\x00' ≠ d := fun heq => hs (heq ▸ List.mem_cons_self)
          exact ⟨d :: s, if_neg hd⟩
  | cons c l ih =>
      cases s with
      | nil =>
          have hc : c ≠ '\x00' := fun heq => hl (heq ▸ List.mem_cons_self)
          exact ⟨[], if_neg hc⟩
      | cons d s =>
          by_cases hcd : c = d
          · obtain ⟨r, hr⟩ := ih (fun hin => hl (List.mem_cons_of_mem _ hin))
              (fun hin => hs (List.mem_cons_of_mem _ hin))
              fun heq => h (hcd ▸ congrArg (c :: ·) heq)
            exact ⟨r, (if_pos hcd).trans hr⟩
          · exact ⟨d :: s, if_neg hcd⟩

/-- The text to compare with is passed together with its NUL just if it is the whole name. -/
theorem trim_safe (hs : '\x00' ∉ s) : Safe (trim (s ++ ['\x00'])) ↔ s ≠ lname := by
  constructor
  · rintro ⟨a, hrun⟩ rfl
    rw [trim, skipCommon_self] at hrun
    cases hrun
  · intro h
    obtain ⟨r, hr⟩ := skipCommon_ne (by decide) hs h.symm
    obtain ⟨found, hfound⟩ := strrchr_safe ':' r
    rw [trim, hr]
    simp only [bind, Except.bind, hfound]
    cases found with
    | none => exact safe_ok _
    | some ptr => exact safe_ok _

end Targets

section Lines

variable {c : Char} {s ib path rpt line : List Char} {list : List Nms} {allocated : Bool} {bpt len : Nat}

theorem toSlash_eq (h : '\x00' ∉ s) : toSlash (s ++ ['\x00']) = .ok (s.dropWhile (· ≠ '/') ++ ['\x00']) := by
  induction s with
  | nil => rfl
  | cons c s ih =>
      have hc : c ≠ '\x00' := fun heq => h (heq ▸ List.mem_cons_self)
      rw [List.cons_append, toSlash, List.dropWhile_cons]
      by_cases hslash : c = '/'
      · rw [if_neg fun hgo => hgo.2 hslash, if_neg (by simpa using hslash)]
        rfl
      · rw [if_pos ⟨hc, hslash⟩, if_pos (by simpa using hslash)]
        exact ih fun hin => h (List.mem_cons_of_mem _ hin)

theorem findQuote_eq (h : '\x00' ∉ s) :
    findQuote (s ++ ['\x00']) = .ok ((strchr '"' s).map fun (path, rpt) => (path, rpt ++ ['\x00'])) := by
  induction s with
  | nil => rfl
  | cons c s ih =>
      have hc : c ≠ '\x00' := fun heq => h (heq ▸ List.mem_cons_self)
      rw [List.cons_append, findQuote, strchr]
      by_cases hquote : c = '"'
      · rw [if_pos hquote, if_pos hquote]
        rfl
      · rw [if_neg hquote, if_neg hquote, if_neg hc, ih fun hin => h (List.mem_cons_of_mem _ hin)]
        cases strchr '"' s <;> rfl

theorem skipBlanks_eq (h : '\x00' ∉ s) : skipBlanks (s ++ ['\x00']) = .ok (s.dropWhile blank ++ ['\x00']) := by
  induction s with
  | nil => rfl
  | cons c s ih =>
      have hc : c ≠ '\x00' := fun heq => h (heq ▸ List.mem_cons_self)
      rw [List.cons_append, skipBlanks, List.dropWhile_cons]
      by_cases hblank : blank c = true
      · rw [if_pos ⟨hc, hblank⟩, if_pos hblank]
        exact ih fun hin => h (List.mem_cons_of_mem _ hin)
      · rw [if_neg fun hgo => hblank hgo.2, if_neg hblank]
        rfl

theorem toNewline_safe (s : List Char) : Safe (toNewline (s ++ ['\x00'])) ↔ '\n' ∈ s := by
  induction s with
  | nil =>
      refine iff_of_false ?_ List.not_mem_nil
      rintro ⟨a, hrun⟩
      cases hrun
  | cons c s ih =>
      rw [List.cons_append, toNewline, List.mem_cons]
      by_cases hc : c = '\n'
      · rw [if_neg (not_not.mpr hc)]
        exact iff_of_true (safe_ok _) (.inl hc.symm)
      · rw [if_pos hc, or_iff_right fun heq => hc heq.symm, ← ih]
        constructor
        · rintro ⟨a, hrun⟩
          obtain ⟨v, hv, -⟩ := bind_eq_ok.mp hrun
          exact ⟨v, hv⟩
        · rintro ⟨v, hv⟩
          rw [hv]
          exact safe_ok _

theorem backTo_ok (c : Char) (h : bpt < ib.length) : ∃ b ≤ bpt, backTo c ib bpt = .ok b := by
  induction bpt with
  | zero => exact ⟨0, Nat.le_refl 0, rfl⟩
  | succ bpt ih =>
      rw [backTo, List.getElem?_eq_getElem h]
      simp only
      split
      · obtain ⟨b, hb, hrun⟩ := ih (Nat.lt_of_succ_lt h)
        exact ⟨b, Nat.le_succ_of_le hb, hrun⟩
      · exact ⟨bpt + 1, Nat.le_refl _, rfl⟩

/-- A string fits a buffer that its NUL fits. -/
theorem strcpy_safe {i : Nat} (h : s[i]? = some '\x00') (hlen : i < len) : Safe (strcpy len s) := by
  induction s generalizing i len with
  | nil => cases h
  | cons c s ih =>
      cases len with
      | zero => exact absurd hlen (Nat.not_lt_zero i)
      | succ len =>
          rw [strcpy]
          split
          · exact safe_ok _
          · next hc =>
              cases i with
              | zero => exact absurd (Option.some.inj h) hc
              | succ i =>
                  have hi : s[i]? = some '\x00' := h
                  obtain ⟨a, ha⟩ := ih hi (Nat.lt_of_succ_lt_succ hlen)
                  rw [ha]
                  exact safe_ok _

theorem typeOf_safe (allocated : Bool) (h : bpt < ib.length) : Safe (typeOf allocated ib bpt) := by
  obtain ⟨unit, hunit, hrun⟩ := backTo_ok '@' h
  rw [typeOf, hrun]
  simp only [bind, Except.bind]
  split
  · next hpos =>
      have hcut : unit - 1 < (ib.set unit '\x00').length := by
        rw [List.length_set]
        omega
      obtain ⟨slash, hslash, hrun⟩ := backTo_ok '/' hcut
      rw [hrun]
      simp only
      split
      · split
        · have hnul : ((ib.set unit '\x00').drop (slash + 1))[unit - slash - 1]? = some '\x00' := by
            rw [List.getElem?_drop]
            have hindex : slash + 1 + (unit - slash - 1) = unit := by omega
            rw [hindex, List.getElem?_set_self (by omega)]
          obtain ⟨dty, hdty⟩ := strcpy_safe hnul (Nat.sub_lt (by omega) Nat.one_pos)
          rw [hdty]
          exact safe_ok _
        · exact safe_ok _
      · exact safe_ok _
  · exact safe_ok _

theorem quoted_iff : Quoted line path rpt ↔ strchr '"' (line.dropWhile (· ≠ '/')) = some (path, rpt) := by
  constructor
  · rintro ⟨pre, rfl, hpre, hhead, hquote⟩
    have hdrop : (pre ++ (path ++ '"' :: rpt)).dropWhile (· ≠ '/') = path ++ '"' :: rpt := by
      have hpass (c : Char) (hc : c ∈ pre) : decide (c ≠ '/') = true := decide_eq_true fun heq => hpre (heq ▸ hc)
      rw [List.dropWhile_append_of_pos hpass]
      cases path with
      | nil => cases hhead
      | cons c path =>
          obtain rfl := Option.some.inj hhead
          exact List.dropWhile_cons_of_neg (by decide)
    rw [hdrop, strchr_append hquote]
  · intro h
    obtain ⟨hdrop, hquote⟩ := strchr_eq_some h
    refine ⟨line.takeWhile (· ≠ '/'), ?_, fun hin => ?_, ?_, hquote⟩
    · rw [← hdrop, List.takeWhile_append_dropWhile]
    · have hne := List.mem_takeWhile_imp hin
      exact absurd rfl (of_decide_eq_true hne)
    · have hhead := List.head?_dropWhile_not (· ≠ '/') line
      rw [hdrop] at hhead
      cases path with
      | nil => simp at hhead
      | cons c path => simpa using hhead

theorem findStr_none : findStr path list = none ↔ ¬ ∃ e ∈ list, e.real = path := by
  rw [findStr, List.findIdx?_eq_none_iff]
  simp

theorem unended_iff (hquoted : Quoted line path rpt) : Unended line list ↔
    (∃ e ∈ list, e.real = path) ∧ rpt.dropWhile blank ≠ [] ∧ '\n' ∉ rpt.dropWhile blank := by
  constructor
  · rintro ⟨path', rpt', hquoted', h⟩
    obtain ⟨rfl, rfl⟩ := Prod.mk.inj (Option.some.inj ((quoted_iff.mp hquoted').symm.trans (quoted_iff.mp hquoted)))
    exact h
  · exact fun h => ⟨path, rpt, hquoted, h⟩

theorem head_cells (h : '\x00' ∉ s) : (s ++ ['\x00']).head? = some '\x00' ↔ s = [] := by
  cases s with
  | nil => exact iff_of_true rfl rfl
  | cons c s =>
      refine iff_of_false (fun hhead => h ?_) (List.cons_ne_nil c s)
      rw [← Option.some.inj hhead]
      exact List.mem_cons_self

theorem number_safe (h : '\x00' ∉ rpt) {f : List Char → Run (Nat × List Nms)} (hf : ∀ number, Safe (f number)) :
    Safe (skipBlanks (rpt ++ ['\x00']) >>= fun rpt =>
      if rpt.head? = some '\x00' then pure (0, list) else toNewline rpt >>= f) ↔
        ¬ (rpt.dropWhile blank ≠ [] ∧ '\n' ∉ rpt.dropWhile blank) := by
  have hdrop : '\x00' ∉ rpt.dropWhile blank := fun hin => h ((List.dropWhile_sublist _).subset hin)
  rw [skipBlanks_eq h]
  simp only [bind, Except.bind, head_cells hdrop]
  by_cases hnil : rpt.dropWhile blank = []
  · rw [if_pos hnil]
    exact iff_of_true (safe_ok _) fun hno => hno.1 hnil
  · rw [if_neg hnil, ← toNewline_safe, not_and, imp_iff_right hnil, not_not]
    constructor
    · rintro ⟨a, hrun⟩
      obtain ⟨number, hnumber, -⟩ := bind_eq_ok.mp hrun
      exact ⟨number, hnumber⟩
    · rintro ⟨number, hnumber⟩
      rw [hnumber]
      exact hf number

theorem pline_safe (h : '\x00' ∉ line) : Safe (pline allocated (line ++ ['\x00']) list) ↔ ¬ Unended line list := by
  have hdrop : '\x00' ∉ line.dropWhile (· ≠ '/') := fun hin => h ((List.dropWhile_sublist _).subset hin)
  have hnone (hstr : strchr '"' (line.dropWhile (· ≠ '/')) = none) : ¬ Unended line list := by
    rintro ⟨path, rpt, hquoted, -⟩
    rw [quoted_iff.mp hquoted] at hstr
    cases hstr
  rw [pline, toSlash_eq h]
  change Safe (if (line.dropWhile (· ≠ '/') ++ ['\x00']).head? = some '\x00' then _ else _) ↔ _
  by_cases hnil : line.dropWhile (· ≠ '/') = []
  · rw [if_pos ((head_cells hdrop).mpr hnil)]
    exact iff_of_true (safe_ok _) (hnone (by rw [hnil]; rfl))
  · rw [if_neg fun hhead => hnil ((head_cells hdrop).mp hhead), findQuote_eq hdrop]
    cases hstr : strchr '"' (line.dropWhile (· ≠ '/')) with
    | none => exact iff_of_true (safe_ok _) (hnone hstr)
    | some found =>
        obtain ⟨path, rpt⟩ := found
        have hrpt : '\x00' ∉ rpt := by
          intro hin
          rw [(strchr_eq_some hstr).1] at hdrop
          exact hdrop (List.mem_append_right _ (List.mem_cons_of_mem _ hin))
        rw [unended_iff (quoted_iff.mpr hstr)]
        simp only [bind, Except.bind, Option.map_some]
        cases hentry : findStr path list with
        | none => exact iff_of_true (safe_ok _) fun hun => findStr_none.mp hentry hun.1
        | some entry =>
            have hknown : ∃ e ∈ list, e.real = path := by
              by_contra hno
              rw [findStr_none.mpr hno] at hentry
              cases hentry
            rw [and_iff_right hknown]
            refine number_safe hrpt fun number => ?_
            split
            · exact safe_ok _
            · have hlen : path.length < (path ++ ['\x00']).length := by
                rw [List.length_append]
                exact Nat.lt_succ_self _
              obtain ⟨dty, hdty⟩ := typeOf_safe allocated hlen
              rw [hdty]
              exact safe_ok _

end Lines

/-- Every name, every target and every line. -/
theorem device_strings_safe_iff (name target line : CStr) (list : List Nms) (allocated : Bool) :
    (Safe (doSnm name.cells []) ↔ Sliced sizeofSnm name.text) ∧ (Safe (trim target.cells) ↔ target.text ≠ lname) ∧
      (Safe (pline allocated line.cells list) ↔ ¬ Unended line.text list) :=
  ⟨doSnm_safe name.nul_free, trim_safe target.nul_free, pline_safe line.nul_free⟩

/-- The name of a whole disk, the bare prefix of the links, and a last line without a newline. -/
theorem strings_overrun : doSnm "c0t0d0\x00".toList [] = .error .badRead ∧
    trim "../../devices\x00".toList = .error .badRead ∧
    pline true "\"/pci@1/sd@0\" 3 \x00".toList [⟨"/pci@1/sd@0".toList, -1, none⟩] = .error .badRead := by
  refine ⟨?_, ?_, ?_⟩ <;> decide +kernel

example : pline true "\"/pci@1/sd@0\" 3 \"sd\"\n\x00".toList [⟨"/pci@1/sd@0".toList, -1, none⟩] =
    .ok (1, [⟨"/pci@1/sd@0".toList, 3, some "sd".toList⟩]) := by
  decide +kernel

end OiUserland.HealthMonitor.DeviceStrings
