import Mathlib.Algebra.Group.Nat.Defs
import OiUserland.Lib.Regexes
import OiUserland.Lib.Runs

namespace OiUserland.SunProcesses.DeviceTable

open Lib.Runs

def dnsize : Nat := 14

def udq : Nat := 50

def sizeofDevl : Nat := 24

def strcpy (s : List Char) : List Char := s.takeWhile (· ≠ '\x00') ++ ['\x00']

/-- The array is filled up with NULs behind a shorter string. -/
def strncpy (s : List Char) (n : Nat) : List Char :=
  (s.takeWhile (· ≠ '\x00')).take n ++
    List.replicate (n - (s.takeWhile (· ≠ '\x00')).length) '\x00'

def systty : List Char := ['/', 'd', 'e', 'v', '/', 's', 'y', 's', 't', 't', 'y']

def syscon : List Char := ['/', 'd', 'e', 'v', '/', 's', 'y', 's', 'c', 'o', 'n']

def console : List Char := ['/', 'd', 'e', 'v', '/', 'c', 'o', 'n', 's', 'o', 'l', 'e']

def dnameOf (objptr : List Char) : List Char :=
  let leng := objptr.length
  if leng < dnsize + 4 then strcpy (objptr.drop 5)
  else
    let start := leng - dnsize - 1
    let i := start + ((objptr.drop start).takeWhile (· ≠ '/')).length
    if i = leng then strncpy (objptr.drop start) dnsize
    else strncpy (objptr.drop (i + 1)) dnsize

/-- A NUL stands within the array. -/
def Terminated (dname : List Char) : Prop := '\x00' ∈ dname.take dnsize

inductive Ftw
  | f
  | d
  | dnr
  | ns
  | other
  deriving DecidableEq

/-- A call of gdev(), and whether memory is got if more is asked for. -/
structure Visit where
  objptr : List Char
  numb : Ftw
  ifchr : Bool
  rdev : Nat
  allocated : Bool

structure Devl where
  dname : List Char
  dev : Nat

/-- The device table holds `capacity` entries. -/
structure DevState where
  ndev : Int
  maxdev : Nat
  capacity : Nat
  ldevl : Nat → Devl
  lndev : Nat
  consflg : Nat

def begin : DevState := ⟨0, 0, 0, fun _ => ⟨List.replicate dnsize '\x00', 0⟩, 0, 0⟩

inductive Write
  | devl (index : Int) (capacity : Nat) (entry : Devl)
  | ldevl (index : Nat) (entry : Devl)
  | loaded (index capacity : Nat) (dname : List Char)

/-- Within the array, and with a NUL. -/
def Write.Sound : Write → Prop
  | .devl index capacity entry => 0 ≤ index ∧ index < capacity ∧ Terminated entry.dname
  | .ldevl index entry => index < 2 ∧ Terminated entry.dname
  | .loaded index capacity dname => index < capacity ∧ Terminated dname

/-- The loop that makes room for `need` entries and one more. -/
def growMax : Nat → Int → Nat → Nat
  | 0, _, maxdev => maxdev
  | n + 1, need, maxdev => if need < maxdev then maxdev else growMax n need (maxdev + udq)

def makeRoom (v : Visit) (s : DevState) : Option DevState :=
  if s.ndev + s.lndev < s.maxdev then some s
  else if v.allocated then
    let maxdev := growMax ((s.ndev + s.lndev).toNat + 1) (s.ndev + s.lndev) s.maxdev
    some { s with maxdev := maxdev, capacity := maxdev }
  else none

def storeDevice (v : Visit) (s : DevState) : List Write × DevState :=
  if s.consflg = 0 ∧ (v.objptr = systty ∨ v.objptr = syscon) then
    let entry := ⟨strncpy (v.objptr.drop 5) dnsize, v.rdev⟩
    ([.ldevl s.lndev entry],
      { s with ldevl := Function.update s.ldevl s.lndev entry, lndev := s.lndev + 1 })
  else
    let stored := Write.devl s.ndev s.capacity ⟨dnameOf v.objptr, v.rdev⟩
    if v.objptr = console then
      (stored :: (List.range s.lndev).map fun i : Nat =>
          .devl (s.ndev + 1 + i) s.capacity ⟨strncpy (s.ldevl i).dname dnsize, (s.ldevl i).dev⟩,
        { s with ndev := s.ndev + 1 + s.lndev, consflg := s.consflg + 1, lndev := 0 })
    else ([stored], { s with ndev := s.ndev + 1 })

def gdev (v : Visit) (s : DevState) : List Write × Option DevState :=
  match v.numb with
  | .f =>
      if v.ifchr then
        match makeRoom v s with
        | none => ([], none)
        | some s => ((storeDevice v s).1, some (storeDevice v s).2)
      else ([], some s)
  | .d | .dnr | .ns => ([], some s)
  | .other => ([], none)

def visitAll : List Visit → DevState → List Write × Option DevState
  | [], s => ([], some s)
  | v :: visits, s =>
      match gdev v s with
      | (writes, none) => (writes, none)
      | (writes, some s) => (writes ++ (visitAll visits s).1, (visitAll visits s).2)

/-- The calls of a walk, and whether ftw() itself fails behind them. -/
structure Walk where
  visits : List Visit
  failed : Bool

def callFtwForDev (w : Walk) (s : DevState) : List Write × Option DevState :=
  let t := visitAll w.visits { s with ndev := 0 }
  (t.1, if w.failed then none else t.2)

/-- The saved file: its size and time, the times of /dev, what stands in ndev after it has been read, and the
bytes that can be read behind it. -/
structure Saved where
  opened : Bool
  stat : Option (Nat × Int)
  dev : Option (Int × Int)
  ndev : Int
  ndevRead : Bool
  allocated : Bool
  bytes : List Char

def rdOnly : Bool := false

def Saved.believed (f : Saved) : Bool :=
  match f.stat, f.dev with
  | some (size, mtime), some (devMtime, devCtime) => size ≠ 0 && devMtime < mtime && devCtime < mtime
  | _, _ => false

def Saved.wanted (f : Saved) : Nat := f.ndev.toNat * sizeofDevl % 2 ^ 32

def Saved.got (f : Saved) : List Char := f.bytes.take f.wanted

def Saved.dname (f : Saved) (i : Nat) : List Char := (f.got.drop (sizeofDevl * i)).take dnsize

def Saved.entries (f : Saved) : List Nat :=
  (List.range f.ndev.toNat).filter fun i => sizeofDevl * i < f.got.length

def readata (f : Saved) (s : DevState) : List Write × Option DevState × Bool :=
  if f.opened = false then ([], some s, false)
  else if f.believed = false ∧ rdOnly = false then ([], some s, false)
  else if f.ndevRead = false then ([], some { s with ndev := f.ndev }, false)
  else if f.allocated = false ∨ f.ndev < 0 then ([], none, false)
  else
    (f.entries.map fun i => .loaded i f.ndev.toNat (f.dname i),
      some { s with ndev := f.ndev, capacity := f.ndev.toNat }, f.got.length = f.wanted)

inductive Op
  | readata (f : Saved)
  | walk (w : Walk)

/-- There is no state behind an exit. -/
structure History where
  state : Option DevState
  log : List Write

def step (op : Op) (h : History) : Option History :=
  h.state.map fun s =>
    match op with
    | .readata f => ⟨(readata f s).2.1, h.log ++ (readata f s).1⟩
    | .walk w => ⟨(callFtwForDev w s).2, h.log ++ (callFtwForDev w s).1⟩

def devicesOf (visits : List Visit) : List (List Char) :=
  ((visits.takeWhile fun v => v.numb ≠ .other).filter fun v => v.numb = .f && v.ifchr).map Visit.objptr

def NameFits (objptr : List Char) : Prop :=
  objptr.length < dnsize + 4 ∨
    ∃ c name, objptr.drop (objptr.length - dnsize - 1) = c :: name ∧ c ≠ '/' ∧ '/' ∈ name

def pendingAfter (s : DevState) (q : List (List Char)) : Nat :=
  if s.consflg ≠ 0 ∨ console ∈ q then 0
  else s.lndev + (q.filter fun p => p = systty || p = syscon).length

/-- The names fit, systty and syscon are met twice at most until the console is, and what is stored before
memory is asked for fits into what has been got for the file that was read last. -/
structure DevicesFit (devices : List (List Char)) (s : DevState) : Prop where
  names : ∀ p ∈ devices, NameFits p
  saved : ∀ q, q <+: devices → pendingAfter s q ≤ 2
  room : ∀ q, q <+: devices → q.length + s.lndev ≤ s.maxdev →
    q.length + s.lndev ≤ s.capacity + pendingAfter s q

/-- The names in a file end with a NUL if they are read. -/
def FileFits (f : Saved) : Prop :=
  f.opened = true → f.believed = true ∨ rdOnly = true → f.ndevRead = true →
    ∀ i ∈ f.entries, Terminated (f.dname i)

def Permitted (op : Op) (h : History) : Prop :=
  ∀ s, h.state = some s →
    match op with
    | .readata f => FileFits f
    | .walk w => DevicesFit (devicesOf w.visits) s

section Stored

variable {n : Nat} {objptr s : List Char}

theorem nul_mem_strncpy (h : (s.takeWhile (· ≠ '\x00')).length < n) : '\x00' ∈ (strncpy s n).take n := by
  have hlen : (strncpy s n).length ≤ n := by
    rw [strncpy, List.length_append, List.length_take, List.length_replicate]
    omega
  rw [List.take_of_length_le hlen, strncpy]
  exact List.mem_append_right _ (List.mem_replicate.mpr ⟨by omega, rfl⟩)

theorem length_takeWhile_le (s : List Char) : (s.takeWhile (· ≠ '\x00')).length ≤ s.length :=
  (List.takeWhile_sublist _).length_le

theorem length_takeWhile_lt {c : Char} (h : c ∈ s) : (s.takeWhile (· ≠ c)).length < s.length := by
  refine lt_of_le_of_ne (List.takeWhile_sublist _).length_le fun heq => ?_
  have hself := (List.takeWhile_sublist _).eq_of_length heq
  rw [← hself] at h
  simpa using List.mem_takeWhile_imp h

theorem terminated_strcpy (h : s.length < dnsize) : Terminated (strcpy s) := by
  have hlen : (strcpy s).length ≤ dnsize := by
    rw [strcpy, List.length_append, List.length_singleton]
    exact Nat.succ_le_of_lt ((length_takeWhile_le s).trans_lt h)
  rw [Terminated, List.take_of_length_le hlen, strcpy]
  exact List.mem_append_right _ (List.mem_singleton_self _)

theorem terminated_dnameOf (h : NameFits objptr) : Terminated (dnameOf objptr) := by
  unfold dnameOf
  dsimp only
  split
  case isTrue hshort =>
      refine terminated_strcpy ?_
      rw [List.length_drop]
      unfold dnsize at *
      omega
  case isFalse hlong =>
      obtain hshort | ⟨c, name, htail, hc, hslash⟩ := h
      · exact absurd hshort hlong
      · have hlen := congrArg List.length htail
        rw [List.length_drop, List.length_cons] at hlen
        have hstop : ((c :: name).takeWhile (· ≠ '/')).length = (name.takeWhile (· ≠ '/')).length + 1 := by
          rw [List.takeWhile_cons_of_pos (by exact decide_eq_true hc), List.length_cons]
        have hslash' := length_takeWhile_lt hslash
        rw [htail, hstop, if_neg (by omega)]
        refine nul_mem_strncpy ((length_takeWhile_le _).trans_lt ?_)
        rw [List.length_drop]
        unfold dnsize at *
        omega

theorem terminated_saved (h : objptr = systty ∨ objptr = syscon) :
    Terminated (strncpy (objptr.drop 5) dnsize) ∧
      Terminated (strncpy (strncpy (objptr.drop 5) dnsize) dnsize) := by
  unfold Terminated
  rcases h with rfl | rfl <;> decide

end Stored

section Loop

variable {s t t' : DevState} {v : Visit} {visits : List Visit} {q devices : List (List Char)}
  {p : List Char}

structure Carried (s : DevState) : Prop where
  lndev : s.consflg ≠ 0 → s.lndev = 0
  saved : ∀ i < s.lndev, Terminated (strncpy (s.ldevl i).dname dnsize)

structure Along (s : DevState) (q : List (List Char)) (t : DevState) : Prop where
  ndev : 0 ≤ t.ndev
  count : t.ndev + t.lndev = q.length + s.lndev
  lndev : t.lndev = pendingAfter s q
  consflg : t.consflg ≠ 0 ↔ s.consflg ≠ 0 ∨ console ∈ q
  saved : ∀ i < t.lndev, Terminated (strncpy (t.ldevl i).dname dnsize)
  room : t.capacity = t.maxdev ∨ t.capacity = s.capacity ∧ t.maxdev = s.maxdev

theorem Carried.along (h : Carried s) : Along s [] { s with ndev := 0 } := by
  refine ⟨Int.le_refl 0, ?_, ?_, ?_, h.saved, .inr ⟨rfl, rfl⟩⟩
  · rfl
  · by_cases hflag : s.consflg = 0
    · rw [pendingAfter, if_neg (by simp [hflag])]
      rfl
    · rw [pendingAfter, if_pos (.inl hflag)]
      exact h.lndev hflag
  · simp

theorem Along.carried (h : Along s q t) : Carried t :=
  ⟨fun hflag => h.lndev.trans (if_pos (h.consflg.mp hflag)), h.saved⟩

theorem growMax_gt (n : Nat) (need : Int) (maxdev : Nat) (h : need < maxdev + udq * n) :
    need < growMax n need maxdev := by
  induction n generalizing maxdev with
  | zero => simpa [growMax] using h
  | succ n ih =>
      rw [growMax]
      split
      · assumption
      · apply ih
        unfold udq at *
        omega

theorem pendingAfter_concat_other
    (hsaved : ¬ (s.consflg ≠ 0 ∨ console ∈ q) → ¬ (p = systty ∨ p = syscon)) (hconsole : p ≠ console) :
    pendingAfter s (q ++ [p]) = pendingAfter s q := by
  have hlast : (s.consflg ≠ 0 ∨ console ∈ q ++ [p]) ↔ (s.consflg ≠ 0 ∨ console ∈ q) := by
    rw [List.mem_append, List.mem_singleton, or_iff_left hconsole.symm]
  unfold pendingAfter
  by_cases hfirst : s.consflg ≠ 0 ∨ console ∈ q
  · rw [if_pos hfirst, if_pos (hlast.mpr hfirst)]
  · rw [if_neg hfirst, if_neg (hlast.not.mpr hfirst), List.filter_append]
    simp [not_or.mp (hsaved hfirst)]

theorem pendingAfter_concat_console : pendingAfter s (q ++ [console]) = 0 := by
  simp [pendingAfter]

theorem pendingAfter_concat_saved (hsaved : p = systty ∨ p = syscon)
    (hfirst : ¬ (s.consflg ≠ 0 ∨ console ∈ q)) : pendingAfter s (q ++ [p]) = pendingAfter s q + 1 := by
  have hconsole : console ≠ p := by
    rcases hsaved with rfl | rfl <;> decide
  have hlast : ¬ (s.consflg ≠ 0 ∨ console ∈ q ++ [p]) := by
    simpa [hconsole] using hfirst
  rw [pendingAfter, pendingAfter, if_neg hlast, if_neg hfirst, List.filter_append, List.length_append]
  rcases hsaved with rfl | rfl <;> rfl

theorem Along.makeRoom (h : Along s q t) (hroom : makeRoom v t = some t') :
    Along s q t' ∧ t'.ndev + t'.lndev < t'.maxdev := by
  unfold DeviceTable.makeRoom at hroom
  split at hroom
  case isTrue hlt =>
      obtain rfl := Option.some.inj hroom
      exact ⟨h, hlt⟩
  case isFalse hge =>
      split at hroom
      case isTrue =>
          obtain rfl := Option.some.inj hroom
          refine ⟨⟨h.ndev, h.count, h.lndev, h.consflg, h.saved, .inl rfl⟩, growMax_gt _ _ _ ?_⟩
          change t.ndev + t.lndev < t.maxdev + ((udq * ((t.ndev + t.lndev).toNat + 1) : Nat) : Int)
          unfold udq
          omega
      case isFalse => cases hroom

theorem Along.fits (h : Along s q t) (hfits : DevicesFit devices s) (hq : q ++ [p] <+: devices)
    (hroom : t.ndev + t.lndev < t.maxdev) : t.ndev + t.lndev + 1 ≤ t.capacity + pendingAfter s (q ++ [p]) := by
  have hcount := h.count
  obtain hcap | ⟨hcap, hmax⟩ := h.room
  · omega
  · have hlen : (q ++ [p]).length = q.length + 1 := List.length_append
    have hfit := hfits.room _ hq (by omega)
    omega

theorem Along.storeSaved (h : Along s q t) (hsaved : v.objptr = systty ∨ v.objptr = syscon)
    (hflag : t.consflg = 0) (htwo : pendingAfter s (q ++ [v.objptr]) ≤ 2) :
    (∀ x ∈ (storeDevice v t).1, x.Sound) ∧ Along s (q ++ [v.objptr]) (storeDevice v t).2 := by
  have hfirst : ¬ (s.consflg ≠ 0 ∨ console ∈ q) := fun hlast => h.consflg.mpr hlast hflag
  have hpending := pendingAfter_concat_saved hsaved hfirst
  have hname := terminated_saved hsaved
  rw [DeviceTable.storeDevice, if_pos ⟨hflag, hsaved⟩]
  refine ⟨?_, h.ndev, ?_, ?_, ?_, ?_, h.room⟩
  · rintro x hx
    obtain rfl := List.mem_singleton.mp hx
    have hlndev := h.lndev
    exact ⟨by omega, hname.1⟩
  · have hcount := h.count
    simp only [List.length_append, List.length_singleton]
    omega
  · rw [hpending, ← h.lndev]
  · have hconsole : console ≠ v.objptr := by
      rcases hsaved with heq | heq <;> rw [heq] <;> decide
    rw [List.mem_append, List.mem_singleton, or_iff_left hconsole]
    exact h.consflg
  · intro i hi
    rcases Nat.lt_succ_iff_lt_or_eq.mp hi with hlt | rfl
    · dsimp only
      rw [Function.update_of_ne hlt.ne]
      exact h.saved i hlt
    · dsimp only
      rw [Function.update_self]
      exact hname.2

theorem Along.storeConsole (h : Along s q t) (hconsole : v.objptr = console)
    (hcap : t.ndev + t.lndev + 1 ≤ t.capacity) :
    (∀ x ∈ (storeDevice v t).1, x.Sound) ∧ Along s (q ++ [console]) (storeDevice v t).2 := by
  have hndev := h.ndev
  have hcount := h.count
  have hother : ¬ (t.consflg = 0 ∧ (v.objptr = systty ∨ v.objptr = syscon)) := by
    rw [hconsole]
    rintro ⟨-, heq | heq⟩ <;> revert heq <;> decide
  rw [DeviceTable.storeDevice, if_neg hother, if_pos hconsole]
  refine ⟨?_, ?_, ?_, pendingAfter_concat_console.symm, ?_, fun i hi => absurd hi (Nat.not_lt_zero i), h.room⟩
  · intro x hx
    rcases List.mem_cons.mp hx with rfl | hx
    · refine ⟨hndev, by omega, ?_⟩
      rw [hconsole]
      exact terminated_strcpy (by decide)
    · obtain ⟨i, hi, rfl⟩ := List.mem_map.mp hx
      have hlt := List.mem_range.mp hi
      exact ⟨by omega, by omega, h.saved i hlt⟩
  · change 0 ≤ t.ndev + 1 + t.lndev
    omega
  · simp only [List.length_append, List.length_singleton]
    omega
  · simp

theorem Along.storeOther (h : Along s q t)
    (hsaved : ¬ (t.consflg = 0 ∧ (v.objptr = systty ∨ v.objptr = syscon))) (hconsole : v.objptr ≠ console)
    (hname : NameFits v.objptr) (hfit : t.ndev + t.lndev + 1 ≤ t.capacity + pendingAfter s (q ++ [v.objptr])) :
    (∀ x ∈ (storeDevice v t).1, x.Sound) ∧ Along s (q ++ [v.objptr]) (storeDevice v t).2 := by
  have hndev := h.ndev
  have hcount := h.count
  have hpending : pendingAfter s (q ++ [v.objptr]) = pendingAfter s q :=
    pendingAfter_concat_other
      (fun hfirst heq => hsaved ⟨not_ne_iff.mp (h.consflg.not.mpr hfirst), heq⟩) hconsole
  have hlndev := h.lndev
  rw [DeviceTable.storeDevice, if_neg hsaved, if_neg hconsole]
  refine ⟨?_, ?_, ?_, ?_, ?_, h.saved, h.room⟩
  · intro x hx
    obtain rfl := List.mem_singleton.mp hx
    exact ⟨hndev, by omega, terminated_dnameOf hname⟩
  · change 0 ≤ t.ndev + 1
    omega
  · simp only [List.length_append, List.length_singleton]
    omega
  · exact hlndev.trans hpending.symm
  · rw [List.mem_append, List.mem_singleton, or_iff_left hconsole.symm]
    exact h.consflg

theorem Along.gdev (h : Along s q t) (hdev : v.numb = .f) (hchr : v.ifchr = true) (hfits : DevicesFit devices s)
    (hq : q ++ [v.objptr] <+: devices) :
    (∀ x ∈ (gdev v t).1, x.Sound) ∧ ∀ t', (gdev v t).2 = some t' → Along s (q ++ [v.objptr]) t' := by
  unfold DeviceTable.gdev
  rw [hdev]
  dsimp only
  rw [if_pos hchr]
  cases hroom : DeviceTable.makeRoom v t with
  | none => exact ⟨List.forall_mem_nil _, nofun⟩
  | some t₁ =>
      obtain ⟨h₁, hlt⟩ := h.makeRoom hroom
      have hfit := h₁.fits hfits hq hlt
      suffices hstore : (∀ x ∈ (storeDevice v t₁).1, x.Sound) ∧
          Along s (q ++ [v.objptr]) (storeDevice v t₁).2 from
        ⟨hstore.1, fun t' heq => Option.some.inj heq ▸ hstore.2⟩
      by_cases hsaved : t₁.consflg = 0 ∧ (v.objptr = systty ∨ v.objptr = syscon)
      · exact h₁.storeSaved hsaved.2 hsaved.1 (hfits.saved _ hq)
      · by_cases hconsole : v.objptr = console
        · rw [hconsole, pendingAfter_concat_console] at hfit
          exact hconsole ▸ h₁.storeConsole hconsole (by omega)
        · have hname := hfits.names _ (hq.subset (List.mem_append_right _ (List.mem_singleton_self _)))
          exact h₁.storeOther hsaved hconsole hname hfit

theorem devicesOf_device (hdev : v.numb = .f) (hchr : v.ifchr = true) :
    devicesOf (v :: visits) = v.objptr :: devicesOf visits := by
  simp [devicesOf, hdev, hchr]

theorem devicesOf_skip (hother : v.numb ≠ .other) (hdev : ¬ (v.numb = .f ∧ v.ifchr = true)) :
    devicesOf (v :: visits) = devicesOf visits := by
  have hskip : (decide (v.numb = .f) && v.ifchr) = false := by
    simpa using hdev
  simp [devicesOf, hother, hskip]

theorem gdev_skip (hother : v.numb ≠ .other) (hdev : ¬ (v.numb = .f ∧ v.ifchr = true)) :
    gdev v t = ([], some t) := by
  unfold DeviceTable.gdev
  cases hnumb : v.numb with
  | f => exact if_neg fun hchr => hdev ⟨hnumb, hchr⟩
  | other => exact absurd hnumb hother
  | d => rfl
  | dnr => rfl
  | ns => rfl

theorem Along.visitAll (h : Along s q t) (hfits : DevicesFit (q ++ devicesOf visits) s) :
    (∀ x ∈ (visitAll visits t).1, x.Sound) ∧ ∀ t', (visitAll visits t).2 = some t' → ∃ q', Along s q' t' := by
  induction visits generalizing q t with
  | nil => exact ⟨List.forall_mem_nil _, fun t' heq => ⟨q, Option.some.inj heq ▸ h⟩⟩
  | cons v visits ih =>
      rw [DeviceTable.visitAll]
      by_cases hother : v.numb = .other
      · have hgdev : DeviceTable.gdev v t = ([], none) := by
          rw [DeviceTable.gdev, hother]
        rw [hgdev]
        exact ⟨List.forall_mem_nil _, nofun⟩
      · by_cases hdev : v.numb = .f ∧ v.ifchr = true
        · rw [devicesOf_device hdev.1 hdev.2, ← List.singleton_append, ← List.append_assoc] at hfits
          obtain ⟨hwrites, hnext⟩ := h.gdev hdev.1 hdev.2 hfits (List.prefix_append _ _)
          cases hgdev : DeviceTable.gdev v t with
          | mk writes t₁ =>
              rw [hgdev] at hwrites hnext
              cases t₁ with
              | none => exact ⟨hwrites, nofun⟩
              | some t₁ =>
                  obtain ⟨hrest, hend⟩ := ih (hnext t₁ rfl) hfits
                  exact ⟨fun x hx => (List.mem_append.mp hx).elim (hwrites x) (hrest x), hend⟩
        · rw [devicesOf_skip hother hdev] at hfits
          rw [gdev_skip hother hdev]
          exact ih h hfits

end Loop

section Results

variable {h h' : History} {s : DevState} {f : Saved} {w : Walk}

structure Inv (h : History) : Prop where
  carried : ∀ s, h.state = some s → Carried s
  sound : ∀ x ∈ h.log, x.Sound

theorem Carried.walk (h : Carried s) (hfits : DevicesFit (devicesOf w.visits) s) :
    (∀ x ∈ (callFtwForDev w s).1, x.Sound) ∧ ∀ s', (callFtwForDev w s).2 = some s' → Carried s' := by
  obtain ⟨hwrites, hend⟩ := h.along.visitAll hfits
  refine ⟨hwrites, fun s' heq => ?_⟩
  rw [callFtwForDev] at heq
  dsimp only at heq
  split at heq
  · cases heq
  · obtain ⟨q, hq⟩ := hend s' heq
    exact hq.carried

theorem Carried.readata (h : Carried s) (hfits : FileFits f) :
    (∀ x ∈ (readata f s).1, x.Sound) ∧ ∀ s', (readata f s).2.1 = some s' → Carried s' := by
  unfold DeviceTable.readata
  split
  case isTrue => exact ⟨List.forall_mem_nil _, fun s' heq => Option.some.inj heq ▸ h⟩
  case isFalse hopened =>
      split
      case isTrue => exact ⟨List.forall_mem_nil _, fun s' heq => Option.some.inj heq ▸ h⟩
      case isFalse hbelieved =>
          have hbelieved : f.believed = true ∨ rdOnly = true := by
            simpa [Classical.or_iff_not_imp_left] using hbelieved
          split
          case isTrue =>
              exact ⟨List.forall_mem_nil _, fun s' heq => Option.some.inj heq ▸ ⟨h.lndev, h.saved⟩⟩
          case isFalse hread =>
              split
              case isTrue => exact ⟨List.forall_mem_nil _, nofun⟩
              case isFalse =>
                  refine ⟨fun x hx => ?_, fun s' heq => Option.some.inj heq ▸ ⟨h.lndev, h.saved⟩⟩
                  obtain ⟨i, hi, rfl⟩ := List.mem_map.mp hx
                  refine ⟨List.mem_range.mp (List.mem_of_mem_filter hi), ?_⟩
                  exact hfits (eq_true_of_ne_false hopened) hbelieved (eq_true_of_ne_false hread) i hi

theorem inv_step {op : Op} (hinv : Inv h) (hok : Permitted op h) (hrun : step op h = some h') : Inv h' := by
  obtain ⟨s, hs, rfl⟩ := Option.map_eq_some_iff.mp hrun
  have hcarried := hinv.carried s hs
  have hok := hok s hs
  cases op with
  | readata f =>
      obtain ⟨hwrites, hend⟩ := hcarried.readata hok
      exact ⟨hend, fun x hx => (List.mem_append.mp hx).elim (hinv.sound x) (hwrites x)⟩
  | walk w =>
      obtain ⟨hwrites, hend⟩ := hcarried.walk hok
      exact ⟨hend, fun x hx => (List.mem_append.mp hx).elim (hinv.sound x) (hwrites x)⟩

theorem inv_begin : Inv ⟨some begin, []⟩ :=
  ⟨fun _ hs => Option.some.inj hs ▸ ⟨fun _ => rfl, fun i hi => absurd hi (Nat.not_lt_zero i)⟩,
    List.forall_mem_nil _⟩

/-- In a run of permitted steps every write is within its array, and every name is stored with a NUL. -/
theorem device_table (hr : Reachable step Permitted (· = ⟨some begin, []⟩) h) : ∀ x ∈ h.log, x.Sound := by
  refine Inv.sound (hr.invariant Inv ?_ fun op h h' hinv hok hrun => inv_step hinv hok hrun)
  rintro _ rfl
  exact inv_begin

end Results

def device (objptr : List Char) : Visit := ⟨objptr, .f, true, 0, true⟩

def ptmx : Saved :=
  ⟨true, some (28, 9), some (5, 5), 1, true, true, ['p', 't', 'm', 'x'] ++ List.replicate 20 '\x00'⟩

def consoleWalk : Walk := ⟨[device systty, device console], false⟩

/-- The file is read, and systty is stored behind the console. -/
theorem device_table_console : ∃ h, exec step [.readata ptmx, .walk consoleWalk] ⟨some begin, []⟩ = some h ∧
    h.log.length = 4 ∧ ∀ x ∈ h.log, x.Sound := by
  have hfile : FileFits ptmx := by
    unfold FileFits Terminated
    decide
  have hwalk : DevicesFit (devicesOf consoleWalk.visits) { begin with ndev := 1, capacity := 1 } := by
    refine ⟨fun p hp => .inl ?_, fun q hq => ?_, fun q _ hlen => ?_⟩
    · revert p
      decide
    · rw [← List.mem_inits] at hq
      revert q
      decide
    · have hzero : q.length = 0 := Nat.le_zero.mp hlen
      rw [hzero]
      exact Nat.zero_le _
  refine ⟨_, rfl, ?_, device_table ?_⟩
  · decide
  · refine .next (.walk consoleWalk) (.next (.readata ptmx) (.start rfl) ?_ rfl) ?_ rfl
    · exact fun _ _ => hfile
    · exact fun s hs => Option.some.inj hs ▸ hwalk

def longName : Walk := ⟨[device ("/dev/".toList ++ List.replicate 14 'a')], false⟩

/-- No NUL is stored behind the name. -/
theorem name_unterminated : ¬ ∀ h, Reachable step (fun _ _ => True) (· = ⟨some begin, []⟩) h →
    ∀ x ∈ h.log, x.Sound := by
  intro hall
  have hmem := hall _ (reachable_of_exec [.walk longName] (fun _ _ _ => trivial) (.start rfl) rfl) _
    (List.mem_singleton_self _)
  revert hmem
  unfold Write.Sound Terminated
  decide

end OiUserland.SunProcesses.DeviceTable
