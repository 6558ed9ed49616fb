import OiUserland.Lib.Segments
import OiUserland.HealthMonitor.DiskNames

namespace OiUserland.HealthMonitor.Iostat

open Lib.Chains DiskNames

abbrev Addr := Nat

/-- What is read of a kstat_t. -/
structure KStat where
  ksType : Nat
  ksClass : List Char
  ksModule : List Char
  ksInstance : Int
  ksName : List Char
  isInt : -2 ^ 31 ≤ ksInstance ∧ ksInstance < 2 ^ 31
  deriving DecidableEq

/-- A node of the list of disks. The device name is a pointer of some kind. -/
structure DiskInfo (ν : Type) where
  next : Addr
  ks : Option KStat
  selected : Bool
  cls : Int
  deviceName : Option ν

structure Chain (ν : Type) where
  kcChain : List KStat
  dl : Bool
  lookup : List Char → Option ν

structure IoState (ν : Type) where
  heap : Heap (DiskInfo ν)
  next : Addr
  firstdisk : Addr
  lastdisk : Addr
  snip : Addr
  refreshDiskdetail : Bool
  refreshDisksrv : Bool

def kstatTypeIO : Nat := 3

def ioClass : List (List Char × Int) := [(['d', 'i', 's', 'k'], 0), ("partition".toList, 0)]

def doPartitions : Bool := false

def doPartitionsOnly : Bool := false

def limit : Nat := 0

def zerodisk : Addr := 1

variable {ν : Type}

def zeroed : DiskInfo ν := ⟨0, none, false, 0, none⟩

def start : IoState ν := ⟨AList.insert zerodisk zeroed ∅, 2, 0, 0, 0, false, false⟩

def sign : Ordering → Int
  | .lt => -1
  | .eq => 0
  | .gt => 1

/-- The instances are subtracted as ints. `chars` is the string that a device name leads to. -/
def kscmp (chars : ν → List Char) (ks1 ks2 : DiskInfo ν) : Option Int := do
  if ks1.cls - ks2.cls ≠ 0 then some (ks1.cls - ks2.cls)
  else
    let k1 ← ks1.ks
    let k2 ← ks2.ks
    let cmp := sign (strcmp k1.ksModule k2.ksModule)
    if cmp ≠ 0 then some cmp
    else
      let cmp := (k1.ksInstance - k2.ksInstance).bmod (2 ^ 32)
      if cmp ≠ 0 then some cmp
      else
        match ks1.deviceName, ks2.deviceName with
        | some n1, some n2 => some (sign (strcmp (chars n1) (chars n2)))
        | _, _ => some (sign (strcmp k1.ksName k2.ksName))

def priority (ksp : KStat) : Option Int :=
  if ksp.ksType ≠ kstatTypeIO then none
  else
    match ioClass.find? fun c => ksp.ksClass = c.1 with
    | none => none
    | some (_, classPriority) =>
        if doPartitionsOnly ∧ ksp.ksClass = ['d', 'i', 's', 'k'] then none
        else if ¬ doPartitions ∧ ¬ doPartitionsOnly ∧ ksp.ksClass = "partition".toList then none
        else if ksp.ksName = ['f', 'd', '0'] then none
        else some classPriority

def setNext (heap : Heap (DiskInfo ν)) (a next : Addr) : Option (Heap (DiskInfo ν)) := do
  let d ← heap.lookup a
  some (heap.insert a { d with next := next })

def search (chars : ν → List Char) (heap : Heap (DiskInfo ν)) (disk : Addr) : Nat → Addr → Option (Addr × List Addr)
  | 0, _ => none
  | n + 1, comp => do
      let c ← heap.lookup comp
      let d ← heap.lookup disk
      let e ← heap.lookup c.next
      let cmp ← kscmp chars d e
      if 0 < cmp then
        let (found, compared) ← search chars heap disk n c.next
        some (found, c.next :: compared)
      else some (comp, [c.next])

structure Cursor (ν : Type) where
  heap : Heap (DiskInfo ν)
  next : Addr
  disk : Addr

def takeNode (c : Cursor ν) : Option (Cursor ν) := do
  let d ← c.heap.lookup c.disk
  if d.next ≠ 0 then some { c with disk := d.next }
  else
    let heap ← setNext (c.heap.insert c.next zeroed) c.disk c.next
    some ⟨heap, c.next + 1, c.next⟩

def fillNode (x : Chain ν) (ksp : KStat) (classPriority : Int) (c : Cursor ν) : Option (Cursor ν) := do
  let d ← c.heap.lookup c.disk
  let deviceName :=
    if x.dl then if ksp.ksClass ≠ "nfs".toList then x.lookup ksp.ksName else d.deviceName else none
  some { c with heap := c.heap.insert c.disk { d with ks := some ksp, deviceName := deviceName, cls := classPriority } }

def moveNode (prevdisk comp : Addr) (c : Cursor ν) : Option (Cursor ν) :=
  if prevdisk ≠ comp then do
    let d ← c.heap.lookup c.disk
    let heap ← setNext c.heap prevdisk d.next
    let e ← heap.lookup comp
    let heap ← setNext heap c.disk e.next
    let heap ← setNext heap comp c.disk
    some ⟨heap, c.next, prevdisk⟩
  else some c

/-- A search for the place of a disk: the disk, and the nodes it has been compared with. -/
structure Search where
  disk : Addr
  compared : List Addr

def addDisk (chars : ν → List Char) (x : Chain ν) (t : Cursor ν × List Search) (ksp : KStat) :
    Option (Cursor ν × List Search) :=
  match priority ksp with
  | none => some t
  | some classPriority => do
      let prevdisk := t.1.disk
      let c ← takeNode t.1
      let c ← fillNode x ksp classPriority c
      let (comp, compared) ← search chars c.heap c.disk (c.heap.keys.length + 1) zerodisk
      let c' ← moveNode prevdisk comp c
      some (c', t.2 ++ [⟨c.disk, compared⟩])

def deselectFrom : Nat → Addr → Heap (DiskInfo ν) → Option (Heap (DiskInfo ν))
  | 0, _, _ => none
  | n + 1, disk, heap =>
      if disk = 0 then some heap
      else do
        let d ← heap.lookup disk
        deselectFrom n d.next (heap.insert disk { d with selected := false })

def selectFrom : Nat → Addr → Nat → Heap (DiskInfo ν) → Option (Heap (DiskInfo ν))
  | 0, _, _, _ => none
  | n + 1, disk, ndrives, heap =>
      if disk = 0 then some heap
      else do
        let d ← heap.lookup disk
        if d.selected then selectFrom n d.next ndrives heap
        else if limit ≠ 0 ∧ limit ≤ ndrives then some heap
        else selectFrom n d.next (ndrives + 1) (heap.insert disk { d with selected := true })

def selectDisks (s : IoState ν) : Option (IoState ν) := do
  let heap ← deselectFrom (s.heap.keys.length + 1) s.firstdisk s.heap
  let heap ← selectFrom (heap.keys.length + 1) s.firstdisk 0 heap
  some { s with heap := heap }

def clipTail (s : IoState ν) : Option (Heap (DiskInfo ν)) :=
  if s.snip ≠ 0 then setNext s.heap s.lastdisk s.snip else some s.heap

def initDisks (chars : ν → List Char) (x : Chain ν) (s : IoState ν) : Option (IoState ν × List Search) := do
  let heap ← clipTail s
  let (c, searches) ← x.kcChain.foldlM (addDisk chars x) (⟨heap, s.next, zerodisk⟩, [])
  let d ← c.heap.lookup c.disk
  let heap := c.heap.insert c.disk { d with next := 0 }
  let z ← heap.lookup zerodisk
  let s ← selectDisks ⟨heap, c.next, z.next, c.disk, d.next, true, true⟩
  some (s, searches)

section Order

variable {chars : ν → List Char} {x : Chain ν} {k k' : KStat}

theorem sign_strcmp (a b : List Char) : sign (strcmp a b) = 0 ↔ a = b := by
  rw [← strcmp_eq]
  cases strcmp a b with
  | eq => exact iff_of_true rfl rfl
  | lt => exact iff_of_false (by decide) nofun
  | gt => exact iff_of_false (by decide) nofun

theorem sign_strcmp_neg (a b : List Char) : sign (strcmp a b) < 0 ↔ a < b := by
  rw [← strcmp_lt]
  cases strcmp a b with
  | lt => exact iff_of_true (by decide) rfl
  | eq => exact iff_of_false (by decide) nofun
  | gt => exact iff_of_false (by decide) nofun

theorem sign_strcmp_swap (a b : List Char) (h : 0 < sign (strcmp a b)) : sign (strcmp b a) < 0 := by
  rw [sign_strcmp_neg]
  refine lt_of_le_of_ne (le_of_not_gt fun hlt => ?_) fun heq => ?_
  · have hneg := (sign_strcmp_neg a b).mpr hlt
    omega
  · have hzero := (sign_strcmp a b).mpr heq.symm
    omega

def Chain.nameOf (x : Chain ν) (k : KStat) : Option ν := if x.dl then x.lookup k.ksName else none

def Chain.nodeOf (x : Chain ν) (k : KStat) : DiskInfo ν := ⟨0, some k, false, 0, x.nameOf k⟩

def Chain.nameOrder (chars : ν → List Char) (x : Chain ν) (k k' : KStat) : Int :=
  match x.nameOf k, x.nameOf k' with
  | some n, some n' => sign (strcmp (chars n) (chars n'))
  | _, _ => sign (strcmp k.ksName k'.ksName)

/-- The result of kscmp() for the nodes of two kstats. -/
def Chain.order (chars : ν → List Char) (x : Chain ν) (k k' : KStat) : Int :=
  if sign (strcmp k.ksModule k'.ksModule) ≠ 0 then sign (strcmp k.ksModule k'.ksModule)
  else if (k.ksInstance - k'.ksInstance).bmod (2 ^ 32) ≠ 0 then (k.ksInstance - k'.ksInstance).bmod (2 ^ 32)
  else x.nameOrder chars k k'

theorem kscmp_nodeOf (chars : ν → List Char) (x : Chain ν) (k k' : KStat) :
    kscmp chars (x.nodeOf k) (x.nodeOf k') = some (x.order chars k k') := by
  unfold kscmp Chain.order Chain.nameOrder
  rw [if_neg fun h => h (Int.sub_self 0), apply_ite some, apply_ite some]
  simp only [Chain.nodeOf]
  cases x.nameOf k with
  | none => rfl
  | some n =>
      cases x.nameOf k' with
      | none => rfl
      | some n' => rfl

theorem order_self (chars : ν → List Char) (x : Chain ν) (k : KStat) : x.order chars k k = 0 := by
  unfold Chain.order Chain.nameOrder
  rw [(sign_strcmp _ _).mpr rfl, Int.sub_self, if_neg (not_not.mpr rfl), if_neg (by decide)]
  cases x.nameOf k with
  | none => exact (sign_strcmp _ _).mpr rfl
  | some n => exact (sign_strcmp _ _).mpr rfl

theorem bmod_swap {i j : Int} (h : 0 < (i - j).bmod (2 ^ 32)) : (j - i).bmod (2 ^ 32) < 0 := by
  rw [Int.bmod_def] at *
  split_ifs at * <;> omega

theorem bmod_zero {i j : Int} (h : (i - j).bmod (2 ^ 32) = 0) : (j - i).bmod (2 ^ 32) = 0 := by
  rw [Int.bmod_def] at *
  split_ifs at * <;> omega

theorem nameOrder_swap (h : 0 < x.nameOrder chars k k') : x.nameOrder chars k' k < 0 := by
  unfold Chain.nameOrder at *
  cases hk : x.nameOf k with
  | none =>
      rw [hk] at h
      cases hk' : x.nameOf k' with
      | none => exact sign_strcmp_swap _ _ h
      | some n' => exact sign_strcmp_swap _ _ h
  | some n =>
      rw [hk] at h
      cases hk' : x.nameOf k' with
      | none =>
          rw [hk'] at h
          exact sign_strcmp_swap _ _ h
      | some n' =>
          rw [hk'] at h
          exact sign_strcmp_swap _ _ h

theorem order_swap (h : 0 < x.order chars k k') : x.order chars k' k < 0 := by
  unfold Chain.order at *
  by_cases hmodule : k.ksModule = k'.ksModule
  · rw [(sign_strcmp _ _).mpr hmodule, if_neg (not_not.mpr rfl)] at h
    rw [(sign_strcmp _ _).mpr hmodule.symm, if_neg (not_not.mpr rfl)]
    by_cases hinstance : (k.ksInstance - k'.ksInstance).bmod (2 ^ 32) = 0
    · rw [if_neg (not_not.mpr hinstance)] at h
      rw [if_neg (not_not.mpr (bmod_zero hinstance))]
      exact nameOrder_swap h
    · rw [if_pos hinstance] at h
      have hback := bmod_swap h
      rw [if_pos hback.ne]
      exact hback
  · rw [if_pos (mt (sign_strcmp _ _).mp hmodule)] at h
    rw [if_pos (mt (sign_strcmp _ _).mp (Ne.symm hmodule))]
    exact sign_strcmp_swap _ _ h

def Fits (k k' : KStat) : Prop := -2 ^ 31 ≤ k.ksInstance - k'.ksInstance ∧ k.ksInstance - k'.ksInstance < 2 ^ 31

def Differ (k k' : KStat) : Prop := k.ksModule ≠ k'.ksModule ∨ k.ksInstance ≠ k'.ksInstance

theorem order_ne_zero (h : Differ k k') : x.order chars k k' ≠ 0 := by
  unfold Chain.order
  by_cases hmodule : k.ksModule = k'.ksModule
  · have hinstance := h.resolve_left (not_not.mpr hmodule)
    have hdiff : (k.ksInstance - k'.ksInstance).bmod (2 ^ 32) ≠ 0 := by
      have hk := k.isInt
      have hk' := k'.isInt
      rw [Int.bmod_def]
      split_ifs <;> omega
    rw [(sign_strcmp _ _).mpr hmodule, if_neg (not_not.mpr rfl), if_pos hdiff]
    exact hdiff
  · have hdiff := mt (sign_strcmp _ _).mp hmodule
    rw [if_pos hdiff]
    exact hdiff

def Less (k k' : KStat) : Prop := k.ksModule < k'.ksModule ∨ k.ksModule = k'.ksModule ∧ k.ksInstance < k'.ksInstance

theorem Less.trans {k₁ k₂ k₃ : KStat} (h : Less k₁ k₂) (h' : Less k₂ k₃) : Less k₁ k₃ := by
  rcases h with hlt | ⟨heq, hlt⟩
  · rcases h' with hlt' | ⟨heq', -⟩
    · exact .inl (hlt.trans hlt')
    · exact .inl (heq' ▸ hlt)
  · rcases h' with hlt' | ⟨heq', hlt'⟩
    · exact .inl (heq ▸ hlt')
    · exact .inr ⟨heq.trans heq', hlt.trans hlt'⟩

theorem order_fits (hfits : Fits k k') (hne : Differ k k') : x.order chars k k' < 0 ↔ Less k k' := by
  unfold Chain.order Less
  by_cases hmodule : k.ksModule = k'.ksModule
  · have hinstance := hne.resolve_left (not_not.mpr hmodule)
    have hdiff : (k.ksInstance - k'.ksInstance).bmod (2 ^ 32) = k.ksInstance - k'.ksInstance :=
      Int.bmod_eq_of_le (by have := hfits.1; omega) (by have := hfits.2; omega)
    rw [(sign_strcmp _ _).mpr hmodule, if_neg (not_not.mpr rfl), hdiff, if_pos fun h => hinstance (Int.sub_eq_zero.mp h), hmodule,
      and_iff_right rfl, or_iff_right (lt_irrefl _)]
    omega
  · rw [if_pos (mt (sign_strcmp _ _).mp hmodule), sign_strcmp_neg]
    exact (or_iff_left fun h => hmodule h.1).symm

end Order

end OiUserland.HealthMonitor.Iostat
