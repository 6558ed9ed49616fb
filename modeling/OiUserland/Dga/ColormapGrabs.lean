import Mathlib.Algebra.GroupWithZero.Nat
import Mathlib.Data.List.Nodup
import OiUserland.Lib.RefCounts

namespace OiUserland.Dga.ColormapGrabs

open Lib

abbrev Fd := Nat

abbrev Addr := Nat

abbrev Token := BitVec 32

def CMMAGIC : BitVec 64 := 0x434d4150

def CM_LOCKDEV : Int := 0

def CM_WINLOCK : Int := 1

def CM_PAGESZ : Int := 8192

structure Grabbedcmap where
  magic : BitVec 64
  version : Int
  reallen : BitVec 32
  shadowofs : BitVec 64
  locktype : Int
  lockdevname : String
  default : Bool
  sunwindows_def_devname : String
  sunwindows_inst_devname : String

def Grabbedcmap.filelen (infop : Grabbedcmap) : Int :=
  (infop.shadowofs.truncate 32 + 3#32 * infop.reallen * 2#32 + 4#32 * infop.reallen).toInt

def Grabbedcmap.lock (infop : Grabbedcmap) : Int := if 1 ≤ infop.version then infop.locktype else CM_LOCKDEV

structure Mapping where
  len : Int
  page : Option Grabbedcmap

structure Sys where
  mapped : Addr → Option Mapping
  opened : Fd → Bool
  devlist : List (RefCounts.Entry (String × Fd))
  lock_fd : Option Fd
  pagesize : Int

structure Cmap where
  token : Token
  grab_count : Nat
  info : Option Addr
  infofd : Option Fd
  devfd : Option Fd
  lockfd : Option Fd
  lockp : Option Addr
  unlockp : Option Addr
  sunwindows_def_fd : Option Fd
  sunwindows_inst_fd : Option Fd

def Cmap.new : Cmap := ⟨0, 1, none, none, none, none, none, none, none, none⟩

structure State where
  cmaps : Addr → Option Cmap
  grabbed_list : List Addr
  sys : Sys

/-- What the steps of a grab meet. A lock device is opened under either of its names, and once more
where the clean-up needs it. -/
structure Outcomes where
  calloc : Option Addr
  openInfo : Option Fd
  readInfo : Option Grabbedcmap
  mmapInfo : Option Addr
  openDevice : Option Fd
  openLock : Option Fd
  openWinlock : Option Fd
  openWinlockAgain : Option Fd
  mmapLock : Option Addr
  mmapUnlock : Option Addr
  openDef : Option Fd
  mallocDef : Bool
  openInst : Option Fd
  mallocInst : Bool

def mmap (a : Addr) (m : Mapping) (sys : Sys) : Sys := { sys with mapped := Function.update sys.mapped a (some m) }

def munmap (a : Addr) (len : Int) (sys : Sys) : Option Sys :=
  if (sys.mapped a).map Mapping.len = some len then some { sys with mapped := Function.update sys.mapped a none }
  else none

def openFd (fd : Fd) (sys : Sys) : Sys := { sys with opened := Function.update sys.opened fd true }

def closeFd (fd : Fd) (sys : Sys) : Option Sys :=
  if sys.opened fd = true then some { sys with opened := Function.update sys.opened fd false } else none

def ifSet {α : Type} (f : α → Sys → Option Sys) (p : Option α) (sys : Sys) : Option Sys :=
  match p with
  | none => some sys
  | some p => f p sys

def onSome {α : Type} (f : α → Sys → Option Sys) (p : Option α) (sys : Sys) : Option Sys :=
  p.bind fun p => f p sys

def sunwindowsOpen (devname : String) (opens : Option Fd) (malloc : Bool) (sys : Sys) : Option (Option Fd × Sys) :=
  match sys.devlist.find? fun dlist => dlist.key.1 = devname with
  | some dlist => (RefCounts.hold dlist.key sys.devlist).map fun devlist =>
      (some dlist.key.2, { sys with devlist := devlist })
  | none =>
      match opens with
      | none => some (none, sys)
      | some fd =>
          if malloc then
            some (some fd, { openFd fd sys with devlist := ⟨(devname, fd), 1, Nat.one_pos⟩ :: sys.devlist })
          else (closeFd fd (openFd fd sys)).map fun sys => (none, sys)

def sunwindowsClose (fd : Fd) (sys : Sys) : Option Sys :=
  match sys.devlist.find? fun dlist => dlist.key.2 = fd with
  | none => some sys
  | some dlist => (RefCounts.release dlist.key sys.devlist).bind fun r =>
      if r.1 then closeFd fd { sys with devlist := r.2 } else some { sys with devlist := r.2 }

def init (opens : Option Fd) (sys : Sys) : Option Sys :=
  match sys.lock_fd with
  | some _ => some sys
  | none => opens.map fun fd => { openFd fd sys with lock_fd := some fd }

def winlockat (o : Outcomes) (sys : Sys) : Option (Option (Addr × Addr) × Sys) :=
  match init o.openWinlock sys with
  | none => some (none, sys)
  | some sys =>
      match o.mmapLock with
      | none => some (none, sys)
      | some lock =>
          match o.mmapUnlock with
          | none => (munmap lock sys.pagesize (mmap lock ⟨sys.pagesize, none⟩ sys)).map fun sys => (none, sys)
          | some unlock => some (some (lock, unlock),
              mmap unlock ⟨sys.pagesize, none⟩ (mmap lock ⟨sys.pagesize, none⟩ sys))

def winlockdt (opens : Option Fd) (lockp unlockp : Option Addr) (sys : Sys) : Option Sys :=
  match init opens sys with
  | none => some sys
  | some sys => do
      let sys ← onSome (fun p => munmap p sys.pagesize) lockp sys
      onSome (fun p => munmap p sys.pagesize) unlockp sys

structure CleanUp where
  cflag : Bool
  filelen : Int
  locktype : Int

def closeWindows (cginfo : Cmap) (sys : Sys) : Option Sys :=
  (ifSet sunwindowsClose cginfo.sunwindows_def_fd sys).bind (ifSet sunwindowsClose cginfo.sunwindows_inst_fd)

def freeLock (opens : Option Fd) (cginfo : Cmap) (locktype : Int) (sys : Sys) : Option Sys :=
  if locktype = CM_LOCKDEV then do
    let sys ← ifSet (fun p => munmap p CM_PAGESZ) cginfo.unlockp sys
    let sys ← ifSet (fun p => munmap p CM_PAGESZ) cginfo.lockp sys
    if cginfo.lockfd ≠ cginfo.devfd then ifSet closeFd cginfo.lockfd sys else some sys
  else if locktype = CM_WINLOCK then winlockdt opens cginfo.lockp cginfo.unlockp sys
  else some sys

def freeInfo (cginfo : Cmap) (filelen : Int) (sys : Sys) : Option Sys :=
  (ifSet (fun p => munmap p filelen) cginfo.info sys).bind (ifSet closeFd cginfo.infofd)

def freeDevice (cginfo : Cmap) (cflag : Bool) (sys : Sys) : Option Sys :=
  if cflag then onSome closeFd cginfo.devfd sys else some sys

def freeAll (opens : Option Fd) (cginfo : Cmap) (c : CleanUp) (sys : Sys) : Option Sys := do
  let sys ← closeWindows cginfo sys
  let sys ← freeLock opens cginfo c.locktype sys
  let sys ← freeInfo cginfo c.filelen sys
  freeDevice cginfo c.cflag sys

def cleanupLockpages (opens : Option Fd) (a : Addr) (c : CleanUp) (s : State) : Option State := do
  let cginfo ← s.cmaps a
  let sys ← freeAll opens cginfo c s.sys
  some ⟨Function.update s.cmaps a none, s.grabbed_list.erase a, sys⟩

inductive Built
  | done (cmap_grab : Cmap)
  | failed (cmap_grab : Cmap) (c : CleanUp)

def grabInst (o : Outcomes) (infop : Grabbedcmap) (c : CleanUp) (filesuffix : Token) (cmap_grab : Cmap)
    (sys : Sys) :
    Option (Built × Sys) :=
  if infop.sunwindows_inst_devname ≠ "" then
    (sunwindowsOpen infop.sunwindows_inst_devname o.openInst o.mallocInst sys).map fun r =>
      match r.1 with
      | none => (.failed cmap_grab c, r.2)
      | some fd => (.done { cmap_grab with sunwindows_inst_fd := some fd, token := filesuffix }, r.2)
  else some (.done { cmap_grab with token := filesuffix }, sys)

abbrev Grabbedcmap.useDef (infop : Grabbedcmap) : Prop := infop.default = true ∧ infop.sunwindows_def_devname ≠ ""

def grabWindows (o : Outcomes) (infop : Grabbedcmap) (c : CleanUp) (filesuffix : Token)
    (cmap_grab : Cmap) (sys : Sys) :
    Option (Built × Sys) :=
  if infop.useDef then
    (sunwindowsOpen infop.sunwindows_def_devname o.openDef o.mallocDef sys).bind fun r =>
      match r.1 with
      | none => some (.failed cmap_grab c, r.2)
      | some fd => grabInst o infop c filesuffix { cmap_grab with sunwindows_def_fd := some fd } r.2
  else grabInst o infop c filesuffix cmap_grab sys

def lockDevice (o : Outcomes) (infop : Grabbedcmap) (devfd : Fd) (sys : Sys) : Option (Fd × Sys) :=
  if infop.lockdevname = "" then some (devfd, sys) else o.openLock.map fun fd => (fd, openFd fd sys)

def grabLock (o : Outcomes) (infop : Grabbedcmap) (cflag : Bool) (filesuffix : Token)
    (cmap_grab : Cmap) (devfd : Fd)
    (sys : Sys) : Option (Built × Sys) :=
  let c : CleanUp := ⟨cflag, infop.filelen, infop.lock⟩
  let cmap_grab := { cmap_grab with devfd := some devfd }
  if infop.lock = CM_LOCKDEV then
    match lockDevice o infop devfd sys with
    | none => some (.failed cmap_grab c, sys)
    | some (lockfd, sys) =>
        let cmap_grab := { cmap_grab with lockfd := some lockfd }
        match o.mmapLock with
        | none => some (.failed cmap_grab ⟨cflag, infop.filelen, 0⟩, sys)
        | some lock =>
            let sys := mmap lock ⟨CM_PAGESZ, none⟩ sys
            let cmap_grab := { cmap_grab with lockp := some lock }
            match o.mmapUnlock with
            | none => some (.failed cmap_grab ⟨cflag, infop.filelen, 0⟩, sys)
            | some unlock =>
                grabWindows o infop c filesuffix { cmap_grab with unlockp := some unlock }
                  (mmap unlock ⟨CM_PAGESZ, none⟩ sys)
  else if infop.lock = CM_WINLOCK then
    (winlockat o sys).bind fun r =>
      match r.1 with
      | none => some (.failed cmap_grab c, r.2)
      | some (lock, unlock) =>
          grabWindows o infop c filesuffix { cmap_grab with lockp := some lock, unlockp := some unlock } r.2
  else grabWindows o infop c filesuffix cmap_grab sys

def grabDevice (o : Outcomes) (fd : Option Fd) (infop : Grabbedcmap) (filesuffix : Token)
    (cmap_grab : Cmap) (sys : Sys) :
    Option (Built × Sys) :=
  match fd with
  | some devfd => grabLock o infop false filesuffix cmap_grab devfd sys
  | none =>
      match o.openDevice with
      | none => some (.failed cmap_grab ⟨false, infop.filelen, 0⟩, sys)
      | some devfd => grabLock o infop true filesuffix cmap_grab devfd (openFd devfd sys)

def grabInfo (o : Outcomes) (fd : Option Fd) (filesuffix : Token) (cmap_grab : Cmap) (sys : Sys) :
    Option (Built × Sys) :=
  match o.openInfo with
  | none => some (.failed cmap_grab ⟨false, 0, 0⟩, sys)
  | some infofd =>
      let sys := openFd infofd sys
      match o.readInfo with
      | none => (closeFd infofd sys).map fun sys => (.failed cmap_grab ⟨false, 0, 0⟩, sys)
      | some tmp =>
          if tmp.magic ≠ CMMAGIC then (closeFd infofd sys).map fun sys => (.failed cmap_grab ⟨false, 0, 0⟩, sys)
          else
            match o.mmapInfo with
            | none => (closeFd infofd sys).map fun sys => (.failed cmap_grab ⟨false, tmp.filelen, 0⟩, sys)
            | some infop => (closeFd infofd (mmap infop ⟨tmp.filelen, some tmp⟩ sys)).bind fun sys =>
                grabDevice o fd tmp filesuffix { cmap_grab with info := some infop } sys

def dgaCmGrab (o : Outcomes) (fd : Option Fd) (filesuffix : Token) (s : State) : Option (Option Addr × State) :=
  match s.grabbed_list.find? fun a => (s.cmaps a).map Cmap.token = some filesuffix with
  | some a => do
      let cmap_grab ← s.cmaps a
      let cmap_grab := { cmap_grab with grab_count := cmap_grab.grab_count + 1 }
      -- the count is an int
      if cmap_grab.grab_count < 2 ^ 31 then
        some (some a, { s with cmaps := Function.update s.cmaps a (some cmap_grab) })
      else none
  | none =>
      match o.calloc with
      | none => some (none, s)
      | some a => do
          let (built, sys) ← grabInfo o fd filesuffix .new s.sys
          match built with
          | .done cmap_grab => some (some a, ⟨Function.update s.cmaps a (some cmap_grab), a :: s.grabbed_list, sys⟩)
          | .failed cmap_grab c => do
              let s ← cleanupLockpages o.openWinlockAgain a c
                ⟨Function.update s.cmaps a (some cmap_grab), a :: s.grabbed_list, sys⟩
              some (none, s)

def dgaCmUngrab (opens : Option Fd) (a : Addr) (cflag : Bool) (s : State) : Option State := do
  let cginfo ← s.cmaps a
  if 1 < cginfo.grab_count then
    some { s with cmaps := Function.update s.cmaps a (some { cginfo with grab_count := cginfo.grab_count - 1 }) }
  else do
    let mapping ← cginfo.info.bind s.sys.mapped
    let infop ← mapping.page
    cleanupLockpages opens a ⟨cflag, infop.filelen, infop.lock⟩ s

variable {sys sys' sys'' : Sys} {a : Addr} {fd : Fd} {m : Mapping} {name : String} {opens : Option Fd}
    {malloc : Bool}

@[simp] theorem mmap_self : (mmap a m sys).mapped a = some m := Function.update_self ..

theorem mmap_of_ne {a' : Addr} (h : a' ≠ a) : (mmap a m sys).mapped a' = sys.mapped a' := Function.update_of_ne h ..

@[simp] theorem openFd_self : (openFd fd sys).opened fd = true := Function.update_self ..

theorem openFd_of_ne {fd' : Fd} (h : fd' ≠ fd) : (openFd fd sys).opened fd' = sys.opened fd' :=
  Function.update_of_ne h ..

theorem munmap_mmap (h : sys.mapped a = none) : munmap a m.len (mmap a m sys) = some sys := by
  have hmapped : Function.update (mmap a m sys).mapped a none = sys.mapped := by
    rw [mmap, Function.update_idem, ← h, Function.update_eq_self]
  rw [munmap, if_pos]
  · rw [hmapped]
    rfl
  · rw [mmap_self, Option.map_some]

theorem closeFd_openFd (h : sys.opened fd = false) : closeFd fd (openFd fd sys) = some sys := by
  have hopened : Function.update (openFd fd sys).opened fd false = sys.opened := by
    rw [openFd, Function.update_idem, ← h, Function.update_eq_self]
  rw [closeFd, if_pos]
  · rw [hopened]
    rfl
  · exact openFd_self

theorem openFd_opened (h : sys.opened fd = true) (fd' : Fd) : (openFd fd' sys).opened fd = true := by
  by_cases hfd : fd = fd'
  · rw [hfd, openFd_self]
  · rw [openFd_of_ne hfd]
    exact h

theorem opened_openFd {fd' : Fd} (h : (openFd fd' sys).opened fd = true) : sys.opened fd = true ∨ fd = fd' := by
  by_cases hfd : fd = fd'
  · exact .inr hfd
  · rw [openFd_of_ne hfd] at h
    exact .inl h

section Windows

abbrev Devlist := List (RefCounts.Entry (String × Fd))

def fdsOf (devlist : Devlist) : List Fd := devlist.map fun dlist => dlist.key.2

def namesOf (devlist : Devlist) : List String := devlist.map fun dlist => dlist.key.1

structure Shared (devlist : Devlist) (uses : Fd → Nat) : Prop where
  nodup : (fdsOf devlist).Nodup
  count : ∀ k ∈ devlist.map RefCounts.Entry.key, RefCounts.refs k devlist = uses k.2
  used : ∀ fd, 0 < uses fd → fd ∈ fdsOf devlist

variable {devlist devlist' : Devlist} {uses uses' : Fd → Nat} {k : String × Fd}

theorem fdsOf_keys (devlist : Devlist) : fdsOf devlist = (devlist.map RefCounts.Entry.key).map Prod.snd := by
  rw [fdsOf, List.map_map]
  rfl

theorem namesOf_keys (devlist : Devlist) : namesOf devlist = (devlist.map RefCounts.Entry.key).map Prod.fst := by
  rw [namesOf, List.map_map]
  rfl

theorem Shared.oneEntry (h : Shared devlist uses) : RefCounts.OneEntry devlist := by
  have hnodup := h.nodup
  rw [fdsOf_keys] at hnodup
  exact List.Nodup.of_map _ hnodup

theorem Shared.key_eq (h : Shared devlist uses) {k k' : String × Fd} (hk : k ∈ devlist.map RefCounts.Entry.key)
    (hk' : k' ∈ devlist.map RefCounts.Entry.key) (hfd : k.2 = k'.2) : k = k' := by
  have hnodup := h.nodup
  rw [fdsOf_keys] at hnodup
  exact List.inj_on_of_nodup_map hnodup hk hk' hfd

theorem Shared.hold (h : Shared devlist uses) (hk : k ∈ devlist.map RefCounts.Entry.key)
    (hhold : RefCounts.hold k devlist = some devlist') :
    Shared devlist' fun x => uses x + [k.2].count x := by
  have hkeys := RefCounts.hold_keys hhold
  have hfds : fdsOf devlist' = fdsOf devlist := by rw [fdsOf_keys, fdsOf_keys, hkeys]
  refine ⟨hfds ▸ h.nodup, fun k' hk' => ?_, fun x hx => ?_⟩
  · rw [hkeys] at hk'
    rw [RefCounts.hold_refs hhold, h.count k' hk', List.count_singleton]
    by_cases hkk : k = k'
    · rw [if_pos hkk, hkk, beq_self_eq_true, if_pos rfl]
    · have hne : (k.2 == k'.2) = false := beq_eq_false_iff_ne.mpr fun hfd => hkk (h.key_eq hk hk' hfd)
      rw [if_neg hkk, hne, if_neg Bool.false_ne_true]
  · rw [hfds]
    by_cases hxk : k.2 = x
    · rw [← hxk, fdsOf_keys]
      exact List.mem_map_of_mem hk
    · rw [List.count_singleton, beq_eq_false_iff_ne.mpr hxk, if_neg Bool.false_ne_true] at hx
      exact h.used x hx

theorem Shared.push (h : Shared devlist uses) (hk : k.2 ∉ fdsOf devlist) :
    Shared (⟨k, 1, Nat.one_pos⟩ :: devlist) fun x => uses x + [k.2].count x := by
  have hnot : k ∉ devlist.map RefCounts.Entry.key := by
    intro hmem
    rw [fdsOf_keys] at hk
    exact hk (List.mem_map_of_mem hmem)
  have hzero : uses k.2 = 0 := Nat.eq_zero_of_not_pos fun hpos => hk (h.used _ hpos)
  refine ⟨List.nodup_cons.mpr ⟨hk, h.nodup⟩, fun k' hk' => ?_, fun x hx => ?_⟩
  · rw [RefCounts.insert_refs (RefCounts.refs_eq_zero.mpr hnot), List.count_singleton]
    by_cases hkk : k = k'
    · rw [if_pos hkk, ← hkk, beq_self_eq_true, if_pos rfl, hzero, RefCounts.refs_eq_zero.mpr hnot]
    · have hold := (List.mem_cons.mp hk').resolve_left (Ne.symm hkk)
      have hne : (k.2 == k'.2) = false := by
        refine beq_eq_false_iff_ne.mpr fun hfd => hk ?_
        rw [hfd, fdsOf_keys]
        exact List.mem_map_of_mem hold
      rw [if_neg hkk, hne, if_neg Bool.false_ne_true, h.count k' hold]
  · by_cases hxk : k.2 = x
    · exact hxk ▸ List.mem_cons_self
    · rw [List.count_singleton, beq_eq_false_iff_ne.mpr hxk, if_neg Bool.false_ne_true] at hx
      exact List.mem_cons_of_mem _ (h.used x hx)

theorem Shared.release (h : Shared devlist uses) (hk : k ∈ devlist.map RefCounts.Entry.key)
    (hfirst : uses k.2 = uses' k.2 + 1) (hothers : ∀ x, x ≠ k.2 → uses x = uses' x) :
    ∃ last devlist', RefCounts.release k devlist = some (last, devlist') ∧ Shared devlist' uses' ∧
      (last = true ↔ k.2 ∉ fdsOf devlist') ∧ ∀ x, x ≠ k.2 → (x ∈ fdsOf devlist' ↔ x ∈ fdsOf devlist) := by
  have hsome : RefCounts.release k devlist ≠ none := by
    rw [Ne, RefCounts.release_none, h.count k hk, hfirst]
    exact Nat.succ_ne_zero _
  obtain ⟨⟨last, devlist'⟩, hrel⟩ := Option.ne_none_iff_exists'.mp hsome
  have hkeys := RefCounts.release_keys hrel
  have hrefs := RefCounts.release_refs h.oneEntry hrel
  have hsub : (fdsOf devlist').Sublist (fdsOf devlist) := by
    rw [fdsOf_keys, fdsOf_keys]
    exact hkeys.map Prod.snd
  have hleft (k' : String × Fd) (hk' : k' ∈ devlist.map RefCounts.Entry.key) :
      RefCounts.refs k' devlist' = uses' k'.2 := by
    have hcount := hrefs k'
    rw [h.count k' hk'] at hcount
    by_cases hkk : k = k'
    · rw [if_pos hkk, ← hkk, hfirst] at hcount
      rw [← hkk]
      exact Nat.succ.inj hcount
    · rw [if_neg hkk, Nat.add_zero] at hcount
      rw [hcount]
      exact hothers _ fun hfd => hkk (h.key_eq hk hk' hfd.symm)
  have hstays (x : Fd) (hx : 0 < uses' x) : x ∈ fdsOf devlist' := by
    have hold : x ∈ fdsOf devlist := by
      refine h.used x ?_
      by_cases hxk : x = k.2
      · rw [hxk, hfirst]
        exact Nat.succ_pos _
      · rw [hothers x hxk]
        exact hx
    rw [fdsOf_keys] at hold ⊢
    obtain ⟨k', hk', rfl⟩ := List.mem_map.mp hold
    refine List.mem_map_of_mem (Classical.not_not.mp fun hnot => ?_)
    rw [← RefCounts.refs_eq_zero, hleft k' hk'] at hnot
    exact Nat.ne_of_gt hx hnot
  refine ⟨last, devlist', hrel, ⟨h.nodup.sublist hsub, fun k' hk' => hleft k' (hkeys.subset hk'), hstays⟩, ?_,
    fun x hx => ⟨fun hmem => hsub.subset hmem, fun hmem => hstays x ?_⟩⟩
  · rw [RefCounts.release_last h.oneEntry hrel, hleft k hk]
    refine ⟨fun hzero hmem => ?_, fun hnot => Nat.eq_zero_of_not_pos fun hpos => hnot (hstays _ hpos)⟩
    rw [fdsOf_keys] at hmem
    obtain ⟨k', hk', hfd⟩ := List.mem_map.mp hmem
    have hkk := h.key_eq (hkeys.subset hk') hk hfd
    rw [hkk] at hk'
    rw [← hleft k hk, RefCounts.refs_eq_zero] at hzero
    exact hzero hk'
  · rw [← hothers x hx]
    rw [fdsOf_keys] at hmem
    obtain ⟨k', hk', rfl⟩ := List.mem_map.mp hmem
    rw [← h.count k' hk']
    exact Nat.pos_of_ne_zero fun hzero => RefCounts.refs_eq_zero.mp hzero hk'

def canOpen (devname : String) (opens : Option Fd) (malloc : Bool) (devlist : Devlist) : Prop :=
  devname ∈ namesOf devlist ∨ opens ≠ none ∧ malloc = true

structure MoreWindows (sys : Sys) (fds : List Fd) (sys' : Sys) : Prop where
  mapped : sys'.mapped = sys.mapped
  lock_fd : sys'.lock_fd = sys.lock_fd
  pagesize : sys'.pagesize = sys.pagesize
  opened : ∀ fd, sys.opened fd = true → sys'.opened fd = true
  shared : ∀ uses, Shared sys.devlist uses → Shared sys'.devlist fun x => uses x + fds.count x
  news : ∀ x ∈ fdsOf sys'.devlist, x ∈ fdsOf sys.devlist ∨ sys.opened x = false
  live : (∀ x ∈ fdsOf sys.devlist, sys.opened x = true) → ∀ x ∈ fdsOf sys'.devlist, sys'.opened x = true

theorem MoreWindows.refl (sys : Sys) : MoreWindows sys [] sys :=
  ⟨rfl, rfl, rfl, fun _ h => h, fun _ h => h, fun _ => .inl, fun h => h⟩

theorem MoreWindows.trans {fds fds' : List Fd} (h : MoreWindows sys fds sys') (h' : MoreWindows sys' fds' sys'') :
    MoreWindows sys (fds ++ fds') sys'' := by
  refine ⟨h'.mapped.trans h.mapped, h'.lock_fd.trans h.lock_fd, h'.pagesize.trans h.pagesize,
    fun fd hfd => h'.opened fd (h.opened fd hfd), fun uses huses => ?_, fun x hx => ?_,
    fun hlive => h'.live (h.live hlive)⟩
  · have hboth := h'.shared _ (h.shared uses huses)
    simpa only [List.count_append, Nat.add_assoc] using hboth
  · rcases h'.news x hx with hold | hclosed
    · exact h.news x hold
    · refine .inr (Bool.eq_false_iff.mpr fun hopen => ?_)
      rw [h.opened x hopen] at hclosed
      cases hclosed

theorem sunwindowsOpen_known {dlist : RefCounts.Entry (String × Fd)} (hshared : Shared sys.devlist uses)
    (hfind : (sys.devlist.find? fun dlist => dlist.key.1 = name) = some dlist) :
    ∃ sys', sunwindowsOpen name opens malloc sys = some (some dlist.key.2, sys') ∧
      MoreWindows sys [dlist.key.2] sys' ∧
      sunwindowsClose dlist.key.2 sys' = some sys ∧ namesOf sys'.devlist = namesOf sys.devlist ∧
        sys'.opened = sys.opened := by
  have hmem := List.mem_of_find?_eq_some hfind
  have hkey : dlist.key ∈ sys.devlist.map RefCounts.Entry.key := List.mem_map_of_mem hmem
  obtain ⟨devlist', hhold⟩ : ∃ devlist', RefCounts.hold dlist.key sys.devlist = some devlist' := by
    refine Option.ne_none_iff_exists'.mp ?_
    rw [Ne, RefCounts.hold_none, RefCounts.refs_eq_zero, Classical.not_not]
    exact hkey
  have hkeys := RefCounts.hold_keys hhold
  have hfds : fdsOf devlist' = fdsOf sys.devlist := by rw [fdsOf_keys, fdsOf_keys, hkeys]
  refine ⟨{ sys with devlist := devlist' }, ?_,
    ⟨rfl, rfl, rfl, fun _ h => h, fun uses' huses' => huses'.hold hkey hhold,
    fun x hx => .inl (hfds ▸ hx), fun hlive x hx => hlive x (hfds ▸ hx)⟩, ?_, ?_, rfl⟩
  · simp only [sunwindowsOpen, hfind, hhold, Option.map_some]
  · obtain ⟨dlist', hfind', hsame⟩ : ∃ dlist', (devlist'.find? fun e => e.key.2 = dlist.key.2) = some dlist' ∧
        dlist'.key = dlist.key := by
      cases hfind' : devlist'.find? fun e => e.key.2 = dlist.key.2 with
      | none =>
          rw [← hkeys] at hkey
          obtain ⟨e, he, hek⟩ := List.mem_map.mp hkey
          exact absurd (congrArg Prod.snd hek) (by simpa using List.find?_eq_none.mp hfind' e he)
      | some dlist' =>
          have hfd : dlist'.key.2 = dlist.key.2 := by simpa using List.find?_some hfind'
          have hkey' : dlist'.key ∈ devlist'.map RefCounts.Entry.key :=
            List.mem_map_of_mem (List.mem_of_find?_eq_some hfind')
          exact ⟨dlist', rfl, hshared.key_eq (hkeys ▸ hkey') hkey hfd⟩
    simp only [sunwindowsClose, hfind', hsame, RefCounts.release_hold hhold, Option.bind_some,
      Bool.false_eq_true, if_false]
  · rw [namesOf_keys, namesOf_keys, hkeys]

theorem sunwindowsOpen_new (hfind : (sys.devlist.find? fun dlist => dlist.key.1 = name) = none)
    (hlive : ∀ x ∈ fdsOf sys.devlist, sys.opened x = true) (hfresh : sys.opened fd = false) :
    ∃ sys', sunwindowsOpen name (some fd) true sys = some (some fd, sys') ∧ MoreWindows sys [fd] sys' ∧
      sunwindowsClose fd sys' = some sys ∧ namesOf sys'.devlist = name :: namesOf sys.devlist ∧
        sys'.opened = (openFd fd sys).opened := by
  have hnot : fd ∉ fdsOf sys.devlist := by
    intro hmem
    rw [hlive fd hmem] at hfresh
    cases hfresh
  refine ⟨{ openFd fd sys with devlist := ⟨(name, fd), 1, Nat.one_pos⟩ :: sys.devlist }, ?_,
    ⟨rfl, rfl, rfl, fun x hx => openFd_opened hx fd, fun uses huses => huses.push hnot, fun x hx => ?_,
      fun hlive x hx => ?_⟩, ?_, rfl, rfl⟩
  · simp only [sunwindowsOpen, hfind, if_true]
  · rcases List.mem_cons.mp hx with rfl | hx
    · exact .inr hfresh
    · exact .inl hx
  · rcases List.mem_cons.mp hx with rfl | hx
    · exact openFd_self
    · exact openFd_opened (hlive x hx) fd
  · have hrelease : RefCounts.release (name, fd) (⟨(name, fd), 1, Nat.one_pos⟩ :: sys.devlist) =
        some (true, sys.devlist) :=
      RefCounts.release_insert ..
    simp only [sunwindowsClose, List.find?_cons, decide_true, hrelease, Option.bind_some, if_true]
    exact closeFd_openFd hfresh

theorem sunwindowsOpen_cases (name : String) (malloc : Bool) (hshared : Shared sys.devlist uses)
    (hlive : ∀ x ∈ fdsOf sys.devlist, sys.opened x = true)
    (hfresh : ∀ fd, opens = some fd → sys.opened fd = false) :
    (canOpen name opens malloc sys.devlist ∧
      ∃ fd sys', sunwindowsOpen name opens malloc sys = some (some fd, sys') ∧ MoreWindows sys [fd] sys' ∧
        sunwindowsClose fd sys' = some sys ∧ (∀ n, n ∈ namesOf sys'.devlist ↔ n = name ∨ n ∈ namesOf sys.devlist) ∧
          ∀ x, sys'.opened x = true → sys.opened x = true ∨ opens = some x) ∨
      ¬canOpen name opens malloc sys.devlist ∧ sunwindowsOpen name opens malloc sys = some (none, sys) := by
  cases hfind : sys.devlist.find? fun dlist => dlist.key.1 = name with
  | some dlist =>
      have hname : name ∈ namesOf sys.devlist := by
        have hkey : dlist.key.1 = name := by simpa using List.find?_some hfind
        exact hkey ▸ List.mem_map_of_mem (List.mem_of_find?_eq_some hfind)
      obtain ⟨sys', hopen, hmore, hclose, hnames, hopened⟩ := sunwindowsOpen_known hshared hfind
      refine .inl ⟨.inl hname, dlist.key.2, sys', hopen, hmore, hclose, fun n => ?_,
        fun x hx => .inl (hopened ▸ hx)⟩
      rw [hnames]
      exact ⟨.inr, fun h => h.elim (fun heq => heq ▸ hname) id⟩
  | none =>
      have hname : name ∉ namesOf sys.devlist := by
        intro hmem
        obtain ⟨dlist, hdlist, heq⟩ := List.mem_map.mp hmem
        exact absurd heq (by simpa using List.find?_eq_none.mp hfind dlist hdlist)
      cases opens with
      | none =>
          refine .inr ⟨fun hcan => hcan.elim hname fun h => h.1 rfl, ?_⟩
          simp only [sunwindowsOpen, hfind]
      | some fd =>
          cases malloc with
          | true =>
              obtain ⟨sys', hopen, hmore, hclose, hnames, hopened⟩ := sunwindowsOpen_new hfind hlive (hfresh fd rfl)
              refine .inl ⟨.inr ⟨nofun, rfl⟩, fd, sys', hopen, hmore, hclose, fun n => ?_, fun x hx => ?_⟩
              · rw [hnames, List.mem_cons]
              · rw [hopened] at hx
                exact (opened_openFd hx).imp_right fun heq => congrArg some heq.symm
          | false =>
              refine .inr ⟨fun hcan => hcan.elim hname fun h => Bool.false_ne_true h.2, ?_⟩
              simp only [sunwindowsOpen, hfind, Bool.false_eq_true, if_false, closeFd_openFd (hfresh fd rfl),
                Option.map_some]

end Windows

section Grab

variable {o : Outcomes} {infop : Grabbedcmap} {cl : CleanUp} {c : Cmap} {token : Token} {uses : Fd → Nat}

def windowsOpen (o : Outcomes) (infop : Grabbedcmap) (devlist : Devlist) : Prop :=
  (infop.useDef → canOpen infop.sunwindows_def_devname o.openDef o.mallocDef devlist) ∧
    (infop.sunwindows_inst_devname ≠ "" → canOpen infop.sunwindows_inst_devname o.openInst o.mallocInst devlist ∨
      infop.useDef ∧ infop.sunwindows_inst_devname = infop.sunwindows_def_devname)

theorem grabInst_cases (cl : CleanUp) (token : Token) (hshared : Shared sys.devlist uses)
    (hlive : ∀ x ∈ fdsOf sys.devlist, sys.opened x = true)
    (hfresh : ∀ fd, o.openInst = some fd → sys.opened fd = false) (hnone : c.sunwindows_inst_fd = none) :
    ((infop.sunwindows_inst_devname ≠ "" →
        canOpen infop.sunwindows_inst_devname o.openInst o.mallocInst sys.devlist) ∧
      ∃ (fd : Option Fd) (sys' : Sys), grabInst o infop cl token c sys =
          some (.done { c with sunwindows_inst_fd := fd, token := token }, sys') ∧
        MoreWindows sys fd.toList sys') ∨
      ¬(infop.sunwindows_inst_devname ≠ "" →
          canOpen infop.sunwindows_inst_devname o.openInst o.mallocInst sys.devlist) ∧
        grabInst o infop cl token c sys = some (.failed c cl, sys) := by
  rw [grabInst]
  by_cases huse : infop.sunwindows_inst_devname ≠ ""
  · rw [if_pos huse]
    rcases sunwindowsOpen_cases infop.sunwindows_inst_devname o.mallocInst hshared hlive hfresh with
      ⟨hcan, fd, sys', hopen, hmore, -, -, -⟩ | ⟨hcan, hopen⟩
    · refine .inl ⟨fun _ => hcan, some fd, sys', ?_, hmore⟩
      rw [hopen]
      rfl
    · refine .inr ⟨fun hall => hcan (hall huse), ?_⟩
      rw [hopen]
      rfl
  · rw [if_neg huse]
    refine .inl ⟨fun h => absurd h huse, none, sys, ?_, .refl sys⟩
    rw [← hnone]

theorem grabWindows_cases (infop : Grabbedcmap) (cl : CleanUp) (token : Token) (hshared : Shared sys.devlist uses)
    (hlive : ∀ x ∈ fdsOf sys.devlist, sys.opened x = true)
    (hdef : ∀ fd, o.openDef = some fd → sys.opened fd = false)
    (hinst : ∀ fd, o.openInst = some fd → sys.opened fd = false ∧ o.openDef ≠ some fd)
    (hnone : c.sunwindows_def_fd = none ∧ c.sunwindows_inst_fd = none) :
    (windowsOpen o infop sys.devlist ∧
      ∃ (defFd instFd : Option Fd) (sys' : Sys), grabWindows o infop cl token c sys = some (.done { c with
          sunwindows_def_fd := defFd, sunwindows_inst_fd := instFd, token := token }, sys') ∧
        MoreWindows sys (defFd.toList ++ instFd.toList) sys') ∨
      ¬windowsOpen o infop sys.devlist ∧ ∃ defFd sys', grabWindows o infop cl token c sys =
          some (.failed { c with sunwindows_def_fd := defFd } cl, sys') ∧
        closeWindows { c with sunwindows_def_fd := defFd } sys' = some sys := by
  rw [grabWindows]
  by_cases huse : infop.useDef
  · rw [if_pos huse]
    rcases sunwindowsOpen_cases infop.sunwindows_def_devname o.mallocDef hshared hlive hdef with
      ⟨hcan, fd, sys', hopen, hmore, hclose, hnames, hopened⟩ | ⟨hcan, hopen⟩
    · rw [hopen, Option.bind_some]
      dsimp only
      have hfresh (x : Fd) (hx : o.openInst = some x) : sys'.opened x = false := by
        refine Bool.eq_false_iff.mpr fun htrue => ?_
        rcases hopened x htrue with hold | heq
        · rw [(hinst x hx).1] at hold
          cases hold
        · exact (hinst x hx).2 heq
      have hnow : windowsOpen o infop sys.devlist ↔ (infop.sunwindows_inst_devname ≠ "" →
          canOpen infop.sunwindows_inst_devname o.openInst o.mallocInst sys'.devlist) := by
        refine ⟨fun hall hne => ?_, fun hall => ⟨fun _ => hcan, fun hne => ?_⟩⟩
        · rcases hall.2 hne with (hknown | hnew) | ⟨-, heq⟩
          · exact .inl ((hnames _).mpr (.inr hknown))
          · exact .inr hnew
          · exact .inl ((hnames _).mpr (.inl heq))
        · rcases hall hne with hknown | hnew
          · exact ((hnames _).mp hknown).elim (fun heq => .inr ⟨huse, heq⟩) fun hold => .inl (.inl hold)
          · exact .inl (.inr hnew)
      rw [hnow]
      rcases grabInst_cases cl token (c := { c with sunwindows_def_fd := some fd })
          (hmore.shared _ hshared) (hmore.live hlive) hfresh hnone.2 with
        ⟨hall, fd', sys'', hgrab, hmore'⟩ | ⟨hall, hgrab⟩
      · refine .inl ⟨hall, some fd, fd', sys'', ?_, hmore.trans hmore'⟩
        rw [hgrab]
      · refine .inr ⟨hall, some fd, sys', hgrab, ?_⟩
        rw [closeWindows]
        dsimp only
        rw [hnone.2, ifSet, hclose]
        rfl
    · refine .inr ⟨fun hall => hcan (hall.1 huse), none, sys, ?_, ?_⟩
      · have hsame : { c with sunwindows_def_fd := none } = c := by rw [← hnone.1]
        rw [hopen, Option.bind_some, hsame]
      · rw [closeWindows]
        dsimp only
        rw [hnone.2]
        rfl
  · rw [if_neg huse]
    have hnow : windowsOpen o infop sys.devlist ↔ (infop.sunwindows_inst_devname ≠ "" →
        canOpen infop.sunwindows_inst_devname o.openInst o.mallocInst sys.devlist) := by
      refine ⟨fun hall hne => (hall.2 hne).elim id fun h => absurd h.1 huse,
        fun hall => ⟨fun h => absurd h huse, ?_⟩⟩
      exact fun hne => .inl (hall hne)
    rw [hnow]
    rcases grabInst_cases cl token (c := c) hshared hlive
        (fun fd hfd => (hinst fd hfd).1) hnone.2 with
      ⟨hall, fd', sys', hgrab, hmore⟩ | ⟨hall, hgrab⟩
    · refine .inl ⟨hall, none, fd', sys', ?_, hmore⟩
      rw [hgrab, ← hnone.1]
    · refine .inr ⟨hall, none, sys, ?_, ?_⟩
      · rw [hgrab, ← hnone.1]
      · rw [closeWindows]
        dsimp only
        rw [hnone.2]
        rfl

end Grab

section Lock

variable {o : Outcomes} {page : Grabbedcmap} {cl : CleanUp} {c : Cmap} {token : Token} {uses : Fd → Nat}
  {sys₀ : Sys} {infop lock unlock : Addr} {devfd lockfd : Fd} {cflag : Bool}

def Cmap.maps (c : Cmap) : List Addr := c.info.toList ++ (c.lockp.toList ++ c.unlockp.toList)

def Cmap.locks (c : Cmap) : List Fd := if c.lockfd = c.devfd then [] else c.lockfd.toList

def Cmap.windows (c : Cmap) : List Fd := c.sunwindows_def_fd.toList ++ c.sunwindows_inst_fd.toList

structure Outcomes.Fresh (o : Outcomes) (sys : Sys) : Prop where
  unopened : ∀ fd, some fd ∈ [o.openInfo, o.openDevice, o.openLock, o.openWinlock, o.openDef, o.openInst] →
    sys.opened fd = false
  descriptors : [o.openDevice, o.openLock, o.openWinlock, o.openDef, o.openInst].Pairwise
    fun p q => ∀ fd, q = some fd → p ≠ some fd
  unmapped : ∀ a, some a ∈ [o.mmapInfo, o.mmapLock, o.mmapUnlock] → sys.mapped a = none
  mappings : [o.mmapInfo, o.mmapLock, o.mmapUnlock].Pairwise fun p q => ∀ a, q = some a → p ≠ some a

def Held (sys : Sys) (c : Cmap) (page : Grabbedcmap) : Prop :=
  if page.lock = CM_LOCKDEV then ∃ lock unlock, c.lockp = some lock ∧ c.unlockp = some unlock ∧
    sys.mapped lock = some ⟨CM_PAGESZ, none⟩ ∧ sys.mapped unlock = some ⟨CM_PAGESZ, none⟩
  else if page.lock = CM_WINLOCK then c.lockfd = none ∧ sys.lock_fd ≠ none ∧ ∃ lock unlock, c.lockp = some lock ∧
    c.unlockp = some unlock ∧ sys.mapped lock = some ⟨sys.pagesize, none⟩ ∧
      sys.mapped unlock = some ⟨sys.pagesize, none⟩
  else c.lockfd = none ∧ c.lockp = none ∧ c.unlockp = none

structure Sound (sys : Sys) (c : Cmap) : Prop where
  held : ∃ infop page, c.info = some infop ∧ sys.mapped infop = some ⟨page.filelen, some page⟩ ∧ Held sys c page
  maps : c.maps.Nodup
  infofd : c.infofd = none

def freeRest (c : Cmap) (cflag : Bool) (filelen : Int) (sys : Sys) : Option Sys :=
  (freeInfo c filelen sys).bind (freeDevice c cflag)

theorem freeAll_eq (hwindows : closeWindows c sys = some sys')
    (hlock : freeLock opens c cl.locktype sys' = some sys'')
    (hrest : freeRest c cl.cflag cl.filelen sys'' = some sys₀) : freeAll opens c cl sys = some sys₀ := by
  simp only [freeAll, hwindows, hlock, Option.bind_eq_bind, Option.bind_some]
  exact hrest

def Cmap.prepared (infop : Addr) (devfd : Fd) : Cmap := { Cmap.new with info := some infop, devfd := some devfd }

structure Prepared (o : Outcomes) (sys₀ : Sys) (infop : Addr) (page : Grabbedcmap) (cflag : Bool) (devfd : Fd)
    (sys : Sys) : Prop where
  info : o.mmapInfo = some infop
  mapped : sys.mapped = Function.update sys₀.mapped infop (some ⟨page.filelen, some page⟩)
  opened : ∀ fd, sys₀.opened fd = true → sys.opened fd = true
  news : ∀ fd, sys.opened fd = true → sys₀.opened fd = true ∨ o.openDevice = some fd
  device : sys.opened devfd = true
  devlist : sys.devlist = sys₀.devlist
  lock_fd : sys.lock_fd = sys₀.lock_fd
  pagesize : sys.pagesize = sys₀.pagesize
  rest : freeRest (.prepared infop devfd) cflag page.filelen sys = some sys₀

structure Locked (o : Outcomes) (sys₀ : Sys) (c : Cmap) (sys : Sys) : Prop where
  mapped : ∀ a, a ∉ c.maps → sys.mapped a = sys₀.mapped a
  unmapped : ∀ a ∈ c.maps, sys₀.mapped a = none
  opened : ∀ fd, sys₀.opened fd = true → sys.opened fd = true
  news : ∀ fd, sys.opened fd = true → sys₀.opened fd = true ∨ some fd ∈ [o.openDevice, o.openLock, o.openWinlock]
  locks : ∀ fd ∈ c.locks, sys₀.opened fd = false ∧ sys.opened fd = true ∧ sys.lock_fd ≠ some fd
  lock_fd : sys.lock_fd = sys₀.lock_fd ∨ sys₀.lock_fd = none ∧
    ∃ fd, sys.lock_fd = some fd ∧ sys₀.opened fd = false ∧ sys.opened fd = true
  devlist : sys.devlist = sys₀.devlist
  pagesize : sys.pagesize = sys₀.pagesize
  sound : Sound sys c

structure Gained (sys₀ : Sys) (c : Cmap) (sys : Sys) : Prop where
  mapped : ∀ a, a ∉ c.maps → sys.mapped a = sys₀.mapped a
  unmapped : ∀ a ∈ c.maps, sys₀.mapped a = none
  opened : ∀ fd, sys₀.opened fd = true → sys.opened fd = true
  locks : ∀ fd ∈ c.locks, sys₀.opened fd = false ∧ sys.opened fd = true ∧ sys.lock_fd ≠ some fd ∧
    fd ∉ fdsOf sys.devlist
  lock_fd : sys.lock_fd = sys₀.lock_fd ∨ sys₀.lock_fd = none ∧
    ∃ fd, sys.lock_fd = some fd ∧ sys₀.opened fd = false ∧ sys.opened fd = true ∧ fd ∉ fdsOf sys.devlist
  shared : ∀ uses, Shared sys₀.devlist uses → Shared sys.devlist fun x => uses x + c.windows.count x
  news : ∀ x ∈ fdsOf sys.devlist, x ∈ fdsOf sys₀.devlist ∨ sys₀.opened x = false
  live : ∀ x ∈ fdsOf sys.devlist, sys.opened x = true
  pagesize : sys.pagesize = sys₀.pagesize
  sound : Sound sys c

theorem Sound.more (h : Sound sys c) (hmapped : sys'.mapped = sys.mapped) (hlock : sys'.lock_fd = sys.lock_fd)
    (hsize : sys'.pagesize = sys.pagesize) : Sound sys' c := by
  obtain ⟨infop, page, hinfo, hpage, hheld⟩ := h.held
  refine ⟨⟨infop, page, hinfo, hmapped ▸ hpage, ?_⟩, h.maps, h.infofd⟩
  rw [Held] at hheld ⊢
  rw [hmapped, hlock, hsize]
  exact hheld

theorem Locked.gained (h : Locked o sys₀ c sys) (hlive : ∀ x ∈ fdsOf sys₀.devlist, sys₀.opened x = true)
    {defFd instFd : Option Fd} (hmore : MoreWindows sys (defFd.toList ++ instFd.toList) sys') :
    Gained sys₀ { c with sunwindows_def_fd := defFd, sunwindows_inst_fd := instFd, token := token } sys' := by
  -- what was open in front of the windows is none of the new devices of windows
  have hnot {fd : Fd} (hclosed : sys₀.opened fd = false) (hopen : sys.opened fd = true) :
      fd ∉ fdsOf sys'.devlist := by
    intro hmem
    rcases hmore.news fd hmem with hold | hnew
    · rw [hlive fd (h.devlist ▸ hold)] at hclosed
      cases hclosed
    · rw [hopen] at hnew
      cases hnew
  refine ⟨fun a ha => ?_, h.unmapped, fun fd hfd => hmore.opened fd (h.opened fd hfd), fun fd hfd => ?_, ?_,
    fun uses huses => hmore.shared uses (h.devlist ▸ huses), fun x hx => ?_, ?_,
    hmore.pagesize.trans h.pagesize, ?_⟩
  · rw [hmore.mapped]
    exact h.mapped a ha
  · obtain ⟨hclosed, hopen, hne⟩ := h.locks fd hfd
    exact ⟨hclosed, hmore.opened fd hopen, hmore.lock_fd ▸ hne, hnot hclosed hopen⟩
  · rw [hmore.lock_fd]
    refine h.lock_fd.imp_right fun ⟨hnone, fd, hfd, hclosed, hopen⟩ => ?_
    exact ⟨hnone, fd, hfd, hclosed, hmore.opened fd hopen, hnot hclosed hopen⟩
  · rcases hmore.news x hx with hold | hnew
    · exact .inl (h.devlist ▸ hold)
    · refine .inr (Bool.eq_false_iff.mpr fun hopen => ?_)
      rw [h.opened x hopen] at hnew
      cases hnew
  · exact hmore.live fun x hx => h.opened x (hlive x (h.devlist ▸ hx))
  · obtain ⟨hheld, hmaps, hinfofd⟩ := h.sound.more hmore.mapped hmore.lock_fd hmore.pagesize
    exact ⟨hheld, hmaps, hinfofd⟩

def Settled (opens : Option Fd) (sys₀ : Sys) (token : Token) (r : Option (Built × Sys)) : Prop :=
  (∃ c sys, r = some (.done c, sys) ∧ Gained sys₀ c sys ∧ c.token = token ∧ c.grab_count = 1) ∨
    ∃ c cl sys, r = some (.failed c cl, sys) ∧ freeAll opens c cl sys = some sys₀

theorem grabWindows_settled (hfresh : o.Fresh sys₀) (hshared : Shared sys₀.devlist uses)
    (hlive : ∀ x ∈ fdsOf sys₀.devlist, sys₀.opened x = true) (h : Locked o sys₀ c sys)
    (hnew : c.sunwindows_def_fd = none ∧ c.sunwindows_inst_fd = none ∧ c.grab_count = 1)
    (hundo : windowsOpen o page sys₀.devlist ∨
      (freeLock opens c cl.locktype sys).bind (freeRest c cl.cflag cl.filelen) = some sys₀) :
    Settled opens sys₀ token (grabWindows o page cl token c sys) := by
  have hold := hfresh.descriptors
  simp only [List.pairwise_cons, List.mem_cons, List.not_mem_nil, or_false, forall_eq_or_imp, forall_eq] at hold
  obtain ⟨⟨-, -, hd₁, hi₁⟩, ⟨-, hd₂, hi₂⟩, ⟨hd₃, hi₃⟩, hdi, -⟩ := hold
  have hclosed {fd : Fd} (hmem : some fd ∈ [o.openDef, o.openInst]) (h₁ : o.openDevice ≠ some fd)
    (h₂ : o.openLock ≠ some fd)
      (h₃ : o.openWinlock ≠ some fd) : sys.opened fd = false := by
    refine Bool.eq_false_iff.mpr fun hopen => ?_
    rcases h.news fd hopen with hopen | hsome
    · rw [hfresh.unopened fd (by simp only [List.mem_cons] at hmem ⊢; tauto)] at hopen
      cases hopen
    · simp only [List.mem_cons, List.not_mem_nil, or_false] at hsome
      exact hsome.elim (fun heq => h₁ heq.symm) fun hsome =>
        hsome.elim (fun heq => h₂ heq.symm) fun heq => h₃ heq.symm
  rcases grabWindows_cases page cl token (h.devlist ▸ hshared)
      (fun x hx => h.opened x (hlive x (h.devlist ▸ hx)))
      (fun fd hfd => hclosed (by simp [hfd]) (hd₁ fd hfd) (hd₂ fd hfd) (hd₃ fd hfd))
      (fun fd hfd => ⟨hclosed (by simp [hfd]) (hi₁ fd hfd) (hi₂ fd hfd) (hi₃ fd hfd), hdi fd hfd⟩)
      ⟨hnew.1, hnew.2.1⟩ with ⟨-, defFd, instFd, sys', hgrab, hmore⟩ | ⟨hfail, defFd, sys', hgrab, hclose⟩
  · exact .inl ⟨_, sys', hgrab, h.gained hlive hmore, rfl, hnew.2.2⟩
  · obtain ⟨sys₁, hfree, hrest⟩ := Option.bind_eq_some_iff.mp (hundo.resolve_left (h.devlist ▸ hfail))
    exact .inr ⟨_, cl, sys', hgrab, freeAll_eq hclose hfree hrest⟩

def LockDevice (o : Outcomes) (sys₀ : Sys) (devfd lockfd : Fd) (sys sys' : Sys) : Prop :=
  lockfd = devfd ∧ sys' = sys ∨ lockfd ≠ devfd ∧ sys₀.opened lockfd = false ∧ sys.opened lockfd = false ∧
    o.openLock = some lockfd ∧ sys' = openFd lockfd sys

theorem lockDevice_cases (hfresh : o.Fresh sys₀) (h : Prepared o sys₀ infop page cflag devfd sys) :
    lockDevice o page devfd sys = none ∨ ∃ lockfd sys', lockDevice o page devfd sys = some (lockfd, sys') ∧
      LockDevice o sys₀ devfd lockfd sys sys' := by
  rw [lockDevice]
  by_cases hname : page.lockdevname = ""
  · rw [if_pos hname]
    exact .inr ⟨devfd, sys, rfl, .inl ⟨rfl, rfl⟩⟩
  · rw [if_neg hname]
    cases hopen : o.openLock with
    | none => exact .inl rfl
    | some lockfd =>
        have hclosed : sys₀.opened lockfd = false := hfresh.unopened lockfd (by simp [hopen])
        have hnew : sys.opened lockfd = false := by
          refine Bool.eq_false_iff.mpr fun htrue => ?_
          rcases h.news lockfd htrue with hold | hdevice
          · rw [hold] at hclosed
            cases hclosed
          · have hdiffer := hfresh.descriptors
            rw [List.pairwise_cons] at hdiffer
            exact hdiffer.1 _ List.mem_cons_self lockfd hopen hdevice
        have hne : lockfd ≠ devfd := by
          rintro rfl
          rw [h.device] at hnew
          cases hnew
        exact .inr ⟨lockfd, openFd lockfd sys, rfl, .inr ⟨hne, hclosed, hnew, hopen, rfl⟩⟩

theorem LockDevice.same (h : LockDevice o sys₀ devfd lockfd sys sys') : sys'.mapped = sys.mapped ∧
    sys'.devlist = sys.devlist ∧ sys'.pagesize = sys.pagesize ∧ sys'.lock_fd = sys.lock_fd ∧
    (∀ fd, sys.opened fd = true → sys'.opened fd = true) ∧
      ∀ fd, sys'.opened fd = true → sys.opened fd = true ∨ o.openLock = some fd := by
  rcases h with ⟨rfl, rfl⟩ | ⟨-, -, -, hopen, rfl⟩
  · exact ⟨rfl, rfl, rfl, rfl, fun _ h => h, fun _ => .inl⟩
  · refine ⟨rfl, rfl, rfl, rfl, fun fd hfd => openFd_opened hfd lockfd, fun fd hfd => ?_⟩
    refine (opened_openFd hfd).imp_right fun heq => ?_
    rw [heq]
    exact hopen

theorem Prepared.unmapped (h : Prepared o sys₀ infop page cflag devfd sys) (hfresh : o.Fresh sys₀) :
    sys₀.mapped infop = none := hfresh.unmapped infop (by simp [h.info])

theorem Prepared.pages (h : Prepared o sys₀ infop page cflag devfd sys) (hfresh : o.Fresh sys₀)
    (hlock : o.mmapLock = some lock) : lock ≠ infop ∧ sys₀.mapped lock = none ∧ sys.mapped lock = none ∧
      ∀ unlock, o.mmapUnlock = some unlock → unlock ≠ infop ∧ unlock ≠ lock ∧ sys₀.mapped unlock = none ∧
        sys.mapped unlock = none := by
  have hdiffer := hfresh.mappings
  simp only [List.pairwise_cons, List.mem_cons, List.not_mem_nil, or_false, forall_eq_or_imp, forall_eq] at hdiffer
  obtain ⟨⟨hil, hiu⟩, hlu, -⟩ := hdiffer
  have hli : lock ≠ infop := by
    rintro rfl
    exact hil lock hlock h.info
  have hfree : sys₀.mapped lock = none := hfresh.unmapped lock (by simp [hlock])
  refine ⟨hli, hfree, ?_, fun unlock hunlock => ?_⟩
  · rw [h.mapped, Function.update_of_ne hli]
    exact hfree
  · have hui : unlock ≠ infop := by
      rintro rfl
      exact hiu unlock hunlock h.info
    have hul : unlock ≠ lock := by
      rintro rfl
      exact hlu unlock hunlock hlock
    have hfree' : sys₀.mapped unlock = none := hfresh.unmapped unlock (by simp [hunlock])
    refine ⟨hui, hul, hfree', ?_⟩
    rw [h.mapped, Function.update_of_ne hui]
    exact hfree'

theorem Prepared.failed (h : Prepared o sys₀ infop page cflag devfd sys)
    (hc : c.info = some infop ∧ c.devfd = some devfd ∧ c.infofd = none)
    (hnone : c.sunwindows_def_fd = none ∧ c.sunwindows_inst_fd = none) {locktype : Int}
    (hlock : freeLock opens c locktype sys' = some sys) :
    freeAll opens c ⟨cflag, page.filelen, locktype⟩ sys' = some sys₀ := by
  have hdevice : freeDevice c cflag = freeDevice (.prepared infop devfd) cflag := by
    funext sys
    rw [freeDevice, freeDevice, hc.2.1]
    rfl
  refine freeAll_eq ?_ hlock ?_
  · rw [closeWindows, hnone.1, hnone.2]
    rfl
  · rw [freeRest, freeInfo, hdevice, hc.1, hc.2.2]
    exact h.rest

theorem freeLock_device (opens : Option Fd) (infop : Addr) (h : LockDevice o sys₀ devfd lockfd sys sys') :
    freeLock opens { Cmap.prepared infop devfd with lockfd := some lockfd } 0 sys' = some sys := by
  rw [freeLock, if_pos (show (0 : Int) = CM_LOCKDEV from rfl)]
  rcases h with ⟨rfl, rfl⟩ | ⟨hne, -, hclosed, -, rfl⟩
  · simp [Cmap.prepared, Cmap.new, ifSet]
  · simp [Cmap.prepared, Cmap.new, ifSet, hne, closeFd_openFd hclosed]

theorem freeLock_lockp (hunmapped : sys.mapped lock = none) (hc : c.lockp = none ∧ c.unlockp = none) :
    freeLock opens { c with lockp := some lock } 0 (mmap lock ⟨CM_PAGESZ, none⟩ sys) = freeLock opens c 0 sys := by
  rw [freeLock, freeLock, if_pos (show (0 : Int) = CM_LOCKDEV from rfl),
    if_pos (show (0 : Int) = CM_LOCKDEV from rfl)]
  have hunmap : munmap lock CM_PAGESZ (mmap lock ⟨CM_PAGESZ, none⟩ sys) = some sys := munmap_mmap hunmapped
  simp only [hc.1, hc.2, ifSet, hunmap, Option.bind_eq_bind, Option.bind_some]

theorem freeLock_unlockp (hunmapped : sys.mapped unlock = none) (hc : c.unlockp = none) :
    freeLock opens { c with unlockp := some unlock } 0 (mmap unlock ⟨CM_PAGESZ, none⟩ sys) =
      freeLock opens c 0 sys := by
  rw [freeLock, freeLock, if_pos (show (0 : Int) = CM_LOCKDEV from rfl),
    if_pos (show (0 : Int) = CM_LOCKDEV from rfl)]
  have hunmap : munmap unlock CM_PAGESZ (mmap unlock ⟨CM_PAGESZ, none⟩ sys) = some sys := munmap_mmap hunmapped
  simp only [hc, ifSet, hunmap, Option.bind_eq_bind, Option.bind_some]

theorem Prepared.mapped_pages (h : Prepared o sys₀ infop page cflag devfd sys) (m₁ m₂ : Mapping)
    (hfresh : o.Fresh sys₀) (hmapped : sys'.mapped = sys.mapped)
    (hc : c.info = some infop ∧ c.lockp = some lock ∧ c.unlockp = some unlock)
    (hpages : lock ≠ infop ∧ unlock ≠ infop ∧ unlock ≠ lock)
    (hunmapped : sys₀.mapped lock = none ∧ sys₀.mapped unlock = none) :
    (∀ a, a ∉ c.maps → (mmap unlock m₂ (mmap lock m₁ sys')).mapped a = sys₀.mapped a) ∧
      (∀ a ∈ c.maps, sys₀.mapped a = none) ∧
      (mmap unlock m₂ (mmap lock m₁ sys')).mapped infop = some ⟨page.filelen, some page⟩ ∧
      (mmap unlock m₂ (mmap lock m₁ sys')).mapped lock = some m₁ ∧ c.maps.Nodup := by
  obtain ⟨hli, hui, hul⟩ := hpages
  have hmaps : c.maps = [infop, lock, unlock] := by rw [Cmap.maps, hc.1, hc.2.1, hc.2.2]; rfl
  refine ⟨fun a ha => ?_, fun a ha => ?_, ?_, ?_, ?_⟩
  · rw [hmaps] at ha
    simp only [List.mem_cons, List.not_mem_nil, or_false, not_or] at ha
    rw [mmap_of_ne ha.2.2, mmap_of_ne ha.2.1, hmapped, h.mapped, Function.update_of_ne ha.1]
  · rw [hmaps] at ha
    simp only [List.mem_cons, List.not_mem_nil, or_false] at ha
    rcases ha with rfl | rfl | rfl
    · exact h.unmapped hfresh
    · exact hunmapped.1
    · exact hunmapped.2
  · rw [mmap_of_ne (Ne.symm hui), mmap_of_ne (Ne.symm hli), hmapped, h.mapped, Function.update_self]
  · rw [mmap_of_ne (Ne.symm hul), mmap_self]
  · rw [hmaps]
    simp only [List.nodup_cons, List.mem_cons, List.not_mem_nil, or_false, not_or, not_false_eq_true,
      List.nodup_nil, and_true]
    exact ⟨⟨Ne.symm hli, Ne.symm hui⟩, Ne.symm hul⟩

theorem grabLock_device (hfresh : o.Fresh sys₀) (hshared : Shared sys₀.devlist uses)
    (hlive : ∀ x ∈ fdsOf sys₀.devlist, sys₀.opened x = true)
    (hwinlock : ∀ fd, sys₀.lock_fd = some fd → sys₀.opened fd = true)
    (h : Prepared o sys₀ infop page cflag devfd sys) (hkind : page.lock = CM_LOCKDEV) :
    Settled opens sys₀ token
      (grabLock o page cflag token { Cmap.new with info := some infop } devfd sys) := by
  rw [grabLock, if_pos hkind]
  rcases lockDevice_cases hfresh h with hnone | ⟨lockfd, sys₁, hdevice, hcase⟩
  · refine .inr ⟨.prepared infop devfd, ⟨cflag, page.filelen, page.lock⟩, sys, ?_,
      h.failed ⟨rfl, rfl, rfl⟩ ⟨rfl, rfl⟩ ?_⟩
    · rw [hnone]
      rfl
    · rw [hkind]
      rfl
  · rw [hdevice]
    dsimp only
    have hfreed := freeLock_device opens infop hcase
    obtain ⟨hmapped, hdevlist, hsize, hlockfd, hopened, hnews⟩ := hcase.same
    cases hlock : o.mmapLock with
    | none => exact .inr ⟨_, _, sys₁, rfl, h.failed ⟨rfl, rfl, rfl⟩ ⟨rfl, rfl⟩ hfreed⟩
    | some lock =>
        obtain ⟨hli, hfree, hlockp, hunlocks⟩ := h.pages hfresh hlock
        have hfreed' : freeLock opens { Cmap.prepared infop devfd with lockfd := some lockfd, lockp := some lock } 0
            (mmap lock ⟨CM_PAGESZ, none⟩ sys₁) = some sys :=
          (freeLock_lockp (hmapped ▸ hlockp) ⟨rfl, rfl⟩).trans hfreed
        cases hunlock : o.mmapUnlock with
        | none => exact .inr ⟨_, _, _, rfl, h.failed ⟨rfl, rfl, rfl⟩ ⟨rfl, rfl⟩ hfreed'⟩
        | some unlock =>
            obtain ⟨hui, hul, hfree', hunlockp⟩ := hunlocks unlock hunlock
            have hnew : (mmap lock ⟨CM_PAGESZ, none⟩ sys₁).mapped unlock = none := by
              rw [mmap_of_ne hul, hmapped]
              exact hunlockp
            obtain ⟨hothers, hunmapped, hinfo, hlocked, hnodup⟩ := h.mapped_pages ⟨CM_PAGESZ, none⟩
              ⟨CM_PAGESZ, none⟩ hfresh (c := { Cmap.prepared infop devfd with
                lockfd := some lockfd, lockp := some lock, unlockp := some unlock }) hmapped ⟨rfl, rfl, rfl⟩
                ⟨hli, hui, hul⟩ ⟨hfree, hfree'⟩
            refine grabWindows_settled hfresh hshared hlive
              ⟨hothers, hunmapped, fun fd hfd => hopened fd (h.opened fd hfd),
              fun fd hfd => ?_, fun fd hfd => ?_, .inl (hlockfd.trans h.lock_fd), hdevlist.trans h.devlist,
              hsize.trans h.pagesize,
              ⟨⟨infop, page, rfl, hinfo, ?_⟩, hnodup, rfl⟩⟩ ⟨rfl, rfl, rfl⟩ (.inr ?_)
            · rcases hnews fd hfd with hold | hnew
              · exact (h.news fd hold).imp_right fun hdevice => by simp [hdevice]
              · exact .inr (by simp [hnew])
            · rcases hcase with ⟨rfl, -⟩ | ⟨hne, hclosed, -, -, rfl⟩
              · rw [Cmap.locks, if_pos rfl] at hfd
                cases hfd
              · rw [Cmap.locks, if_neg fun heq => hne (Option.some.inj heq)] at hfd
                obtain rfl := List.mem_singleton.mp hfd
                refine ⟨hclosed, openFd_self, fun heq => ?_⟩
                rw [hwinlock fd (h.lock_fd ▸ heq)] at hclosed
                cases hclosed
            · rw [Held, if_pos hkind]
              exact ⟨lock, unlock, rfl, rfl, hlocked, mmap_self⟩
            · refine Option.bind_eq_some_iff.mpr ⟨sys, ?_, h.rest⟩
              rw [hkind]
              exact (freeLock_unlockp (c := { Cmap.prepared infop devfd with
                lockfd := some lockfd, lockp := some lock }) hnew rfl).trans hfreed'

theorem munmap_mmap_of_ne (m₁ m₂ : Mapping) (hunmapped : sys.mapped lock = none) (hne : unlock ≠ lock) :
    munmap lock m₁.len (mmap unlock m₂ (mmap lock m₁ sys)) = some (mmap unlock m₂ sys) := by
  have hmapped : Function.update (mmap unlock m₂ (mmap lock m₁ sys)).mapped lock none =
      (mmap unlock m₂ sys).mapped := by
    rw [mmap, mmap, mmap, Function.update_comm hne, Function.update_idem, ← hunmapped, Function.update_eq_self]
  rw [munmap, if_pos]
  · rw [hmapped]
    rfl
  · rw [mmap_of_ne (Ne.symm hne), mmap_self, Option.map_some]

def Winlock (o : Outcomes) (sys sys' : Sys) : Prop :=
  sys.lock_fd ≠ none ∧ sys' = sys ∨
    sys.lock_fd = none ∧ ∃ fd, o.openWinlock = some fd ∧ sys' = { openFd fd sys with lock_fd := some fd }

theorem init_cases (o : Outcomes) (sys : Sys) :
    sys.lock_fd = none ∧ o.openWinlock = none ∧ init o.openWinlock sys = none ∨
      ∃ sys', init o.openWinlock sys = some sys' ∧ Winlock o sys sys' := by
  rw [init]
  cases hlock : sys.lock_fd with
  | some fd => exact .inr ⟨sys, rfl, .inl ⟨hlock ▸ nofun, rfl⟩⟩
  | none =>
      cases hopen : o.openWinlock with
      | none => exact .inl ⟨rfl, rfl, rfl⟩
      | some fd => exact .inr ⟨_, rfl, .inr ⟨hlock, fd, hopen, rfl⟩⟩

theorem Winlock.same (h : Winlock o sys sys') : sys'.mapped = sys.mapped ∧ sys'.devlist = sys.devlist ∧
    sys'.pagesize = sys.pagesize ∧ sys'.lock_fd ≠ none ∧ (∀ fd, sys.opened fd = true → sys'.opened fd = true) ∧
      ∀ fd, sys'.opened fd = true → sys.opened fd = true ∨ o.openWinlock = some fd := by
  rcases h with ⟨hlock, rfl⟩ | ⟨-, fd', hopen, rfl⟩
  · exact ⟨rfl, rfl, rfl, hlock, fun _ h => h, fun _ => .inl⟩
  · refine ⟨rfl, rfl, rfl, nofun, fun fd hfd => openFd_opened hfd fd', fun fd hfd => ?_⟩
    refine (opened_openFd hfd).imp_right fun heq => ?_
    rw [heq]
    exact hopen

structure Outcomes.LockFits (o : Outcomes) (page : Grabbedcmap) (sys : Sys) : Prop where
  again : sys.lock_fd = none → o.openWinlock = none → o.openWinlockAgain = none
  pages : sys.lock_fd ≠ none ∨ o.openWinlock ≠ none → o.mmapLock ≠ none ∧ o.mmapUnlock ≠ none
  windows : sys.lock_fd = none → o.openWinlock ≠ none → windowsOpen o page sys.devlist

theorem grabLock_winlock (hfresh : o.Fresh sys₀) (hshared : Shared sys₀.devlist uses)
    (hlive : ∀ x ∈ fdsOf sys₀.devlist, sys₀.opened x = true) (hfits : o.LockFits page sys₀)
    (h : Prepared o sys₀ infop page cflag devfd sys) (hkind : page.lock = CM_WINLOCK) :
    Settled o.openWinlockAgain sys₀ token
      (grabLock o page cflag token { Cmap.new with info := some infop } devfd sys) := by
  have hother : ¬page.lock = CM_LOCKDEV := by
    rw [hkind]
    decide
  rw [grabLock, if_neg hother, if_pos hkind, winlockat]
  rcases init_cases o sys with ⟨hnone, hopen, hinit⟩ | ⟨sys₁, hinit, hcase⟩
  · refine .inr ⟨.prepared infop devfd, ⟨cflag, page.filelen, page.lock⟩, sys, ?_,
      h.failed ⟨rfl, rfl, rfl⟩ ⟨rfl, rfl⟩ ?_⟩
    · rw [hinit]
      rfl
    · rw [freeLock, if_neg hother, if_pos hkind, winlockdt, init, hnone, hfits.again (h.lock_fd ▸ hnone) hopen]
      rfl
  · obtain ⟨hmapped, hdevlist, hsize, hlockfd, hopened, hnews⟩ := hcase.same
    obtain ⟨hlock, hunlock⟩ := hfits.pages (by
      rcases hcase with ⟨hsome, -⟩ | ⟨-, fd, hopen, -⟩
      · exact .inl (h.lock_fd ▸ hsome)
      · exact .inr (hopen ▸ nofun))
    obtain ⟨lock, hlock⟩ := Option.ne_none_iff_exists'.mp hlock
    obtain ⟨unlock, hunlock⟩ := Option.ne_none_iff_exists'.mp hunlock
    obtain ⟨hli, hfree, hlockp, hunlocks⟩ := h.pages hfresh hlock
    obtain ⟨hui, hul, hfree', hunlockp⟩ := hunlocks unlock hunlock
    rw [hinit, hlock, hunlock]
    dsimp only
    rw [Option.bind_some]
    obtain ⟨hothers, hunmapped, hinfo, hlocked, hnodup⟩ := h.mapped_pages ⟨sys₁.pagesize, none⟩
      ⟨sys₁.pagesize, none⟩ hfresh
      (c := { Cmap.prepared infop devfd with lockp := some lock, unlockp := some unlock })
      hmapped ⟨rfl, rfl, rfl⟩ ⟨hli, hui, hul⟩ ⟨hfree, hfree'⟩
    refine grabWindows_settled hfresh hshared hlive ⟨hothers, hunmapped, fun fd hfd => hopened fd (h.opened fd hfd),
      fun fd hfd => ?_, nofun, ?_, hdevlist.trans h.devlist, hsize.trans h.pagesize,
      ⟨⟨infop, page, rfl, hinfo, ?_⟩, hnodup, rfl⟩⟩ ⟨rfl, rfl, rfl⟩ ?_
    · rcases hnews fd hfd with hold | hnew
      · exact (h.news fd hold).imp_right fun hdevice => by simp [hdevice]
      · exact .inr (by simp [hnew])
    · rcases hcase with ⟨-, rfl⟩ | ⟨hnone, fd, hopen, rfl⟩
      · exact .inl h.lock_fd
      · exact .inr ⟨h.lock_fd ▸ hnone, fd, rfl, hfresh.unopened fd (by simp [hopen]), openFd_self⟩
    · rw [Held, if_neg hother, if_pos hkind]
      exact ⟨rfl, hlockfd, lock, unlock, rfl, rfl, hlocked, mmap_self⟩
    · rcases hcase with ⟨hsome, rfl⟩ | ⟨hnone, fd, hopen, -⟩
      · refine .inr (Option.bind_eq_some_iff.mpr ⟨sys₁, ?_, h.rest⟩)
        obtain ⟨fd, hfd⟩ := Option.ne_none_iff_exists'.mp hsome
        have hopen : init o.openWinlockAgain
              (mmap unlock ⟨sys₁.pagesize, none⟩ (mmap lock ⟨sys₁.pagesize, none⟩ sys₁)) =
            some (mmap unlock ⟨sys₁.pagesize, none⟩ (mmap lock ⟨sys₁.pagesize, none⟩ sys₁)) := by
          rw [init]
          dsimp only [mmap]
          rw [hfd]
        have hfirst := munmap_mmap_of_ne ⟨sys₁.pagesize, none⟩ ⟨sys₁.pagesize, none⟩ hlockp hul
        have hsecond := munmap_mmap (m := ⟨sys₁.pagesize, none⟩) hunlockp
        dsimp only at hfirst hsecond
        rw [freeLock, if_neg hother, if_pos hkind, winlockdt, hopen]
        simp only [onSome, Option.bind_eq_bind, Option.bind_some]
        exact (congrArg (Option.bind · _) hfirst).trans hsecond
      · exact .inl (hfits.windows (h.lock_fd ▸ hnone) (hopen ▸ nofun))

theorem grabLock_other (hfresh : o.Fresh sys₀) (hshared : Shared sys₀.devlist uses)
    (hlive : ∀ x ∈ fdsOf sys₀.devlist, sys₀.opened x = true) (h : Prepared o sys₀ infop page cflag devfd sys)
    (hkind : page.lock ≠ CM_LOCKDEV ∧ page.lock ≠ CM_WINLOCK) :
    Settled opens sys₀ token
      (grabLock o page cflag token { Cmap.new with info := some infop } devfd sys) := by
  rw [grabLock, if_neg hkind.1, if_neg hkind.2]
  have hmaps : (Cmap.prepared infop devfd).maps = [infop] := rfl
  refine grabWindows_settled hfresh hshared hlive (c := .prepared infop devfd)
    ⟨fun a ha => ?_, fun a ha => ?_, h.opened,
    fun fd hfd => (h.news fd hfd).imp_right fun hdevice => by simp [hdevice], nofun, .inl h.lock_fd, h.devlist,
    h.pagesize, ⟨⟨infop, page, rfl, ?_, ?_⟩, List.nodup_singleton _, rfl⟩⟩ ⟨rfl, rfl, rfl⟩ (.inr ?_)
  · rw [hmaps, List.mem_singleton] at ha
    rw [h.mapped, Function.update_of_ne ha]
  · rw [hmaps, List.mem_singleton] at ha
    exact ha ▸ h.unmapped hfresh
  · rw [h.mapped, Function.update_self]
  · rw [Held, if_neg hkind.1, if_neg hkind.2]
    exact ⟨rfl, rfl, rfl⟩
  · refine Option.bind_eq_some_iff.mpr ⟨sys, ?_, h.rest⟩
    rw [freeLock, if_neg hkind.1, if_neg hkind.2]

theorem grabLock_settled (hfresh : o.Fresh sys₀) (hshared : Shared sys₀.devlist uses)
    (hlive : ∀ x ∈ fdsOf sys₀.devlist, sys₀.opened x = true)
    (hwinlock : ∀ fd, sys₀.lock_fd = some fd → sys₀.opened fd = true)
    (hfits : page.lock = CM_WINLOCK → o.LockFits page sys₀) (h : Prepared o sys₀ infop page cflag devfd sys) :
    Settled o.openWinlockAgain sys₀ token
      (grabLock o page cflag token { Cmap.new with info := some infop } devfd sys) := by
  by_cases hdevice : page.lock = CM_LOCKDEV
  · exact grabLock_device hfresh hshared hlive hwinlock h hdevice
  · by_cases hlock : page.lock = CM_WINLOCK
    · exact grabLock_winlock hfresh hshared hlive (hfits hlock) h hlock
    · exact grabLock_other hfresh hshared hlive h ⟨hdevice, hlock⟩

def Outcomes.reached (o : Outcomes) (fd : Option Fd) : Option Grabbedcmap :=
  if o.openInfo ≠ none ∧ o.mmapInfo ≠ none ∧ (fd ≠ none ∨ o.openDevice ≠ none) then
    o.readInfo.filter fun page => page.magic = CMMAGIC
  else none

def Outcomes.Fits (o : Outcomes) (fd : Option Fd) (sys : Sys) : Prop :=
  ∀ page, o.reached fd = some page →
    (∀ devfd, fd = some devfd → sys.opened devfd = true) ∧ (page.lock = CM_WINLOCK → o.LockFits page sys)

theorem freeAll_new (filelen : Int) : freeAll opens .new ⟨false, filelen, 0⟩ sys = some sys := rfl

theorem freeInfo_mmap (sys : Sys) (hunmapped : sys.mapped infop = none)
    (hc : c.info = some infop ∧ c.infofd = none) :
    freeInfo c page.filelen (mmap infop ⟨page.filelen, some page⟩ sys) = some sys := by
  have hunmap : munmap infop page.filelen (mmap infop ⟨page.filelen, some page⟩ sys) = some sys :=
    munmap_mmap hunmapped
  rw [freeInfo, hc.1, hc.2, ifSet, hunmap]
  rfl

theorem grabDevice_settled {fd : Option Fd} (hfresh : o.Fresh sys₀) (hshared : Shared sys₀.devlist uses)
    (hlive : ∀ x ∈ fdsOf sys₀.devlist, sys₀.opened x = true)
    (hwinlock : ∀ fd, sys₀.lock_fd = some fd → sys₀.opened fd = true) (hinfo : o.mmapInfo = some infop)
    (hfits : (fd ≠ none ∨ o.openDevice ≠ none) →
      (∀ devfd, fd = some devfd → sys₀.opened devfd = true) ∧ (page.lock = CM_WINLOCK → o.LockFits page sys₀)) :
    Settled o.openWinlockAgain sys₀ token (grabDevice o fd page token { Cmap.new with info := some infop }
      (mmap infop ⟨page.filelen, some page⟩ sys₀)) := by
  have hunmapped : sys₀.mapped infop = none := hfresh.unmapped infop (by simp [hinfo])
  cases fd with
  | some devfd =>
      obtain ⟨hopen, hlock⟩ := hfits (.inl nofun)
      rw [grabDevice]
      refine grabLock_settled hfresh hshared hlive hwinlock hlock
        ⟨hinfo, rfl, fun _ h => h, fun _ => .inl, hopen devfd rfl,
        rfl, rfl, rfl, ?_⟩
      rw [freeRest, freeInfo_mmap sys₀ hunmapped ⟨rfl, rfl⟩]
      rfl
  | none =>
      cases hdevice : o.openDevice with
      | none =>
          rw [grabDevice, hdevice]
          refine .inr ⟨_, _, _, rfl, freeAll_eq rfl rfl ?_⟩
          rw [freeRest, freeInfo_mmap sys₀ hunmapped ⟨rfl, rfl⟩]
          rfl
      | some devfd =>
          have hclosed : sys₀.opened devfd = false := hfresh.unopened devfd (by simp [hdevice])
          obtain ⟨-, hlock⟩ := hfits (.inr (hdevice ▸ nofun))
          rw [grabDevice, hdevice]
          refine grabLock_settled hfresh hshared hlive hwinlock hlock
            ⟨hinfo, rfl, fun fd hfd => openFd_opened hfd devfd,
            fun fd hfd => ?_, openFd_self, rfl, rfl, rfl, ?_⟩
          · refine (opened_openFd hfd).imp_right fun heq => ?_
            rw [heq]
            exact hdevice
          · have hfree : freeInfo (.prepared infop devfd) page.filelen (openFd devfd
                (mmap infop ⟨page.filelen, some page⟩ sys₀)) = some (openFd devfd sys₀) :=
              freeInfo_mmap (openFd devfd sys₀) hunmapped ⟨rfl, rfl⟩
            rw [freeRest, hfree]
            exact closeFd_openFd hclosed

theorem grabInfo_settled {fd : Option Fd} (token : Token) (hfresh : o.Fresh sys₀)
    (hshared : Shared sys₀.devlist uses)
    (hlive : ∀ x ∈ fdsOf sys₀.devlist, sys₀.opened x = true)
    (hwinlock : ∀ fd, sys₀.lock_fd = some fd → sys₀.opened fd = true) (hfits : o.Fits fd sys₀) :
    Settled o.openWinlockAgain sys₀ token (grabInfo o fd token .new sys₀) := by
  rw [grabInfo]
  cases hopen : o.openInfo with
  | none => exact .inr ⟨_, _, _, rfl, freeAll_new 0⟩
  | some infofd =>
      have hclosed : sys₀.opened infofd = false := hfresh.unopened infofd (by simp [hopen])
      cases hread : o.readInfo with
      | none =>
          dsimp only
          rw [closeFd_openFd hclosed]
          exact .inr ⟨_, _, _, rfl, freeAll_new 0⟩
      | some page =>
          dsimp only
          by_cases hmagic : page.magic ≠ CMMAGIC
          · rw [if_pos hmagic, closeFd_openFd hclosed]
            exact .inr ⟨_, _, _, rfl, freeAll_new 0⟩
          · rw [if_neg hmagic]
            cases hinfo : o.mmapInfo with
            | none =>
                dsimp only
                rw [closeFd_openFd hclosed]
                exact .inr ⟨_, _, _, rfl, freeAll_new page.filelen⟩
            | some infop =>
                have hstill : (mmap infop ⟨page.filelen, some page⟩ sys₀).opened infofd = false := hclosed
                have hclose : closeFd infofd (mmap infop ⟨page.filelen, some page⟩ (openFd infofd sys₀)) =
                    some (mmap infop ⟨page.filelen, some page⟩ sys₀) := closeFd_openFd hstill
                dsimp only
                rw [hclose, Option.bind_some]
                refine grabDevice_settled hfresh hshared hlive hwinlock hinfo fun hdevice => hfits page ?_
                rw [Outcomes.reached, if_pos ⟨hopen ▸ nofun, hinfo ▸ nofun, hdevice⟩, hread, Option.filter_some,
                  decide_eq_true (Classical.not_not.mp hmagic), if_pos rfl]

end Lock

end OiUserland.Dga.ColormapGrabs
