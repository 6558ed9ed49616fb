import OiUserland.Lib.Runs
import OiUserland.Dga.ColormapGrabs

namespace OiUserland.Dga.ColormapGrabs

open Lib Lib.Runs

/-- Calls of the library, and descriptors that the program opens and closes itself. -/
inductive Op
  | grab (o : Outcomes) (fd : Option Fd) (filesuffix : Token)
  | ungrab (opens : Option Fd) (a : Addr) (cflag : Bool)
  | openFd (fd : Fd)
  | closeFd (fd : Fd)

/-- The successful grabs of each token, less its ungrabs. -/
structure Session where
  state : State
  net : Token → Int

def step : Op → Session → Option (Option Addr × Session)
  | .grab o fd filesuffix, s => (dgaCmGrab o fd filesuffix s.state).map fun r => (r.1, ⟨r.2,
      if r.1.isSome then Function.update s.net filesuffix (s.net filesuffix + 1) else s.net⟩)
  | .ungrab opens a cflag, s => (s.state.cmaps a).bind fun c => (dgaCmUngrab opens a cflag s.state).map fun state =>
      (none, ⟨state, Function.update s.net c.token (s.net c.token - 1)⟩)
  | .openFd fd, s => some (none, ⟨{ s.state with sys := ColormapGrabs.openFd fd s.state.sys }, s.net⟩)
  | .closeFd fd, s => (ColormapGrabs.closeFd fd s.state.sys).map fun sys =>
      (none, ⟨{ s.state with sys := sys }, s.net⟩)

def Owned (s : State) (fd : Fd) : Prop :=
  (∃ a c, s.cmaps a = some c ∧ fd ∈ c.locks) ∨ fd ∈ fdsOf s.sys.devlist ∨ s.sys.lock_fd = some fd

def Init (s : Session) : Prop :=
  (∃ mapped opened pagesize, s.state = ⟨fun _ => none, [], ⟨mapped, opened, [], none, pagesize⟩⟩) ∧
    s.net = fun _ => 0

/-- What is allocated, opened or mapped is new. A colormap that is ungrabbed has been grabbed, and the
program leaves the descriptors of the library alone. -/
def Legal : Op → Session → Prop
  | .grab o _ _, s => (∀ a, o.calloc = some a → s.state.cmaps a = none) ∧ o.Fresh s.state.sys
  | .ungrab _ a _, s => a ∈ s.state.grabbed_list
  | .openFd fd, s => s.state.sys.opened fd = false
  | .closeFd fd, s => s.state.sys.opened fd = true ∧ ¬Owned s.state fd

/-- A first grab meets the condition on its lock, the count of another one does not overflow, and the
frame buffer that is closed with the last ungrab is open and not a descriptor of the library. -/
def Fits : Op → Session → Prop
  | .grab o fd filesuffix, s =>
      (∀ a c, s.state.cmaps a = some c → c.token = filesuffix → c.grab_count + 1 < 2 ^ 31) ∧
        ((∀ a c, s.state.cmaps a = some c → c.token ≠ filesuffix) → o.calloc ≠ none → o.Fits fd s.state.sys)
  | .ungrab _ a cflag, s => cflag = true → ∀ c, s.state.cmaps a = some c → c.grab_count = 1 →
      ∃ fd, c.devfd = some fd ∧ s.state.sys.opened fd = true ∧ ¬Owned s.state fd
  | _, _ => True

def usesOf (cmaps : Addr → Option Cmap) (l : List Addr) (x : Fd) : Nat :=
  (l.map fun a => ((cmaps a).map fun c => c.windows.count x).getD 0).sum

structure Right (s : State) : Prop where
  nodup : s.grabbed_list.Nodup
  listed : ∀ a, a ∈ s.grabbed_list ↔ s.cmaps a ≠ none
  sound : ∀ a c, s.cmaps a = some c → Sound s.sys c ∧ 0 < c.grab_count
  tokens : ∀ a a' c c', s.cmaps a = some c → s.cmaps a' = some c' → c.token = c'.token → a = a'
  maps : ∀ a a' c c' p, s.cmaps a = some c → s.cmaps a' = some c' → p ∈ c.maps → p ∈ c'.maps → a = a'
  locks : ∀ a a' c c' fd, s.cmaps a = some c → s.cmaps a' = some c' → fd ∈ c.locks → fd ∈ c'.locks → a = a'
  held : ∀ a c fd, s.cmaps a = some c → fd ∈ c.locks →
    s.sys.opened fd = true ∧ s.sys.lock_fd ≠ some fd ∧ fd ∉ fdsOf s.sys.devlist
  shared : Shared s.sys.devlist (usesOf s.cmaps s.grabbed_list)
  live : ∀ x ∈ fdsOf s.sys.devlist, s.sys.opened x = true ∧ s.sys.lock_fd ≠ some x
  winlock : ∀ fd, s.sys.lock_fd = some fd → s.sys.opened fd = true

/-- The tokens in the list are those with more grabs than ungrabs, each once and with that difference as
its count. -/
structure Tallied (s : Session) : Prop where
  once : s.state.grabbed_list.Nodup ∧ ∀ a ∈ s.state.grabbed_list, ∀ a' ∈ s.state.grabbed_list,
    (s.state.cmaps a).map Cmap.token = (s.state.cmaps a').map Cmap.token → a = a'
  counts : ∀ token n, 0 < n → ((∃ a ∈ s.state.grabbed_list, ∃ c, s.state.cmaps a = some c ∧ c.token = token ∧
    (c.grab_count : Int) = n) ↔ s.net token = n)

/-- A step is done, and a grab that fails leaves everything as it was. -/
def Does (op : Op) (s : Session) : Prop :=
  ∃ r s', step op s = some (r, s') ∧ Right s'.state ∧ Tallied s' ∧
    ((∃ o fd filesuffix, op = .grab o fd filesuffix) → r = none → s' = s)

variable {s : State} {sys sys' sys'' : Sys} {a : Addr} {c c' : Cmap} {fd : Fd} {opens : Option Fd}

section Clean

variable {used used' : Fd → Nat} {page : Grabbedcmap}

structure FewerWindows (sys : Sys) (used : Fd → Nat) (sys' : Sys) : Prop where
  mapped : sys'.mapped = sys.mapped
  lock_fd : sys'.lock_fd = sys.lock_fd
  pagesize : sys'.pagesize = sys.pagesize
  shared : Shared sys'.devlist used
  fewer : ∀ x ∈ fdsOf sys'.devlist, x ∈ fdsOf sys.devlist
  opened : ∀ x, x ∉ fdsOf sys.devlist ∨ x ∈ fdsOf sys'.devlist → sys'.opened x = sys.opened x

theorem sunwindowsClose_fewer (hshared : Shared sys.devlist used)
    (hlive : ∀ x ∈ fdsOf sys.devlist, sys.opened x = true)
    (hfirst : used fd = used' fd + 1) (hothers : ∀ x, x ≠ fd → used x = used' x) :
    ∃ sys', sunwindowsClose fd sys = some sys' ∧ FewerWindows sys used' sys' := by
  have hmem : fd ∈ fdsOf sys.devlist := hshared.used fd (hfirst ▸ Nat.succ_pos _)
  cases hfind : sys.devlist.find? fun dlist => dlist.key.2 = fd with
  | none =>
      obtain ⟨dlist, hdlist, heq⟩ := List.mem_map.mp hmem
      exact absurd heq (by simpa using List.find?_eq_none.mp hfind dlist hdlist)
  | some dlist =>
      have hfd : dlist.key.2 = fd := by simpa using List.find?_some hfind
      have hkey : dlist.key ∈ sys.devlist.map RefCounts.Entry.key :=
        List.mem_map_of_mem (List.mem_of_find?_eq_some hfind)
      subst hfd
      obtain ⟨last, devlist', hrel, hshared', hlast, hsame⟩ := hshared.release hkey hfirst hothers
      have hfewer (x : Fd) (hx : x ∈ fdsOf devlist') : x ∈ fdsOf sys.devlist := by
        by_cases hxk : x = dlist.key.2
        · exact hxk ▸ hmem
        · exact (hsame x hxk).mp hx
      cases last with
      | false =>
          refine ⟨{ sys with devlist := devlist' }, ?_, ⟨rfl, rfl, rfl, hshared', hfewer, fun _ _ => rfl⟩⟩
          simp only [sunwindowsClose, hfind, hrel, Option.bind_some, Bool.false_eq_true, if_false]
      | true =>
          refine ⟨{ sys with
            opened := Function.update sys.opened dlist.key.2 false, devlist := devlist' }, ?_,
            ⟨rfl, rfl, rfl, hshared', hfewer, fun x hx => Function.update_of_ne ?_ ..⟩⟩
          · simp only [sunwindowsClose, hfind, hrel, Option.bind_some, if_true, closeFd, hlive _ hmem]
          · rintro rfl
            exact hx.elim (fun hnot => hnot hmem) (hlast.mp rfl)

theorem closeWindows_fewer (hshared : Shared sys.devlist fun x => used x + c.windows.count x)
    (hlive : ∀ x ∈ fdsOf sys.devlist, sys.opened x = true) :
    ∃ sys', closeWindows c sys = some sys' ∧ FewerWindows sys used sys' := by
  have hone (p : Option Fd) {sys : Sys} {used : Fd → Nat}
      (hshared : Shared sys.devlist fun x => used x + p.toList.count x)
      (hlive : ∀ x ∈ fdsOf sys.devlist, sys.opened x = true) :
      ∃ sys', ifSet sunwindowsClose p sys = some sys' ∧ FewerWindows sys used sys' := by
    cases p with
    | none => exact ⟨sys, rfl, rfl, rfl, rfl, hshared, fun _ h => h, fun _ _ => rfl⟩
    | some fd =>
        refine sunwindowsClose_fewer hshared hlive ?_ fun x hx => ?_
        · simp
        · simp [Ne.symm hx]
  have hboth : Shared sys.devlist fun x =>
      (used x + c.sunwindows_inst_fd.toList.count x) + c.sunwindows_def_fd.toList.count x := by
    have hcount : (fun x => used x + c.windows.count x) = fun x =>
        (used x + c.sunwindows_inst_fd.toList.count x) + c.sunwindows_def_fd.toList.count x := by
      funext x
      rw [Cmap.windows, List.count_append]
      omega
    exact hcount ▸ hshared
  obtain ⟨sys₁, hdef, h₁⟩ := hone _ hboth hlive
  have hlive₁ : ∀ x ∈ fdsOf sys₁.devlist, sys₁.opened x = true := fun x hx => by
    rw [h₁.opened x (.inr hx)]
    exact hlive x (h₁.fewer x hx)
  obtain ⟨sys₂, hinst, h₂⟩ := hone _ h₁.shared hlive₁
  refine ⟨sys₂, ?_, h₂.mapped.trans h₁.mapped, h₂.lock_fd.trans h₁.lock_fd,
    h₂.pagesize.trans h₁.pagesize, h₂.shared,
    fun x hx => h₁.fewer x (h₂.fewer x hx), fun x hx => ?_⟩
  · rw [closeWindows, hdef, Option.bind_some, hinst]
  · rcases hx with hx | hx
    · exact (h₂.opened x (.inl fun hmem => hx (h₁.fewer x hmem))).trans (h₁.opened x (.inl hx))
    · exact (h₂.opened x (.inr hx)).trans (h₁.opened x (.inr (h₂.fewer x hx)))

theorem munmap_mapped {m : Mapping} (h : sys.mapped a = some m) :
    munmap a m.len sys = some { sys with mapped := Function.update sys.mapped a none } := by
  rw [munmap, h]
  exact if_pos rfl

structure Freed (sys : Sys) (maps : List Addr) (fds : List Fd) (sys' : Sys) : Prop where
  mapped : ∀ p, p ∉ maps → sys'.mapped p = sys.mapped p
  opened : ∀ x, x ∉ fds → sys'.opened x = sys.opened x
  devlist : sys'.devlist = sys.devlist
  lock_fd : sys'.lock_fd = sys.lock_fd
  pagesize : sys'.pagesize = sys.pagesize

theorem Freed.refl (sys : Sys) : Freed sys [] [] sys := ⟨fun _ _ => rfl, fun _ _ => rfl, rfl, rfl, rfl⟩

theorem Freed.trans {maps maps' : List Addr} {fds fds' : List Fd} (h : Freed sys maps fds sys')
    (h' : Freed sys' maps' fds' sys'') : Freed sys (maps ++ maps') (fds ++ fds') sys'' := by
  refine ⟨fun p hp => ?_, fun x hx => ?_, h'.devlist.trans h.devlist, h'.lock_fd.trans h.lock_fd,
    h'.pagesize.trans h.pagesize⟩
  · rw [List.mem_append, not_or] at hp
    exact (h'.mapped p hp.2).trans (h.mapped p hp.1)
  · rw [List.mem_append, not_or] at hx
    exact (h'.opened x hx.2).trans (h.opened x hx.1)

theorem munmap_freed {m : Mapping} (h : sys.mapped a = some m) : ∃ sys', munmap a m.len sys = some sys' ∧
    Freed sys [a] [] sys' := by
  refine ⟨_, munmap_mapped h, fun p hp => ?_, fun _ _ => rfl, rfl, rfl, rfl⟩
  exact Function.update_of_ne (fun heq => hp (List.mem_singleton.mpr heq)) ..

theorem closeFd_freed (h : sys.opened fd = true) : ∃ sys', closeFd fd sys = some sys' ∧ Freed sys [] [fd] sys' := by
  refine ⟨_, if_pos h, fun _ _ => rfl, fun x hx => ?_, rfl, rfl, rfl⟩
  exact Function.update_of_ne (fun heq => hx (List.mem_singleton.mpr heq)) ..

theorem Freed.mono {maps maps' : List Addr} {fds fds' : List Fd} (h : Freed sys maps fds sys')
    (hmaps : ∀ p ∈ maps, p ∈ maps') (hfds : ∀ x ∈ fds, x ∈ fds') : Freed sys maps' fds' sys' :=
  ⟨fun p hp => h.mapped p fun hmem => hp (hmaps p hmem),
    fun x hx => h.opened x fun hmem => hx (hfds x hmem), h.devlist,
    h.lock_fd, h.pagesize⟩

theorem pages_freed {m : Mapping} {p q : Addr} (hp : sys.mapped p = some m) (hq : sys.mapped q = some m)
    (hne : q ≠ p) :
    ∃ sys₁ sys₂, munmap p m.len sys = some sys₁ ∧ munmap q m.len sys₁ = some sys₂ ∧ sys₁.pagesize = sys.pagesize ∧
      Freed sys [p, q] [] sys₂ := by
  obtain ⟨sys₁, hfirst, h₁⟩ := munmap_freed hp
  have hq₁ : sys₁.mapped q = some m := by
    rw [h₁.mapped q fun hmem => hne (List.mem_singleton.mp hmem)]
    exact hq
  obtain ⟨sys₂, hsecond, h₂⟩ := munmap_freed hq₁
  exact ⟨sys₁, sys₂, hfirst, hsecond, h₁.pagesize, h₁.trans h₂⟩

theorem freeLock_freed (opens : Option Fd) (hheld : Held sys c page)
    (hmaps : (c.lockp.toList ++ c.unlockp.toList).Nodup)
    (hlocks : ∀ fd ∈ c.locks, sys.opened fd = true) : ∃ sys', freeLock opens c page.lock sys = some sys' ∧
      Freed sys (c.lockp.toList ++ c.unlockp.toList) c.locks sys' := by
  rw [Held] at hheld
  rw [freeLock]
  by_cases hdevice : page.lock = CM_LOCKDEV
  · rw [if_pos hdevice] at hheld ⊢
    obtain ⟨lock, unlock, hlockp, hunlockp, hlock, hunlock⟩ := hheld
    rw [hlockp, hunlockp] at hmaps ⊢
    have hne : lock ≠ unlock := by
      rintro rfl
      exact (List.nodup_cons.mp hmaps).1 (List.mem_singleton_self _)
    obtain ⟨sys₁, sys₂, hfirst, hsecond, -, h₂⟩ := pages_freed hunlock hlock hne
    have hpages : ∀ p ∈ [unlock, lock], p ∈ (some lock).toList ++ (some unlock).toList := by
      intro p hp
      simp only [List.mem_cons, List.not_mem_nil, or_false] at hp
      rcases hp with rfl | rfl <;> simp
    simp only [ifSet, hfirst, hsecond, Option.bind_eq_bind, Option.bind_some]
    by_cases hsame : c.lockfd = c.devfd
    · rw [if_neg fun hne => hne hsame]
      exact ⟨sys₂, rfl, h₂.mono hpages fun _ h => by cases h⟩
    · have hlocksEq : c.locks = c.lockfd.toList := if_neg hsame
      rw [if_pos hsame, hlocksEq]
      rw [hlocksEq] at hlocks
      cases hfd : c.lockfd with
      | none => exact ⟨sys₂, rfl, h₂.mono hpages fun _ h => by cases h⟩
      | some fd =>
          have hopen : sys₂.opened fd = true := by
            rw [h₂.opened fd List.not_mem_nil]
            exact hlocks fd (by simp [hfd])
          obtain ⟨sys₃, hclose, h₃⟩ := closeFd_freed hopen
          exact ⟨sys₃, hclose,
            (h₂.trans h₃).mono (fun p hp => hpages p (by simpa using hp)) fun x hx => by simpa using hx⟩
  · rw [if_neg hdevice] at hheld ⊢
    by_cases hwinlock : page.lock = CM_WINLOCK
    · rw [if_pos hwinlock] at hheld ⊢
      obtain ⟨-, hlockfd, lock, unlock, hlockp, hunlockp, hlock, hunlock⟩ := hheld
      rw [hlockp, hunlockp] at hmaps ⊢
      have hne : unlock ≠ lock := by
        rintro rfl
        exact (List.nodup_cons.mp hmaps).1 (List.mem_singleton_self _)
      obtain ⟨sys₁, sys₂, hfirst, hsecond, hsize, h₂⟩ := pages_freed hlock hunlock hne
      obtain ⟨fd, hfd⟩ := Option.ne_none_iff_exists'.mp hlockfd
      have hinit : init opens sys = some sys := by rw [init, hfd]
      rw [← hsize] at hsecond
      dsimp only at hfirst hsecond
      refine ⟨sys₂, ?_, h₂.mono (fun p hp => by simpa using hp) fun _ h => by cases h⟩
      simp only [winlockdt, hinit, onSome, hfirst, hsecond, Option.bind_eq_bind, Option.bind_some]
    · rw [if_neg hwinlock] at hheld ⊢
      exact ⟨sys, rfl, (Freed.refl sys).mono (fun _ h => by cases h) fun _ h => by cases h⟩

theorem freeAll_freed (opens : Option Fd) (cflag : Bool) (hsound : Sound sys c)
    (hshared : Shared sys.devlist fun x => used x + c.windows.count x)
    (hlive : ∀ x ∈ fdsOf sys.devlist, sys.opened x = true)
    (hlocks : ∀ fd ∈ c.locks, sys.opened fd = true ∧ fd ∉ fdsOf sys.devlist)
    (hdevice : cflag = true →
      ∃ fd, c.devfd = some fd ∧ sys.opened fd = true ∧ fd ∉ c.locks ∧ fd ∉ fdsOf sys.devlist) :
    ∃ page sys', ((c.info.bind sys.mapped).bind Mapping.page) = some page ∧
      freeAll opens c ⟨cflag, page.filelen, page.lock⟩ sys = some sys' ∧
      (∀ p, p ∉ c.maps → sys'.mapped p = sys.mapped p) ∧ sys'.lock_fd = sys.lock_fd ∧ sys'.pagesize = sys.pagesize ∧
      Shared sys'.devlist used ∧ (∀ x ∈ fdsOf sys'.devlist, x ∈ fdsOf sys.devlist) ∧
      ∀ x, x ∉ fdsOf sys.devlist ∨ x ∈ fdsOf sys'.devlist → x ∉ c.locks → (cflag = true → c.devfd ≠ some x) →
        sys'.opened x = sys.opened x := by
  obtain ⟨infop, page, hinfo, hpage, hheld⟩ := hsound.held
  obtain ⟨sys₁, hwindows, h₁⟩ := closeWindows_fewer hshared hlive
  have hheld₁ : Held sys₁ c page := by
    rw [Held] at hheld ⊢
    rw [h₁.mapped, h₁.lock_fd, h₁.pagesize]
    exact hheld
  have hnodup := hsound.maps
  rw [Cmap.maps, hinfo] at hnodup
  obtain ⟨hnot, hpages⟩ := List.nodup_cons.mp hnodup
  obtain ⟨sys₂, hlock, h₂⟩ := freeLock_freed opens hheld₁ hpages fun fd hfd => by
    rw [h₁.opened fd (.inl (hlocks fd hfd).2)]
    exact (hlocks fd hfd).1
  have hpage₂ : sys₂.mapped infop = some ⟨page.filelen, some page⟩ := by
    rw [h₂.mapped infop hnot, h₁.mapped]
    exact hpage
  obtain ⟨sys₃, hunmap, h₃⟩ := munmap_freed hpage₂
  dsimp only at hunmap
  have hrest : freeInfo c page.filelen sys₂ = some sys₃ := by
    rw [freeInfo, hinfo, hsound.infofd, ifSet, hunmap]
    rfl
  obtain ⟨sys₄, hclose, h₄⟩ : ∃ sys₄, freeDevice c cflag sys₃ = some sys₄ ∧
      Freed sys₃ [] (if cflag then c.devfd.toList else []) sys₄ := by
    cases cflag with
    | false => exact ⟨sys₃, rfl, .refl sys₃⟩
    | true =>
        obtain ⟨fd, hfd, hopen, hnotLock, hnotShared⟩ := hdevice rfl
        have hopen₃ : sys₃.opened fd = true := by
          rw [h₃.opened fd List.not_mem_nil, h₂.opened fd hnotLock, h₁.opened fd (.inl hnotShared)]
          exact hopen
        rw [freeDevice, if_pos rfl, hfd, onSome, Option.bind_some, if_pos rfl]
        exact closeFd_freed hopen₃
  have hall := (h₂.trans h₃).trans h₄
  refine ⟨page, sys₄, ?_, ?_, fun p hp => ?_, hall.lock_fd.trans h₁.lock_fd, hall.pagesize.trans h₁.pagesize, ?_,
    fun x hx => ?_, fun x hx hxlock hxdevice => ?_⟩
  · rw [hinfo, Option.bind_some, hpage, Option.bind_some]
  · simp only [freeAll, hwindows, hlock, hrest, hclose, Option.bind_eq_bind, Option.bind_some]
  · rw [← h₁.mapped]
    refine hall.mapped p fun hmem => hp ?_
    rw [Cmap.maps, hinfo]
    simp only [List.mem_append, List.mem_singleton, List.not_mem_nil, or_false, Option.toList_some] at hmem ⊢
    tauto
  · rw [hall.devlist]
    exact h₁.shared
  · exact h₁.fewer x (hall.devlist ▸ hx)
  · rw [hall.devlist] at hx
    rw [← h₁.opened x hx]
    refine hall.opened x fun hmem => ?_
    simp only [List.mem_append, List.not_mem_nil, or_false] at hmem
    rcases hmem with hmem | hmem
    · exact hxlock hmem
    · cases cflag with
      | false => cases hmem
      | true => exact hxdevice rfl (Option.mem_toList.mp hmem)

end Clean

theorem update_some_iff {f : Addr → Option Cmap} {b : Addr} :
    Function.update f a (some c) b = some c' ↔ b = a ∧ c' = c ∨ b ≠ a ∧ f b = some c' := by
  by_cases hb : b = a
  · rw [hb, Function.update_self, Option.some_inj]
    exact ⟨fun h => .inl ⟨rfl, h.symm⟩, fun h => h.elim (fun h => h.2.symm) fun h => absurd rfl h.1⟩
  · rw [Function.update_of_ne hb]
    exact ⟨fun h => .inr ⟨hb, h⟩, fun h => h.elim (fun h => absurd h.1 hb) And.right⟩

theorem update_none_iff {f : Addr → Option Cmap} {b : Addr} :
    Function.update f a none b = some c' ↔ b ≠ a ∧ f b = some c' := by
  by_cases hb : b = a
  · rw [hb, Function.update_self]
    exact iff_of_false nofun fun h => h.1 rfl
  · rw [Function.update_of_ne hb]
    exact ⟨fun h => ⟨hb, h⟩, And.right⟩

theorem Sound.mapped (h : Sound sys c) {p : Addr} (hp : p ∈ c.maps) : sys.mapped p ≠ none := by
  obtain ⟨infop, page, hinfo, hpage, hheld⟩ := h.held
  rw [Cmap.maps, hinfo] at hp
  simp only [Option.toList_some, List.mem_append, List.mem_singleton] at hp
  rcases hp with rfl | hp
  · rw [hpage]
    rintro ⟨⟩
  · rw [Held] at hheld
    split at hheld
    · obtain ⟨lock, unlock, hlockp, hunlockp, hlock, hunlock⟩ := hheld
      rw [hlockp, hunlockp] at hp
      simp only [Option.toList_some, List.mem_singleton] at hp
      rcases hp with rfl | rfl
      · rw [hlock]
        rintro ⟨⟩
      · rw [hunlock]
        rintro ⟨⟩
    · split at hheld
      · obtain ⟨-, -, lock, unlock, hlockp, hunlockp, hlock, hunlock⟩ := hheld
        rw [hlockp, hunlockp] at hp
        simp only [Option.toList_some, List.mem_singleton] at hp
        rcases hp with rfl | rfl
        · rw [hlock]
          rintro ⟨⟩
        · rw [hunlock]
          rintro ⟨⟩
      · rw [hheld.2.1, hheld.2.2] at hp
        simp at hp

theorem Sound.keep (h : Sound sys c) (hmapped : ∀ p ∈ c.maps, sys'.mapped p = sys.mapped p)
    (hlock : sys.lock_fd ≠ none → sys'.lock_fd ≠ none) (hsize : sys'.pagesize = sys.pagesize) : Sound sys' c := by
  obtain ⟨infop, page, hinfo, hpage, hheld⟩ := h.held
  have hin : ∀ p, p = infop ∨ c.lockp = some p ∨ c.unlockp = some p → p ∈ c.maps := by
    intro p hp
    rw [Cmap.maps, hinfo]
    simp only [Option.toList_some, List.mem_append, List.mem_singleton, Option.mem_toList]
    exact hp
  refine ⟨⟨infop, page, hinfo, ?_, ?_⟩, h.maps, h.infofd⟩
  · rw [hmapped infop (hin infop (.inl rfl))]
    exact hpage
  · rw [Held] at hheld ⊢
    by_cases hdevice : page.lock = CM_LOCKDEV
    · rw [if_pos hdevice] at hheld ⊢
      obtain ⟨lock, unlock, hlockp, hunlockp, hl, hu⟩ := hheld
      exact ⟨lock, unlock, hlockp, hunlockp, (hmapped lock (hin lock (.inr (.inl hlockp)))).trans hl,
        (hmapped unlock (hin unlock (.inr (.inr hunlockp)))).trans hu⟩
    · rw [if_neg hdevice] at hheld ⊢
      by_cases hwinlock : page.lock = CM_WINLOCK
      · rw [if_pos hwinlock] at hheld ⊢
        obtain ⟨hlockfd, hopen, lock, unlock, hlockp, hunlockp, hl, hu⟩ := hheld
        rw [hsize]
        exact ⟨hlockfd, hlock hopen, lock, unlock, hlockp, hunlockp,
          (hmapped lock (hin lock (.inr (.inl hlockp)))).trans hl,
          (hmapped unlock (hin unlock (.inr (.inr hunlockp)))).trans hu⟩
      · rw [if_neg hwinlock] at hheld ⊢
        exact hheld

theorem usesOf_cons {cmaps : Addr → Option Cmap} {l : List Addr} (hnot : a ∉ l) :
    usesOf (Function.update cmaps a (some c)) (a :: l) = fun x => usesOf cmaps l x + c.windows.count x := by
  funext x
  rw [usesOf, usesOf, List.map_cons, List.sum_cons, Function.update_self, Nat.add_comm]
  refine congrArg (· + _) (congrArg List.sum (List.map_congr_left fun b hb => ?_))
  rw [Function.update_of_ne fun heq : b = a => hnot (heq ▸ hb)]

theorem usesOf_erase {cmaps : Addr → Option Cmap} {l : List Addr} (hnodup : l.Nodup) (hmem : a ∈ l)
    (hc : cmaps a = some c) :
    usesOf cmaps l = fun x => usesOf (Function.update cmaps a none) (l.erase a) x + c.windows.count x := by
  funext x
  have hperm := (List.perm_cons_erase hmem).map fun b => ((cmaps b).map fun c => c.windows.count x).getD 0
  rw [usesOf, hperm.sum_nat, List.map_cons, List.sum_cons, hc, Option.map_some, Option.getD_some,
    Nat.add_comm, usesOf]
  refine congrArg (· + _) (congrArg List.sum (List.map_congr_left fun b hb => ?_))
  rw [Function.update_of_ne fun heq : b = a => hnodup.not_mem_erase (heq ▸ hb)]

theorem Right.gained (h : Right s) (hnone : s.cmaps a = none) (hgain : Gained s.sys c sys)
    (hcount : 0 < c.grab_count)
    (htoken : ∀ a' c', s.cmaps a' = some c' → c'.token ≠ c.token) :
    Right ⟨Function.update s.cmaps a (some c), a :: s.grabbed_list, sys⟩ := by
  have hnot : a ∉ s.grabbed_list := fun hmem => (h.listed a).mp hmem hnone
  have hclosed {fd : Fd} (hopen : s.sys.opened fd = true) : s.sys.opened fd ≠ false := hopen ▸ nofun
  refine ⟨List.nodup_cons.mpr ⟨hnot, h.nodup⟩, fun b => ?_, fun b d hd => ?_, fun b b' d d' hd hd' heq => ?_,
    fun b b' d d' p hd hd' hp hp' => ?_, fun b b' d d' fd hd hd' hfd hfd' => ?_, fun b d fd hd hfd => ?_, ?_,
    fun x hx => ⟨hgain.live x hx, fun heq => ?_⟩, fun fd hfd => ?_⟩
  · by_cases hb : b = a
    · subst hb
      dsimp only
      rw [Function.update_self]
      exact iff_of_true List.mem_cons_self nofun
    · dsimp only
      rw [Function.update_of_ne hb, List.mem_cons, or_iff_right hb]
      exact h.listed b
  · rcases update_some_iff.mp hd with ⟨rfl, rfl⟩ | ⟨hb, hold⟩
    · exact ⟨hgain.sound, hcount⟩
    · refine ⟨(h.sound b d hold).1.keep (fun p hp => hgain.mapped p fun hmem => ?_)
        (fun hlock => ?_) hgain.pagesize,
        (h.sound b d hold).2⟩
      · exact (h.sound b d hold).1.mapped hp (hgain.unmapped p hmem)
      · rcases hgain.lock_fd with heq | ⟨hfree, -⟩
        · exact heq ▸ hlock
        · exact absurd hfree hlock
  · rcases update_some_iff.mp hd with ⟨rfl, rfl⟩ | ⟨hb, hold⟩
    · rcases update_some_iff.mp hd' with ⟨rfl, rfl⟩ | ⟨hb', hold'⟩
      · rfl
      · exact absurd heq.symm (htoken b' d' hold')
    · rcases update_some_iff.mp hd' with ⟨rfl, rfl⟩ | ⟨hb', hold'⟩
      · exact absurd heq (htoken b d hold)
      · exact h.tokens b b' d d' hold hold' heq
  · rcases update_some_iff.mp hd with ⟨rfl, rfl⟩ | ⟨hb, hold⟩
    · rcases update_some_iff.mp hd' with ⟨rfl, rfl⟩ | ⟨hb', hold'⟩
      · rfl
      · exact absurd (hgain.unmapped p hp) ((h.sound b' d' hold').1.mapped hp')
    · rcases update_some_iff.mp hd' with ⟨rfl, rfl⟩ | ⟨hb', hold'⟩
      · exact absurd (hgain.unmapped p hp') ((h.sound b d hold).1.mapped hp)
      · exact h.maps b b' d d' p hold hold' hp hp'
  · rcases update_some_iff.mp hd with ⟨rfl, rfl⟩ | ⟨hb, hold⟩
    · rcases update_some_iff.mp hd' with ⟨rfl, rfl⟩ | ⟨hb', hold'⟩
      · rfl
      · exact absurd (hgain.locks fd hfd).1 (hclosed (h.held b' d' fd hold' hfd').1)
    · rcases update_some_iff.mp hd' with ⟨rfl, rfl⟩ | ⟨hb', hold'⟩
      · exact absurd (hgain.locks fd hfd').1 (hclosed (h.held b d fd hold hfd).1)
      · exact h.locks b b' d d' fd hold hold' hfd hfd'
  · rcases update_some_iff.mp hd with ⟨rfl, rfl⟩ | ⟨hb, hold⟩
    · exact (hgain.locks fd hfd).2
    · obtain ⟨hopen, hlock, hshared⟩ := h.held b d fd hold hfd
      refine ⟨hgain.opened fd hopen, fun heq => ?_, fun hmem => ?_⟩
      · rcases hgain.lock_fd with hsame | ⟨-, fd', hfd', hnew, -⟩
        · exact hlock (hsame ▸ heq)
        · obtain rfl := Option.some.inj (heq.symm.trans hfd')
          exact hclosed hopen hnew
      · exact (hgain.news fd hmem).elim hshared (hclosed hopen)
  · rw [usesOf_cons hnot]
    exact hgain.shared _ h.shared
  · rcases hgain.lock_fd with hsame | ⟨-, fd', hfd', -, -, hnotShared⟩
    · have hlock : s.sys.lock_fd = some x := hsame ▸ heq
      rcases hgain.news x hx with hold | hnew
      · exact (h.live x hold).2 hlock
      · exact hclosed (h.winlock x hlock) hnew
    · obtain rfl := Option.some.inj (hfd'.symm.trans heq)
      exact hnotShared hx
  · rcases hgain.lock_fd with hsame | ⟨-, fd', hfd', -, hopen, -⟩
    · exact hgain.opened fd (h.winlock fd (hsame ▸ hfd))
    · obtain rfl := Option.some.inj (hfd'.symm.trans hfd)
      exact hopen

theorem Right.dropped {cflag : Bool} (h : Right s) (opens : Option Fd) (hc : s.cmaps a = some c)
    (hdevice : cflag = true → ∃ fd, c.devfd = some fd ∧ s.sys.opened fd = true ∧ ¬Owned s fd) :
    ∃ page sys', ((c.info.bind s.sys.mapped).bind Mapping.page) = some page ∧
      freeAll opens c ⟨cflag, page.filelen, page.lock⟩ s.sys = some sys' ∧
        Right ⟨Function.update s.cmaps a none, s.grabbed_list.erase a, sys'⟩ := by
  have hmem : a ∈ s.grabbed_list := by
    rw [h.listed, hc]
    nofun
  have hshared := h.shared
  rw [usesOf_erase h.nodup hmem hc] at hshared
  obtain ⟨page, sys', hpage, hfree, hmapped, hlock, hsize, hfewer, hsub, hopened⟩ := freeAll_freed opens cflag
    (h.sound a c hc).1 hshared (fun x hx => (h.live x hx).1)
    (fun fd hfd => ⟨(h.held a c fd hc hfd).1, (h.held a c fd hc hfd).2.2⟩) fun hcflag => by
      obtain ⟨fd, hfd, hopen, hown⟩ := hdevice hcflag
      exact ⟨fd, hfd, hopen, fun hin => hown (.inl ⟨a, c, hc, hin⟩), fun hin => hown (.inr (.inl hin))⟩
  -- a descriptor of the library is not the one of the frame buffer
  have hother {fd : Fd} (hown : Owned s fd) : cflag = true → c.devfd ≠ some fd := by
    intro hcflag heq
    obtain ⟨fd', hfd', -, hnot⟩ := hdevice hcflag
    obtain rfl := Option.some.inj (heq.symm.trans hfd')
    exact hnot hown
  refine ⟨page, sys', hpage, hfree, h.nodup.erase a, fun b => ?_, fun b d hd => ?_, fun b b' d d' hd hd' => ?_,
    fun b b' d d' p hd hd' => ?_, fun b b' d d' fd hd hd' => ?_, fun b d fd hd hfd => ?_, hfewer, fun x hx => ?_,
    fun fd hfd => ?_⟩
  · dsimp only
    rw [h.nodup.mem_erase_iff, h.listed b]
    by_cases hb : b = a
    · rw [hb, Function.update_self]
      exact iff_of_false (fun hne => hne.1 rfl) fun hne => hne rfl
    · rw [Function.update_of_ne hb]
      exact and_iff_right hb
  · obtain ⟨hb, hold⟩ := update_none_iff.mp hd
    obtain ⟨hsound, hcount⟩ := h.sound b d hold
    refine ⟨hsound.keep (fun p hp => hmapped p fun hmem => hb (h.maps b a d c p hold hc hp hmem))
      (fun hne => ?_) hsize, hcount⟩
    exact hlock ▸ hne
  · exact h.tokens b b' d d' (update_none_iff.mp hd).2 (update_none_iff.mp hd').2
  · exact h.maps b b' d d' p (update_none_iff.mp hd).2 (update_none_iff.mp hd').2
  · exact h.locks b b' d d' fd (update_none_iff.mp hd).2 (update_none_iff.mp hd').2
  · obtain ⟨hb, hold⟩ := update_none_iff.mp hd
    obtain ⟨hopen, hne, hnot⟩ := h.held b d fd hold hfd
    refine ⟨?_, hlock ▸ hne, fun hin => hnot (hsub fd hin)⟩
    rw [hopened fd (.inl hnot) (fun hin => hb (h.locks b a d c fd hold hc hfd hin))
      (hother (.inl ⟨b, d, hold, hfd⟩))]
    exact hopen
  · obtain ⟨hopen, hne⟩ := h.live x (hsub x hx)
    refine ⟨?_, hlock ▸ hne⟩
    rw [hopened x (.inr hx) (fun hin => (h.held a c x hc hin).2.2 (hsub x hx)) (hother (.inr (.inl (hsub x hx))))]
    exact hopen
  · have hold : s.sys.lock_fd = some fd := hlock ▸ hfd
    rw [hopened fd (.inl fun hin => (h.live fd hin).2 hold) (fun hin => (h.held a c fd hc hin).2.1 hold)
      (hother (.inr (.inr hold)))]
    exact h.winlock fd hold

theorem Right.recount (h : Right s) (hc : s.cmaps a = some c) {n : Nat} (hn : 0 < n) :
    Right { s with cmaps := Function.update s.cmaps a (some { c with grab_count := n }) } := by
  have hold {b : Addr} {d : Cmap} (hd : Function.update s.cmaps a (some { c with grab_count := n }) b = some d) :
      ∃ d', s.cmaps b = some d' ∧ d = { d' with grab_count := d.grab_count } ∧
        (0 < d'.grab_count → 0 < d.grab_count) := by
    rcases update_some_iff.mp hd with ⟨rfl, rfl⟩ | ⟨-, hsome⟩
    · exact ⟨c, hc, rfl, fun _ => hn⟩
    · exact ⟨d, hsome, rfl, id⟩
  refine ⟨h.nodup, fun b => ?_, fun b d hd => ?_, fun b b' d d' hd hd' heq => ?_,
    fun b b' d d' p hd hd' hp hp' => ?_,
    fun b b' d d' fd hd hd' hfd hfd' => ?_, fun b d fd hd hfd => ?_, ?_, h.live, h.winlock⟩
  · rw [h.listed b]
    by_cases hb : b = a
    · dsimp only
      rw [hb, Function.update_self, hc]
      exact iff_of_true nofun nofun
    · dsimp only
      rw [Function.update_of_ne hb]
  · obtain ⟨d', hd', heq, hpos⟩ := hold hd
    obtain ⟨hsound, hcount⟩ := h.sound b d' hd'
    refine ⟨?_, hpos hcount⟩
    rw [heq]
    exact ⟨hsound.held, hsound.maps, hsound.infofd⟩
  · obtain ⟨e, he, hde, -⟩ := hold hd
    obtain ⟨e', he', hde', -⟩ := hold hd'
    rw [hde, hde'] at heq
    exact h.tokens b b' e e' he he' heq
  · obtain ⟨e, he, hde, -⟩ := hold hd
    obtain ⟨e', he', hde', -⟩ := hold hd'
    rw [hde] at hp
    rw [hde'] at hp'
    exact h.maps b b' e e' p he he' hp hp'
  · obtain ⟨e, he, hde, -⟩ := hold hd
    obtain ⟨e', he', hde', -⟩ := hold hd'
    rw [hde] at hfd
    rw [hde'] at hfd'
    exact h.locks b b' e e' fd he he' hfd hfd'
  · obtain ⟨e, he, hde, -⟩ := hold hd
    rw [hde] at hfd
    exact h.held b e fd he hfd
  · have huses : usesOf (Function.update s.cmaps a (some { c with grab_count := n })) s.grabbed_list =
        usesOf s.cmaps s.grabbed_list := by
      funext x
      rw [usesOf, usesOf]
      refine congrArg List.sum (List.map_congr_left fun b _ => ?_)
      by_cases hb : b = a
      · rw [hb, Function.update_self, hc]
        rfl
      · rw [Function.update_of_ne hb]
    exact huses ▸ h.shared

theorem Right.reopened (h : Right s) {sys : Sys} (hopened : ∀ fd, Owned s fd → sys.opened fd = s.sys.opened fd)
    (hsame : sys = { s.sys with opened := sys.opened }) : Right { s with sys := sys } := by
  refine ⟨h.nodup, h.listed, fun b d hd => ?_, h.tokens, h.maps, h.locks, fun b d fd hd hfd => ?_, ?_,
    fun x hx => ?_,
    fun fd hfd => ?_⟩
  · obtain ⟨hsound, hcount⟩ := h.sound b d hd
    dsimp only
    rw [hsame]
    exact ⟨hsound.more rfl rfl rfl, hcount⟩
  · obtain ⟨hopen, hrest⟩ := h.held b d fd hd hfd
    refine ⟨(hopened fd (.inl ⟨b, d, hd, hfd⟩)).trans hopen, ?_⟩
    dsimp only
    rw [hsame]
    exact hrest
  · dsimp only
    rw [hsame]
    exact h.shared
  · dsimp only at hx ⊢
    rw [hsame] at hx
    obtain ⟨hopen, hne⟩ := h.live x hx
    refine ⟨(hopened x (.inr (.inl hx))).trans hopen, ?_⟩
    rw [hsame]
    exact hne
  · dsimp only at hfd ⊢
    rw [hsame] at hfd
    exact (hopened fd (.inr (.inr hfd))).trans (h.winlock fd hfd)

section Steps

variable {ss : Session} {op : Op}

def Tally (s : Session) : Prop := ∀ token,
  (∃ a c, s.state.cmaps a = some c ∧ c.token = token ∧ s.net token = c.grab_count) ∨
    (∀ a c, s.state.cmaps a = some c → c.token ≠ token) ∧ s.net token = 0

theorem Tally.tallied (h : Tally ss) (hright : Right ss.state) : Tallied ss := by
  refine ⟨⟨hright.nodup, fun a ha a' ha' heq => ?_⟩, fun token n hn => ⟨?_, fun hnet => ?_⟩⟩
  · obtain ⟨c, hc⟩ := Option.ne_none_iff_exists'.mp ((hright.listed a).mp ha)
    obtain ⟨c', hc'⟩ := Option.ne_none_iff_exists'.mp ((hright.listed a').mp ha')
    rw [hc, hc'] at heq
    exact hright.tokens a a' c c' hc hc' (Option.some.inj heq)
  · rintro ⟨a, -, c, hc, htoken, hcount⟩
    rcases h token with ⟨a', c', hc', htoken', hnet⟩ | ⟨hnone, -⟩
    · obtain rfl := hright.tokens a a' c c' hc hc' (htoken.trans htoken'.symm)
      obtain rfl := Option.some.inj (hc.symm.trans hc')
      exact hnet.trans hcount
    · exact absurd htoken (hnone a c hc)
  · rcases h token with ⟨a, c, hc, htoken, hcount⟩ | ⟨-, hzero⟩
    · exact ⟨a, (hright.listed a).mpr (hc ▸ nofun), c, hc, htoken, hcount.symm.trans hnet⟩
    · omega

theorem Tally.update (h : Tally ss) {cmaps : Addr → Option Cmap} {l : List Addr} {sys : Sys}
    {token : Token} {n : Int}
    (hself : (∃ a c, cmaps a = some c ∧ c.token = token ∧ n = c.grab_count) ∨
      (∀ a c, cmaps a = some c → c.token ≠ token) ∧ n = 0)
    (hothers : ∀ a c, c.token ≠ token → (cmaps a = some c ↔ ss.state.cmaps a = some c)) :
    Tally ⟨⟨cmaps, l, sys⟩, Function.update ss.net token n⟩ := by
  intro t
  by_cases ht : t = token
  · subst ht
    dsimp only
    rw [Function.update_self]
    exact hself
  · dsimp only
    rw [Function.update_of_ne ht]
    rcases h t with ⟨a, c, hc, htoken, hnet⟩ | ⟨hnone, hzero⟩
    · exact .inl ⟨a, c, (hothers a c (htoken ▸ ht)).mpr hc, htoken, hnet⟩
    · refine .inr ⟨fun a c hc htoken => ?_, hzero⟩
      exact hnone a c ((hothers a c (htoken ▸ ht)).mp hc) htoken

theorem Right.owned_open (h : Right s) (hown : Owned s fd) : s.sys.opened fd = true := by
  rcases hown with ⟨a, c, hc, hfd⟩ | hfd | hfd
  · exact (h.held a c fd hc hfd).1
  · exact (h.live fd hfd).1
  · exact h.winlock fd hfd

theorem grab_again {o : Outcomes} {arg : Option Fd} {token : Token} (h : Right ss.state) (ht : Tally ss)
    (hc : ss.state.cmaps a = some c) (htoken : c.token = token) (hcount : c.grab_count + 1 < 2 ^ 31)
    (hfind : (ss.state.grabbed_list.find? fun a => (ss.state.cmaps a).map Cmap.token = some token) = some a) :
    ∃ s', step (.grab o arg token) ss = some (some a, s') ∧ Right s'.state ∧ Tally s' := by
  have hgrab : dgaCmGrab o arg token ss.state = some (some a, { ss.state with
      cmaps := Function.update ss.state.cmaps a (some { c with grab_count := c.grab_count + 1 }) }) := by
    simp only [dgaCmGrab, hfind, hc, Option.bind_eq_bind, Option.bind_some, if_pos hcount]
  refine ⟨⟨{ ss.state with
    cmaps := Function.update ss.state.cmaps a (some { c with grab_count := c.grab_count + 1 }) },
    Function.update ss.net token (ss.net token + 1)⟩, ?_, h.recount hc (Nat.succ_pos _), ht.update ?_
    fun a' c' hne => ?_⟩
  · rw [step, hgrab]
    rfl
  · refine .inl ⟨a, { c with grab_count := c.grab_count + 1 }, Function.update_self .., htoken, ?_⟩
    rcases ht token with ⟨a', c', hc', htoken', hnet⟩ | ⟨hnone, -⟩
    · obtain rfl := h.tokens a a' c c' hc hc' (htoken.trans htoken'.symm)
      obtain rfl := Option.some.inj (hc.symm.trans hc')
      rw [hnet]
      rfl
    · exact absurd htoken (hnone a c hc)
  · rw [update_some_iff]
    refine ⟨fun hcase => ?_, fun hold => ?_⟩
    · rcases hcase with ⟨rfl, rfl⟩ | ⟨-, hold⟩
      · exact absurd htoken hne
      · exact hold
    · refine .inr ⟨?_, hold⟩
      rintro rfl
      obtain rfl := Option.some.inj (hc.symm.trans hold)
      exact hne htoken

theorem cleanup_new {o : Option Fd} {cl : CleanUp} (hnone : s.cmaps a = none)
    (hfree : freeAll o c cl sys = some s.sys) :
    cleanupLockpages o a cl ⟨Function.update s.cmaps a (some c), a :: s.grabbed_list, sys⟩ = some s := by
  have hcmaps : Function.update (Function.update s.cmaps a (some c)) a none = s.cmaps := by
    rw [Function.update_idem, ← hnone, Function.update_eq_self]
  simp only [cleanupLockpages, Function.update_self, hfree, Option.bind_eq_bind, Option.bind_some, hcmaps,
    List.erase_cons_head]

theorem grab_first {o : Outcomes} {arg : Option Fd} {token : Token} (h : Right ss.state) (ht : Tally ss)
    (hnew : ∀ a c, ss.state.cmaps a = some c → c.token ≠ token)
    (hfind : (ss.state.grabbed_list.find? fun a => (ss.state.cmaps a).map Cmap.token = some token) = none)
    (halloc : ∀ a, o.calloc = some a → ss.state.cmaps a = none) (hfresh : o.Fresh ss.state.sys)
    (hfits : o.calloc ≠ none → o.Fits arg ss.state.sys) :
    ∃ r s', step (.grab o arg token) ss = some (r, s') ∧ Right s'.state ∧ Tally s' ∧ (r = none → s' = ss) := by
  cases hcalloc : o.calloc with
  | none =>
      refine ⟨none, ss, ?_, h, ht, fun _ => rfl⟩
      simp only [step, dgaCmGrab, hfind, hcalloc, Option.map_some, Option.isSome_none, Bool.false_eq_true, if_false]
  | some a =>
      have hnone := halloc a hcalloc
      rcases grabInfo_settled token hfresh h.shared (fun x hx => (h.live x hx).1) h.winlock
          (hfits (hcalloc ▸ nofun)) with ⟨c, sys, hgrab, hgain, htoken, hcount⟩ | ⟨c, cl, sys, hgrab, hfree⟩
      · refine ⟨some a, ⟨⟨Function.update ss.state.cmaps a (some c), a :: ss.state.grabbed_list, sys⟩,
          Function.update ss.net token (ss.net token + 1)⟩, ?_, ?_, ht.update ?_ fun a' c' hne => ?_, nofun⟩
        · simp only [step, dgaCmGrab, hfind, hcalloc, hgrab, Option.bind_eq_bind, Option.bind_some,
            Option.map_some, Option.isSome_some, if_true]
        · exact h.gained hnone hgain (hcount ▸ Nat.one_pos) (htoken ▸ hnew)
        · refine .inl ⟨a, c, Function.update_self .., htoken, ?_⟩
          rcases ht token with ⟨a', c', hc', htoken', -⟩ | ⟨-, hzero⟩
          · exact absurd htoken' (hnew a' c' hc')
          · rw [hzero, hcount]
            rfl
        · rw [update_some_iff]
          refine ⟨fun hcase => ?_, fun hold => .inr ⟨?_, hold⟩⟩
          · rcases hcase with ⟨rfl, rfl⟩ | ⟨-, hold⟩
            · exact absurd htoken hne
            · exact hold
          · rintro rfl
            rw [hnone] at hold
            cases hold
      · refine ⟨none, ss, ?_, h, ht, fun _ => rfl⟩
        simp only [step, dgaCmGrab, hfind, hcalloc, hgrab, cleanup_new hnone hfree, Option.bind_eq_bind,
          Option.bind_some, Option.map_some, Option.isSome_none, Bool.false_eq_true, if_false]

theorem grab_does {o : Outcomes} {arg : Option Fd} {token : Token} (h : Right ss.state) (ht : Tally ss)
    (hlegal : Legal (.grab o arg token) ss) (hfits : Fits (.grab o arg token) ss) :
    ∃ r s', step (.grab o arg token) ss = some (r, s') ∧ Right s'.state ∧ Tally s' ∧ (r = none → s' = ss) := by
  cases hfind : ss.state.grabbed_list.find? fun a => (ss.state.cmaps a).map Cmap.token = some token with
  | some a =>
      have hmap : (ss.state.cmaps a).map Cmap.token = some token := by simpa using List.find?_some hfind
      obtain ⟨c, hc, htoken⟩ := Option.map_eq_some_iff.mp hmap
      obtain ⟨s', hstep, hs', ht'⟩ := grab_again h ht hc htoken (hfits.1 a c hc htoken) hfind
      exact ⟨some a, s', hstep, hs', ht', nofun⟩
  | none =>
      have hnew (a : Addr) (c : Cmap) (hc : ss.state.cmaps a = some c) : c.token ≠ token := by
        intro htoken
        have hmem : a ∈ ss.state.grabbed_list := (h.listed a).mpr (hc ▸ nofun)
        have hnot := List.find?_eq_none.mp hfind a hmem
        rw [hc, Option.map_some, htoken] at hnot
        exact hnot (decide_eq_true rfl)
      exact grab_first h ht hnew hfind hlegal.1 hlegal.2 (hfits.2 hnew)

theorem ungrab_does {cflag : Bool} (h : Right ss.state) (ht : Tally ss) (hlegal : Legal (.ungrab opens a cflag) ss)
    (hfits : Fits (.ungrab opens a cflag) ss) :
    ∃ s', step (.ungrab opens a cflag) ss = some (none, s') ∧ Right s'.state ∧ Tally s' := by
  obtain ⟨c, hc⟩ := Option.ne_none_iff_exists'.mp ((h.listed a).mp hlegal)
  have hpos := (h.sound a c hc).2
  have hnet : ss.net c.token = c.grab_count := by
    rcases ht c.token with ⟨a', c', hc', htoken, hnet⟩ | ⟨hnone, -⟩
    · obtain rfl := h.tokens a a' c c' hc hc' htoken.symm
      obtain rfl := Option.some.inj (hc.symm.trans hc')
      exact hnet
    · exact absurd rfl (hnone a c hc)
  by_cases hmore : 1 < c.grab_count
  · refine ⟨⟨{ ss.state with
      cmaps := Function.update ss.state.cmaps a (some { c with grab_count := c.grab_count - 1 }) },
      Function.update ss.net c.token (ss.net c.token - 1)⟩, ?_, h.recount hc (Nat.sub_pos_of_lt hmore),
      ht.update (.inl ⟨a, _, Function.update_self .., rfl, ?_⟩) fun a' c' hne => ?_⟩
    · simp only [step, hc, dgaCmUngrab, Option.bind_eq_bind, Option.bind_some, if_pos hmore, Option.map_some]
    · dsimp only
      omega
    · rw [update_some_iff]
      refine ⟨fun hcase => ?_, fun hold => .inr ⟨?_, hold⟩⟩
      · rcases hcase with ⟨rfl, rfl⟩ | ⟨-, hold⟩
        · exact absurd rfl hne
        · exact hold
      · rintro rfl
        obtain rfl := Option.some.inj (hc.symm.trans hold)
        exact hne rfl
  · have hone : c.grab_count = 1 := by omega
    obtain ⟨page, sys, hpage, hfree, hs'⟩ := h.dropped opens hc fun hcflag => hfits hcflag c hc hone
    obtain ⟨mapping, hmapping, hpage⟩ := Option.bind_eq_some_iff.mp hpage
    refine ⟨⟨⟨Function.update ss.state.cmaps a none, ss.state.grabbed_list.erase a, sys⟩,
      Function.update ss.net c.token (ss.net c.token - 1)⟩, ?_, hs',
      ht.update (.inr ⟨fun a' c' hc' htoken => ?_, ?_⟩) fun a' c' hne => ?_⟩
    · simp only [step, hc, dgaCmUngrab, if_neg hmore, hmapping, hpage, cleanupLockpages, hfree,
        Option.bind_eq_bind, Option.bind_some, Option.map_some]
    · obtain ⟨hne, hold⟩ := update_none_iff.mp hc'
      exact hne (h.tokens a' a c' c hold hc htoken)
    · rw [hnet, hone]
      rfl
    · rw [update_none_iff]
      refine ⟨And.right, fun hold => ⟨?_, hold⟩⟩
      rintro rfl
      obtain rfl := Option.some.inj (hc.symm.trans hold)
      exact hne rfl

theorem does_of_fits (h : Right ss.state) (ht : Tally ss) (hlegal : Legal op ss) (hfits : Fits op ss) :
    ∃ r s', step op ss = some (r, s') ∧ Right s'.state ∧ Tally s' ∧
      ((∃ o fd filesuffix, op = .grab o fd filesuffix) → r = none → s' = ss) := by
  cases op with
  | grab o arg token =>
      obtain ⟨r, s', hstep, hs', ht', hsame⟩ := grab_does h ht hlegal hfits
      exact ⟨r, s', hstep, hs', ht', fun _ => hsame⟩
  | ungrab opens a cflag =>
      obtain ⟨s', hstep, hs', ht'⟩ := ungrab_does h ht hlegal hfits
      exact ⟨none, s', hstep, hs', ht', fun ⟨_, _, _, hop⟩ => nomatch hop⟩
  | openFd fd =>
      have hs' : Right { ss.state with sys := openFd fd ss.state.sys } := by
        refine h.reopened (fun x hx => ?_) rfl
        rw [h.owned_open hx]
        exact openFd_opened (h.owned_open hx) fd
      exact ⟨none, ⟨{ ss.state with sys := openFd fd ss.state.sys }, ss.net⟩, rfl, hs', ht,
        fun ⟨_, _, _, hop⟩ => nomatch hop⟩
  | closeFd fd =>
      have hs' : Right { ss.state with
          sys := { ss.state.sys with opened := Function.update ss.state.sys.opened fd false } } := by
        refine h.reopened (fun x hx => Function.update_of_ne ?_ ..) rfl
        rintro rfl
        exact hlegal.2 hx
      refine ⟨none, ⟨{ ss.state with sys := { ss.state.sys with
        opened := Function.update ss.state.sys.opened fd false } }, ss.net⟩, ?_, hs', ht,
        fun ⟨_, _, _, hop⟩ => nomatch hop⟩
      rw [step, closeFd, if_pos hlegal.1, Option.map_some]

theorem init_right (h : Init ss) : Right ss.state ∧ Tally ss := by
  obtain ⟨⟨mapped, opened, pagesize, hstate⟩, hnet⟩ := h
  refine ⟨?_, fun token => .inr ⟨fun a c hc => ?_, ?_⟩⟩
  · rw [hstate]
    refine ⟨List.nodup_nil, fun a => iff_of_false nofun fun h => h rfl, fun a c hc => ?_, fun a a' c c' hc => ?_,
      fun a a' c c' p hc => ?_, fun a a' c c' fd hc => ?_, fun a c fd hc => ?_,
      ⟨List.nodup_nil, nofun, fun fd hfd => absurd hfd (Nat.lt_irrefl 0)⟩, nofun, nofun⟩
    all_goals cases hc
  · rw [hstate] at hc
    cases hc
  · rw [hnet]

/-- While every step fits, the list is right, and each further step that fits is done. -/
theorem colormap_grabs_right
    (h : Reachable (fun op s => (step op s).map Prod.snd) (fun op s => Legal op s ∧ Fits op s) Init ss) :
    Right ss.state ∧ Tallied ss ∧ ∀ op, Legal op ss → Fits op ss → Does op ss := by
  have hboth : Right ss.state ∧ Tally ss := by
    refine h.invariant (fun s => Right s.state ∧ Tally s) (fun _ => init_right) fun op s s' hs hok hstep => ?_
    obtain ⟨r, s₁, hstep₁, hs₁, ht₁, -⟩ := does_of_fits hs.1 hs.2 hok.1 hok.2
    rw [hstep₁, Option.map_some] at hstep
    exact Option.some.inj hstep ▸ ⟨hs₁, ht₁⟩
  refine ⟨hboth.1, hboth.2.tallied hboth.1, fun op hlegal hfits => ?_⟩
  obtain ⟨r, s', hstep, hs', ht', hsame⟩ := does_of_fits hboth.1 hboth.2 hlegal hfits
  exact ⟨r, s', hstep, hs', ht'.tallied hs', hsame⟩

end Steps

def blank : Session := ⟨⟨fun _ => none, [], ⟨fun _ => none, fun fd => decide (fd < 4), [], none, 8192⟩⟩, fun _ => 0⟩

def page (locktype : Int) (inst : String) : Grabbedcmap := ⟨CMMAGIC, 1, 256, 1024, locktype, "", false, "", inst⟩

def outcomes (page : Grabbedcmap) (lock : Option Addr) : Outcomes :=
  ⟨some 1, some 4, some page, some 10, none, none, some 5, none, lock, some 12, none, true, none, true⟩

def grabs (page : Grabbedcmap) (lock : Option Addr) : Op := .grab (outcomes page lock) (some 3) 7

theorem outcomes_fresh (page : Grabbedcmap) (h : lock = some 11 ∨ lock = none) :
    (outcomes page lock).Fresh blank.state.sys := by
  rcases h with rfl | rfl
  · refine ⟨fun fd hfd => ?_, by simp [outcomes], fun _ _ => rfl, by simp [outcomes]⟩
    simp only [outcomes, List.mem_cons, Option.some.injEq, reduceCtorEq, List.not_mem_nil, or_false,
      false_or] at hfd
    rcases hfd with rfl | rfl <;> rfl
  · refine ⟨fun fd hfd => ?_, by simp [outcomes], fun _ _ => rfl, by simp [outcomes]⟩
    simp only [outcomes, List.mem_cons, Option.some.injEq, reduceCtorEq, List.not_mem_nil, or_false,
      false_or] at hfd
    rcases hfd with rfl | rfl <;> rfl

theorem grabs_legal (page : Grabbedcmap) (h : lock = some 11 ∨ lock = none) : Legal (grabs page lock) blank :=
  ⟨fun _ _ => rfl, outcomes_fresh page h⟩

theorem grabs_fits : Fits (grabs (page CM_LOCKDEV "") (some 11)) blank := by
  refine ⟨nofun, fun _ _ page hpage => ?_⟩
  obtain rfl := Option.some.inj hpage
  refine ⟨fun devfd hdevfd => ?_, nofun⟩
  obtain rfl := Option.some.inj hdevfd
  rfl

def grabbed : Session := ((step (grabs (page CM_LOCKDEV "") (some 11)) blank).get rfl).2

theorem colormap_grabs_grabbed : Tallied grabbed ∧ Does (.ungrab none 1 false) grabbed := by
  have hreached : Reachable (fun op s => (step op s).map Prod.snd) (fun op s => Legal op s ∧ Fits op s) Init
      grabbed :=
    .next (s := blank) (grabs (page CM_LOCKDEV "") (some 11)) (.start ⟨⟨_, _, _, rfl⟩, rfl⟩)
      ⟨grabs_legal _ (.inl rfl), grabs_fits⟩ rfl
  obtain ⟨-, htallied, hdoes⟩ := colormap_grabs_right hreached
  exact ⟨htallied, hdoes (.ungrab none 1 false) List.mem_cons_self nofun⟩

/-- The lock pages that could not be mapped are unmapped, and a window that cannot be opened leaves the
lock device open. -/
theorem failed_grab_kept : Init blank ∧ Legal (grabs (page CM_WINLOCK "") none) blank ∧
    step (grabs (page CM_WINLOCK "") none) blank = none ∧
      Legal (grabs (page CM_WINLOCK "/dev/win0") (some 11)) blank ∧
        ∃ s, step (grabs (page CM_WINLOCK "/dev/win0") (some 11)) blank = some (none, s) ∧
          s.state.sys.lock_fd = some 5 ∧ blank.state.sys.lock_fd = none ∧ s.state.sys.opened 5 = true ∧
            blank.state.sys.opened 5 = false :=
  ⟨⟨⟨_, _, _, rfl⟩, rfl⟩, grabs_legal _ (.inr rfl), rfl, grabs_legal _ (.inl rfl),
    ((step (grabs (page CM_WINLOCK "/dev/win0") (some 11)) blank).get rfl).2, rfl, rfl, rfl, rfl, rfl⟩

end OiUserland.Dga.ColormapGrabs
