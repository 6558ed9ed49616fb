import Mathlib.Data.List.Basic

namespace OiUserland.Mkcookie.Authority

abbrev Bytes := List UInt8

structure Xauth where
  family : Nat
  address : Bytes
  number : Bytes
  name : Bytes
  data : Bytes
  deriving DecidableEq

def familyInternet : Nat := 0

def familyInternet6 : Nat := 6

def familyLocal : Nat := 256

abbrev Address := Nat × Bytes × Bytes

def Xauth.key (auth : Xauth) : Address := (auth.family, auth.address, auth.number)

/-- An entry that is to be written, whether there is memory to save its address, and whether it can be written. -/
structure Write where
  auth : Xauth
  memory : Bool
  writes : Bool

abbrev Write.key (w : Write) : Address := w.auth.key

structure Merge where
  addrs : List Address
  file : List Xauth

def checkAddr (addrs : List Address) (key : Address) : Bool := addrs.contains key

def saveAddr (memory : Bool) (key : Address) (addrs : List Address) : List Address :=
  if checkAddr addrs key then addrs else if memory then key :: addrs else addrs

def writeAuth (w : Write) (s : Merge) : Option Merge :=
  let addrs := saveAddr w.memory w.key s.addrs
  if w.writes then some ⟨addrs, s.file ++ [w.auth]⟩ else none

def writeAuths : List Write → Merge → Option Merge
  | [], s => some s
  | w :: ws, s => (writeAuth w s).bind (writeAuths ws)

def mergeOld : List Write → Merge → Option Merge
  | [], s => some s
  | w :: ws, s => if checkAddr s.addrs w.key then mergeOld ws s else (writeAuth w s).bind (mergeOld ws)

inductive Interface
  | inet (addr : Bytes)
  | inet6 (addr : Bytes)
  | other

def anyAddress : Bytes := [0, 0, 0, 0]

def loopback : Bytes := [0, 0, 0, 0, 0, 0, 0, 0, 0, 0, 0, 0, 0, 0, 0, 1]

def setAuthNumber (auth : Xauth) (name : Bytes) (memory : Bool) : Xauth :=
  let colon : UInt8 := 58
  let dot : UInt8 := 46
  if colon ∈ name then
    let number := (name.reverse.takeWhile (· ≠ colon)).reverse.takeWhile (· ≠ dot)
    { auth with number := if memory then number.take (number.length % 65536) else [] }
  else auth

def writeAddr (family : Nat) (addr : Bytes) (auth : Xauth) : Xauth := { auth with family := family, address := addr }

def interfaceAuth (auth : Xauth) : Interface → Option Xauth
  | .inet addr => if addr = anyAddress then none else some (writeAddr familyInternet addr auth)
  | .inet6 addr => if addr = loopback then none else some (writeAddr familyInternet6 addr auth)
  | .other => none

structure Host where
  interfaces : List (Interface × Bool × Bool)
  hostname : Option (Bytes × Bool × Bool)
  numberMemory : Bool

def defineSelf (host : Host) (auth : Xauth) : List Write :=
  host.interfaces.filterMap fun i => (interfaceAuth auth i.1).map fun auth => ⟨auth, i.2.1, i.2.2⟩

def defineLocal (host : Host) (auth : Xauth) : List Write :=
  host.hostname.toList.map fun h => ⟨writeAddr familyLocal h.1 auth, h.2.1, h.2.2⟩

def newEntries (host : Host) (auth : Xauth) (name : Bytes) : List Write :=
  let auth := setAuthNumber auth name host.numberMemory
  defineSelf host auth ++ defineLocal host auth

def writeLocalAuth (host : Host) (auth : Xauth) (name : Bytes) (s : Merge) : Option Merge :=
  writeAuths (newEntries host auth name) s

/-- A place for the authority file. The old file need not be there. -/
structure Place where
  locked : Bool
  opened : Bool
  old : Option (List Write)

def openAuthority (home : Option Place) (backup : Place) : Option (Option (List Write)) :=
  match home.filter fun p => p.locked && p.opened with
  | some p => some p.old
  | none => if backup.locked && backup.opened then some backup.old else none

inductive Outcome
  | untouched
  | fatal
  | written (file : List Xauth)
  deriving DecidableEq

structure Display where
  name : Bytes
  authorization : Option Xauth

def setUserAuthorization (d : Display) (host : Host) (home : Option Place) (backup : Place) : Outcome :=
  match d.authorization, openAuthority home backup with
  | some auth, some old =>
    match (writeLocalAuth host auth d.name ⟨[], []⟩).bind (mergeOld (old.getD [])) with
    | some s => .written s.file
    | none => .fatal
  | _, _ => .untouched

variable {ws news old : List Write} {w : Write} {s s' : Merge} {k : Address}

theorem mem_saveAddr {memory : Bool} {addrs : List Address} {key : Address} :
    k ∈ saveAddr memory key addrs ↔ k ∈ addrs ∨ k = key ∧ memory = true := by
  rw [saveAddr, checkAddr]
  by_cases hkey : key ∈ addrs
  · rw [if_pos (List.contains_iff_mem.mpr hkey)]
    refine ⟨.inl, ?_⟩
    rintro (h | ⟨rfl, -⟩)
    · exact h
    · exact hkey
  · rw [if_neg fun h => hkey (List.contains_iff_mem.mp h)]
    cases memory with
    | true =>
        rw [if_pos rfl, List.mem_cons, and_iff_left rfl]
        exact Or.comm
    | false =>
        rw [if_neg Bool.false_ne_true]
        refine ⟨.inl, ?_⟩
        rintro (h | ⟨-, h⟩)
        · exact h
        · cases h

theorem writeAuth_some (h : writeAuth w s = some s') :
    s'.file = s.file ++ [w.auth] ∧ ∀ k, k ∈ s'.addrs ↔ k ∈ s.addrs ∨ k = w.key ∧ w.memory = true := by
  rw [writeAuth] at h
  split at h
  · obtain rfl := Option.some.inj h
    exact ⟨rfl, fun k => mem_saveAddr⟩
  · cases h

theorem writeAuths_some (h : writeAuths ws s = some s') :
    s'.file = s.file ++ ws.map Write.auth ∧
      ∀ k, k ∈ s'.addrs ↔ k ∈ s.addrs ∨ ∃ w ∈ ws, w.key = k ∧ w.memory = true := by
  induction ws generalizing s with
  | nil =>
      obtain rfl := Option.some.inj h
      simp
  | cons w ws ih =>
      obtain ⟨s₁, hfirst, hrest⟩ := Option.bind_eq_some_iff.mp h
      obtain ⟨hfile, haddrs⟩ := writeAuth_some hfirst
      obtain ⟨hfile', haddrs'⟩ := ih hrest
      refine ⟨?_, fun k => ?_⟩
      · rw [hfile', hfile, List.append_assoc]
        rfl
      · rw [haddrs' k, haddrs k, List.exists_mem_cons_iff, or_assoc, eq_comm (a := k)]

def others (news old : List Write) : List Write := old.filter fun w => w.key ∉ news.map Write.key

/-- The new addresses that the old file has are saved, and no entry for another address stands behind one
for the same address that is saved. -/
structure Mergeable (news old : List Write) : Prop where
  saved : ∀ w ∈ old, w.key ∈ news.map Write.key → ∃ n ∈ news, n.key = w.key ∧ n.memory = true
  apart : old.Pairwise fun v w => v.key = w.key → w.key ∈ news.map Write.key ∨ v.memory = false

def copied : List Write → List Address → List Write
  | [], _ => []
  | w :: ws, addrs => if w.key ∈ addrs then copied ws addrs else w :: copied ws (saveAddr w.memory w.key addrs)

theorem copied_sublist (ws : List Write) (addrs : List Address) : (copied ws addrs).Sublist ws := by
  induction ws generalizing addrs with
  | nil => exact List.Sublist.refl _
  | cons w ws ih =>
      rw [copied]
      split
      · exact (ih addrs).cons w
      · exact (ih _).cons_cons w

theorem mergeOld_some (h : mergeOld ws s = some s') : s'.file = s.file ++ (copied ws s.addrs).map Write.auth := by
  induction ws generalizing s with
  | nil =>
      obtain rfl := Option.some.inj h
      exact (List.append_nil _).symm
  | cons w ws ih =>
      rw [mergeOld, checkAddr] at h
      rw [copied]
      by_cases hkey : w.key ∈ s.addrs
      · rw [if_pos (List.contains_iff_mem.mpr hkey)] at h
        rw [if_pos hkey]
        exact ih h
      · rw [if_neg fun h => hkey (List.contains_iff_mem.mp h)] at h
        obtain ⟨s₁, hfirst, hrest⟩ := Option.bind_eq_some_iff.mp h
        have hs₁ : s₁ = ⟨saveAddr w.memory w.key s.addrs, s.file ++ [w.auth]⟩ := by
          rw [writeAuth] at hfirst
          split at hfirst
          · exact (Option.some.inj hfirst).symm
          · cases hfirst
        rw [if_neg hkey, ih hrest, hs₁, List.map_cons, List.append_assoc]
        rfl

theorem copied_iff (ws : List Write) (addrs : List Address) :
    (copied ws addrs).map Write.auth = (others news ws).map Write.auth ↔
      (∀ w ∈ ws, w.key ∈ addrs ↔ w.key ∈ news.map Write.key) ∧
        ws.Pairwise fun v w => v.key = w.key → w.key ∈ news.map Write.key ∨ v.memory = false := by
  induction ws generalizing addrs with
  | nil => simp [copied, others]
  | cons w ws ih =>
      rw [copied, List.pairwise_cons, List.forall_mem_cons]
      by_cases haddr : w.key ∈ addrs
      · rw [if_pos haddr, iff_true_left haddr]
        by_cases hnew : w.key ∈ news.map Write.key
        · have hothers : others news (w :: ws) = others news ws := List.filter_cons_of_neg (by simpa using hnew)
          rw [hothers, ih, and_iff_right hnew]
          refine and_congr_right fun _ => ?_
          rw [and_iff_right fun v _ hv => .inl (hv ▸ hnew)]
        · have hothers : others news (w :: ws) = w :: others news ws := List.filter_cons_of_pos (by simpa using hnew)
          refine iff_of_false (fun heq => ?_) fun h => hnew h.1.1
          -- there are fewer entries for the other addresses
          have hcount := congrArg (fun l => (l.filter fun a => a.key ∉ news.map Write.key).length) heq
          rw [List.filter_map, List.length_map, List.filter_map, List.length_map, hothers] at hcount
          have hle := ((copied_sublist ws addrs).filter fun w => w.key ∉ news.map Write.key).length_le
          have hall : (w :: others news ws).filter (fun w => w.key ∉ news.map Write.key) = w :: others news ws := by
            rw [← hothers, others, List.filter_filter]
            simp
          change ((copied ws addrs).filter fun w => w.key ∉ news.map Write.key).length =
            ((w :: others news ws).filter fun w => w.key ∉ news.map Write.key).length at hcount
          rw [hall, List.length_cons] at hcount
          have hothersLength : (others news ws).length = (ws.filter fun w => w.key ∉ news.map Write.key).length := rfl
          omega
      · rw [if_neg haddr]
        by_cases hnew : w.key ∈ news.map Write.key
        · refine iff_of_false (fun heq => ?_) fun h => haddr (h.1.1.mpr hnew)
          have hmem : w.auth ∈ (others news (w :: ws)).map Write.auth := heq ▸ List.mem_cons_self ..
          obtain ⟨v, hv, hauth⟩ := List.mem_map.mp hmem
          have hkey : v.key = w.key := congrArg Xauth.key hauth
          exact of_decide_eq_true (List.mem_filter.mp hv).2 (hkey ▸ hnew)
        · have hothers : others news (w :: ws) = w :: others news ws := List.filter_cons_of_pos (by simpa using hnew)
          rw [hothers, List.map_cons, List.map_cons, List.cons_inj_right, ih, and_iff_right (iff_of_false haddr hnew),
            ← and_assoc]
          refine and_congr_left fun _ => ?_
          rw [← forall₂_and]
          refine forall₂_congr fun v _ => ?_
          rw [mem_saveAddr]
          by_cases hv : v.key = w.key
          · rw [hv]
            cases w.memory <;> simp [haddr, hnew]
          · simp [hv, Ne.symm hv]

theorem mergeable_iff {addrs : List Address} (haddrs : ∀ k, k ∈ addrs ↔ ∃ n ∈ news, n.key = k ∧ n.memory = true) :
    ((∀ w ∈ old, w.key ∈ addrs ↔ w.key ∈ news.map Write.key) ∧
      old.Pairwise fun v w => v.key = w.key → w.key ∈ news.map Write.key ∨ v.memory = false) ↔ Mergeable news old := by
  constructor
  · rintro ⟨hsame, hapart⟩
    exact ⟨fun w hw hnew => (haddrs _).mp ((hsame w hw).mpr hnew), hapart⟩
  · rintro ⟨hsaved, hapart⟩
    refine ⟨fun w hw => ⟨fun haddr => ?_, fun hnew => (haddrs _).mpr (hsaved w hw hnew)⟩, hapart⟩
    obtain ⟨n, hn, hkey, -⟩ := (haddrs _).mp haddr
    exact List.mem_map.mpr ⟨n, hn, hkey⟩

variable {d : Display} {host : Host} {home : Option Place} {backup : Place} {auth : Xauth} {file : List Xauth}

def merged (news old : List Write) : List Xauth := news.map Write.auth ++ (others news old).map Write.auth

/-- No entry for another address is lost if and only if no two of them are for one address. -/
theorem authority_merged_iff (hauth : d.authorization = some auth) (hopen : openAuthority home backup = some (some old))
    (hwritten : setUserAuthorization d host home backup = .written file) :
    file = merged (newEntries host auth d.name) old ↔ Mergeable (newEntries host auth d.name) old := by
  rw [setUserAuthorization, hauth, hopen] at hwritten
  dsimp only at hwritten
  split at hwritten
  · next s hs =>
      obtain rfl := Outcome.written.inj hwritten
      obtain ⟨s₁, hnew, hold⟩ := Option.bind_eq_some_iff.mp hs
      obtain ⟨hfile, haddrs⟩ := writeAuths_some hnew
      rw [List.nil_append] at hfile
      have hsaved : ∀ k, k ∈ s₁.addrs ↔ ∃ n ∈ newEntries host auth d.name, n.key = k ∧ n.memory = true := fun k => by
        rw [haddrs k]
        simp
      rw [mergeOld_some hold, hfile, merged, List.append_cancel_left_eq, Option.getD_some, copied_iff, mergeable_iff hsaved]
  · cases hwritten

/-- The cookie of this run for display :0. -/
def fresh : Xauth := ⟨65535, [], [], [77], [7]⟩

def shown : Display := ⟨[58, 48], some fresh⟩

def host10 : Host := ⟨[(.inet [10, 0, 0, 1], true, true)], some ([104], true, true), true⟩

/-- An entry of the host h2. -/
def cookie (number name : Bytes) : Write := ⟨⟨familyLocal, [104, 50], number, name, [1]⟩, true, true⟩

def homeWith (old : List Write) : Option Place := some ⟨true, true, some old⟩

def nowhere : Place := ⟨false, false, none⟩

def twoDisplays : List Write := [cookie [48] [77], cookie [49] [77]]

def twoProtocols : List Write := [cookie [48] [77], cookie [48] [83]]

/-- Entries for two displays of another host stay. -/
theorem authority_merged_displays :
    setUserAuthorization shown host10 (homeWith twoDisplays) nowhere =
        .written (merged (newEntries host10 fresh shown.name) twoDisplays) ∧
      Mergeable (newEntries host10 fresh shown.name) twoDisplays := by
  have hrun : setUserAuthorization shown host10 (homeWith twoDisplays) nowhere =
      .written (merged (newEntries host10 fresh shown.name) twoDisplays) := by decide
  have hauth : shown.authorization = some fresh := rfl
  have hopen : openAuthority (homeWith twoDisplays) nowhere = some (some twoDisplays) := rfl
  exact ⟨hrun, (authority_merged_iff hauth hopen hrun).mp rfl⟩

theorem authority_lost : ∃ file, setUserAuthorization shown host10 (homeWith twoProtocols) nowhere = .written file ∧
    file ≠ merged (newEntries host10 fresh shown.name) twoProtocols ∧ (cookie [48] [83]).auth ∉ file := by
  refine ⟨[⟨0, [10, 0, 0, 1], [48], [77], [7]⟩, ⟨256, [104], [48], [77], [7]⟩, (cookie [48] [77]).auth], ?_⟩
  decide

def reread (auth : Xauth) : Write := ⟨auth, true, true⟩

theorem mergeOld_reread (file : List Xauth) (s : Merge) : ∃ s', mergeOld (file.map reread) s = some s' := by
  induction file generalizing s with
  | nil => exact ⟨s, rfl⟩
  | cons auth file ih =>
      rw [List.map_cons, mergeOld]
      split
      · exact ih s
      · exact ih _

theorem copied_append {addrs : List Address} (h : ∀ w ∈ ws, w.key ∈ addrs) (vs : List Write) :
    copied (ws ++ vs) addrs = copied vs addrs := by
  induction ws with
  | nil => rfl
  | cons w ws ih =>
      obtain ⟨hw, hws⟩ := List.forall_mem_cons.mp h
      rw [List.cons_append, copied, if_pos hw, ih hws]

theorem copied_reread (h : ∀ w ∈ ws, w.memory = true) (addrs : List Address) :
    (copied (((copied ws addrs).map Write.auth).map reread) addrs).map Write.auth = (copied ws addrs).map Write.auth := by
  induction ws generalizing addrs with
  | nil => rfl
  | cons w ws ih =>
      obtain ⟨hw, hws⟩ := List.forall_mem_cons.mp h
      rw [copied]
      split
      · exact ih hws addrs
      · next hkey =>
          rw [List.map_cons, List.map_cons, copied, if_neg (c := (reread w.auth).key ∈ addrs) hkey, hw]
          exact congrArg _ (ih hws _)

/-- Another run leaves the file as it is. -/
theorem authority_rerun (hauth : d.authorization = some auth) (hopen : openAuthority home backup = some (some old))
    (hmemory : ∀ w ∈ newEntries host auth d.name ++ old, w.memory = true)
    (hwritten : setUserAuthorization d host home backup = .written file) :
    setUserAuthorization d host (homeWith (file.map reread)) backup = .written file := by
  obtain ⟨hnews, holds⟩ := List.forall_mem_append.mp hmemory
  rw [setUserAuthorization, hauth, hopen] at hwritten
  dsimp only at hwritten
  split at hwritten
  · next s hs =>
      obtain rfl := Outcome.written.inj hwritten
      obtain ⟨s₁, hnew, hold⟩ := Option.bind_eq_some_iff.mp hs
      obtain ⟨hfile, haddrs⟩ := writeAuths_some hnew
      obtain ⟨s', hagain⟩ := mergeOld_reread s.file s₁
      have hsaved : ∀ w ∈ ((newEntries host auth d.name).map Write.auth).map reread, w.key ∈ s₁.addrs :=
        List.forall_mem_map.mpr (List.forall_mem_map.mpr fun w hw => (haddrs _).mpr (.inr ⟨w, hw, rfl, hnews w hw⟩))
      have hsame : s'.file = s.file := by
        rw [mergeOld_some hagain, mergeOld_some hold, hfile, List.nil_append, List.map_append, copied_append hsaved]
        exact congrArg _ (copied_reread holds _)
      rw [setUserAuthorization, hauth, show openAuthority _ backup = some (some (s.file.map reread)) from rfl]
      simp only [Option.getD_some, hnew, Option.bind_some, hagain, hsame]
  · cases hwritten

theorem authority_rerun_displays : ∃ file, setUserAuthorization shown host10 (homeWith twoDisplays) nowhere = .written file ∧
    setUserAuthorization shown host10 (homeWith (file.map reread)) nowhere = .written file := by
  have hrun : setUserAuthorization shown host10 (homeWith twoDisplays) nowhere = .written _ := rfl
  exact ⟨_, hrun, authority_rerun rfl rfl (by decide) hrun⟩

end OiUserland.Mkcookie.Authority
