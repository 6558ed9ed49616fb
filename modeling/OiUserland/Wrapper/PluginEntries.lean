import OiUserland.Wrapper.Startup

namespace OiUserland.Wrapper.PluginEntries

open Plugins Startup

def pathMax : Nat := 1024
def modSuffix : List Char := ['.', 's', 'o']

inductive Text
  | null
  | live (s : List Char)
  | freed
  deriving DecidableEq

/-- The name and the path of an entry of p_info. -/
structure Slot where
  name : Text := .null
  path : Text := .null
  deriving DecidableEq

abbrev Slots := Nat → Slot

/-- What is found when the plug-ins are read: the directory (of the variable or the default one), how
readdir ends, and the shared objects by their paths. -/
structure Found where
  dir : List Char
  lp64 : Bool := true
  opendir : Bool := true
  entries : List (List Char)
  error : Bool := false
  opens : List Char → Bool
  usbInit : List Char → Bool
  libusbPrefix : List Char → Bool

/-- What happens to the plug-in of an index: dlopen fails, or its symbols are not loaded, or it is used. -/
inductive Loaded
  | closed
  | noSyms
  | used

def strstr (s t : List Char) : Option (List Char) :=
  if t.isPrefixOf s then some s
  else
    match s with
    | [] => none
    | _ :: s => strstr s t

def isModule (name : List Char) : Bool :=
  if name.head? = some '.' then false
  else
    match strstr name modSuffix with
    | none => false
    | some suffix => suffix[modSuffix.length]? = some '.'

def pluginPrefix (lp64 : Bool) : List Char := if lp64 then ['/', '6', '4', '/'] else []

def Found.plugindir (f : Found) : List Char := f.dir ++ pluginPrefix f.lp64

def Found.modpath (f : Found) (name : List Char) : List Char := f.plugindir ++ '/' :: name

def isLibusbPlugin (f : Found) (modname : List Char) : Int :=
  if !f.opens modname then failure else if !f.usbInit modname && !f.libusbPrefix modname then failure else success

def readEntries (f : Found) : List (List Char) → Nat → Slots → Option (Int × Slots)
  | [], pindex, p => if f.error then some (failure, p) else some (if pindex = 0 then failure else success, p)
  | name :: rest, pindex, p =>
      if !isModule name then readEntries f rest pindex p
      else if name.length > pathMax then readEntries f rest pindex (Function.update p pindex { p pindex with name := .freed })
      else if (f.modpath name).length > pathMax then none
      else if isLibusbPlugin f (f.modpath name) ≠ success then
        readEntries f rest pindex (Function.update p pindex ⟨.freed, .freed⟩)
      else
        let p := Function.update p pindex ⟨.live name, .live (f.modpath name)⟩
        if pindex + 1 = maxPlugins then some (success, p) else readEntries f rest (pindex + 1) p

def readPluginEntries (f : Found) (p : Slots) : Option (Int × Slots) :=
  if min f.dir.length pathMax > pathMax - ((pluginPrefix f.lp64).length + 1) then some (failure, p)
  else if !f.opendir then some (failure, p)
  else readEntries f f.entries 0 p

def Text.free : Text → Option Text
  | .null => some .null
  | .live _ => some .freed
  | .freed => none

def Text.opened : Text → Option (Option (List Char))
  | .null => some none
  | .live s => some (some s)
  | .freed => none

/-- What is left of an entry: both strings are freed when dlopen fails, and when unload_plugin is called the
name is NULL too. -/
def afterLoad (answer : Loaded) (slot : Slot) : Option Slot :=
  match answer with
  | .used => some slot
  | .closed => do return ⟨← slot.name.free, ← slot.path.free⟩
  | .noSyms => do
      let _ ← slot.name.free
      return ⟨.null, ← slot.path.free⟩

def Loaded.isUsed : Loaded → Bool
  | .used => true
  | _ => false

/-- The loop of load_plugins from an index on: the index it ends at, whether a module was loaded, and the
paths it opens. -/
def loadFrom (answer : Nat → Loaded) : Nat → Nat → Slots → Option (Nat × Bool × List (Option (List Char)) × Slots)
  | 0, pindex, p => some (pindex, false, [], p)
  | n + 1, pindex, p =>
      if (p pindex).name = .null then some (pindex, false, [], p)
      else do
        let path ← (p pindex).path.opened
        let slot ← afterLoad (answer pindex) (p pindex)
        let (last, loaded, opened, p) ← loadFrom answer n (pindex + 1) (Function.update p pindex slot)
        return (last, (answer pindex).isUsed || loaded, path :: opened, p)

/-- load_plugins, and the paths that it opens. -/
def loadPlugins (f : Found) (answer : Nat → Loaded) (p : Slots) : Option (Int × List (Option (List Char)) × Slots) := do
  let (ret, p) ← readPluginEntries f p
  if ret ≠ success then return (failure, [], p)
  else
    let (_, loaded, opened, p) ← loadFrom answer maxPlugins 0 p
    return (if loaded then success else failure, opened, p)

section Spec

def reached {α : Type} (kind : α → Bool) : Nat → List α → List α
  | 0, _ => []
  | _ + 1, [] => []
  | n + 1, x :: xs => x :: reached kind (if kind x then n else n + 1) xs

variable (f : Found)

def Found.accepts (name : List Char) : Bool := name.length ≤ pathMax ∧ isLibusbPlugin f (f.modpath name) = success

def Found.readable : Bool := f.opendir ∧ f.dir.length + (pluginPrefix f.lp64).length + 1 ≤ pathMax

def Found.candidates : List (List Char) := if f.readable then reached f.accepts maxPlugins (f.entries.filter isModule) else []

def Found.accepted : List (List Char) := f.candidates.filter f.accepts

/-- The accepted plug-ins are in the first places and no other place is marked as used, and they are what
load_plugins opens. -/
def Right (answer : Nat → Loaded) (p : Slots) : Prop :=
  (∃ ret p', readPluginEntries f p = some (ret, p') ∧
    (∀ i (h : i < f.accepted.length), p' i = ⟨.live f.accepted[i], .live (f.modpath f.accepted[i])⟩) ∧
    ∀ i, f.accepted.length ≤ i → i < maxPlugins → (p' i).name = .null) ∧
  ∃ ret p', loadPlugins f answer p = some (ret, f.accepted.map fun name => some (f.modpath name), p')

/-- No path is too long for modpath. -/
def Fits : Prop := ∀ name ∈ f.candidates, name.length ≤ pathMax → (f.modpath name).length ≤ pathMax

/-- Nothing is rejected behind the last accepted plug-in, except where there is no room for more. -/
def LastAccepted : Prop := f.accepted.length = maxPlugins ∨ ∀ name ∈ f.candidates.getLast?, f.accepts name = true

/-- The listing is read to its end as far as it matters. -/
def Listed : Prop := f.error = false ∨ f.accepted = [] ∨ f.accepted.length = maxPlugins

/-- No later place was marked as used before. -/
def Unused (p : Slots) : Prop := ∀ i, f.accepted.length ≤ i → i < maxPlugins → (p i).name = .null

end Spec

variable {f : Found} {answer : Nat → Loaded} {p p' : Slots} {j n : Nat} {cs : List (List Char)} {name : List Char} {ret : Int}

theorem readEntries_modules (entries : List (List Char)) (j : Nat) (p : Slots) :
    readEntries f entries j p = readEntries f (entries.filter isModule) j p := by
  induction entries generalizing j p with
  | nil => rfl
  | cons name rest ih =>
      cases hm : isModule name with
      | false =>
          rw [List.filter_cons_of_neg (by simp [hm]), ← ih, readEntries, hm]
          rfl
      | true =>
          rw [List.filter_cons_of_pos hm, readEntries, readEntries]
          simp only [ih]

def FitsPath (f : Found) (name : List Char) : Prop := name.length ≤ pathMax → (f.modpath name).length ≤ pathMax

theorem readEntries_cons (hm : isModule name = true) (rest : List (List Char)) (j : Nat) (p : Slots) :
    (¬ FitsPath f name ∧ readEntries f (name :: rest) j p = none) ∨
    (FitsPath f name ∧ f.accepts name = false ∧ ∃ slot, slot.name = .freed ∧
      readEntries f (name :: rest) j p = readEntries f rest j (Function.update p j slot)) ∨
    (FitsPath f name ∧ f.accepts name = true ∧ readEntries f (name :: rest) j p =
      if j + 1 = maxPlugins then some (success, Function.update p j ⟨.live name, .live (f.modpath name)⟩)
      else readEntries f rest (j + 1) (Function.update p j ⟨.live name, .live (f.modpath name)⟩)) := by
  rw [readEntries, if_neg (by simp [hm])]
  by_cases hlen : name.length > pathMax
  · rw [if_pos hlen]
    exact .inr (.inl ⟨fun h => absurd h (Nat.not_le.mpr hlen), by simp [Found.accepts]; omega, _, rfl, rfl⟩)
  · rw [if_neg hlen]
    by_cases hpath : (f.modpath name).length > pathMax
    · rw [if_pos hpath]
      exact .inl ⟨fun h => absurd (h (Nat.not_lt.mp hlen)) (Nat.not_le.mpr hpath), rfl⟩
    · have hfits : FitsPath f name := fun _ => Nat.not_lt.mp hpath
      rw [if_neg hpath]
      by_cases hplugin : isLibusbPlugin f (f.modpath name) = success
      · rw [if_neg (not_not.mpr hplugin)]
        exact .inr (.inr ⟨hfits, by simp [Found.accepts, hplugin]; omega, rfl⟩)
      · rw [if_pos hplugin]
        exact .inr (.inl ⟨hfits, by simp [Found.accepts, hplugin], _, rfl, rfl⟩)

theorem reached_zero {α : Type} (kind : α → Bool) (xs : List α) : reached kind 0 xs = [] := by cases xs <;> rfl

theorem readEntries_overflow (hcs : ∀ name ∈ cs, isModule name = true) (hj : j + (n + 1) = maxPlugins)
    (h : ¬ ∀ name ∈ reached f.accepts (n + 1) cs, FitsPath f name) : readEntries f cs j p = none := by
  induction cs generalizing j n p with
  | nil => exact absurd (List.forall_mem_nil _) h
  | cons name rest ih =>
      have hrest := fun x hx => hcs x (List.mem_cons_of_mem _ hx)
      rw [reached, List.forall_mem_cons] at h
      rcases readEntries_cons (hcs name (List.mem_cons_self ..)) rest j p with
        ⟨-, hnone⟩ | ⟨hfits, hrejected, slot, -, hread⟩ | ⟨hfits, haccepted, hread⟩
      · exact hnone
      · rw [hrejected] at h
        rw [hread]
        exact ih hrest hj fun hall => h ⟨hfits, hall⟩
      · rw [haccepted, if_pos rfl] at h
        cases n with
        | zero => exact absurd ⟨hfits, by rw [reached_zero]; exact List.forall_mem_nil _⟩ h
        | succ n =>
            rw [hread, if_neg (by omega)]
            exact ih hrest (by omega) fun hall => h ⟨hfits, hall⟩

/-- What the loop leaves: the accepted plug-ins from an index on, and behind them a place that is freed when
the last module was rejected. -/
structure Filled (f : Found) (mods : List (List Char)) (j : Nat) (p p' : Slots) : Prop where
  before : ∀ i, i < j → p' i = p i
  names : ∀ i (h : i < (mods.filter f.accepts).length),
    p' (j + i) = ⟨.live (mods.filter f.accepts)[i], .live (f.modpath (mods.filter f.accepts)[i])⟩
  kept : (∀ name ∈ mods.getLast?, f.accepts name = true) →
    p' (j + (mods.filter f.accepts).length) = p (j + (mods.filter f.accepts).length)
  freed : ¬ (∀ name ∈ mods.getLast?, f.accepts name = true) → (p' (j + (mods.filter f.accepts).length)).name = .freed
  later : ∀ i, j + (mods.filter f.accepts).length < i → p' i = p i

theorem Filled.nil (f : Found) (j : Nat) (p : Slots) : Filled f [] j p p where
  before _ _ := rfl
  names i h := absurd h (Nat.not_lt_zero i)
  kept _ := rfl
  freed h := absurd (fun _ hname => nomatch hname) h
  later _ _ := rfl

theorem Filled.rejected {mods : List (List Char)} {slot : Slot} (hname : f.accepts name = false) (hslot : slot.name = .freed)
    (h : Filled f mods j (Function.update p j slot) p') : Filled f (name :: mods) j p p' := by
  have hfilter : (name :: mods).filter f.accepts = mods.filter f.accepts := List.filter_cons_of_neg (by simp [hname])
  refine ⟨fun i hi => ?_, ?_, fun hlast => ?_, fun hlast => ?_, fun i hi => ?_⟩
  · rw [h.before i hi, Function.update_of_ne (Nat.ne_of_lt hi)]
  · simp only [hfilter]
    exact h.names
  · rw [hfilter]
    cases mods with
    | nil => exact absurd (hlast name rfl) (by simp [hname])
    | cons y ys =>
        rw [List.getLast?_cons_cons] at hlast
        obtain ⟨x, hx⟩ : ∃ x, (y :: ys).getLast? = some x := ⟨_, List.getLast?_cons⟩
        have hin : x ∈ (y :: ys).filter f.accepts := List.mem_filter.mpr ⟨List.mem_of_getLast? hx, hlast x hx⟩
        have hpos := List.length_pos_of_mem hin
        rw [h.kept hlast, Function.update_of_ne (by omega)]
  · rw [hfilter]
    cases mods with
    | nil =>
        have hkept := h.kept fun _ hx => nomatch hx
        rw [hkept, List.filter_nil, List.length_nil, Nat.add_zero, Function.update_self, hslot]
    | cons y ys =>
        rw [List.getLast?_cons_cons] at hlast
        exact h.freed hlast
  · rw [hfilter] at hi
    rw [h.later i hi, Function.update_of_ne (by omega)]

theorem Filled.accepted {mods : List (List Char)} (hname : f.accepts name = true)
    (h : Filled f mods (j + 1) (Function.update p j ⟨.live name, .live (f.modpath name)⟩) p') : Filled f (name :: mods) j p p' := by
  have hfilter : (name :: mods).filter f.accepts = name :: mods.filter f.accepts := List.filter_cons_of_pos hname
  have hlen : j + (name :: mods.filter f.accepts).length = j + 1 + (mods.filter f.accepts).length := by
    rw [List.length_cons]
    omega
  have hsame : (∀ x ∈ (name :: mods).getLast?, f.accepts x = true) ↔ ∀ x ∈ mods.getLast?, f.accepts x = true := by
    cases mods with
    | nil => simp [hname]
    | cons y ys => rw [List.getLast?_cons_cons]
  refine ⟨fun i hi => ?_, ?_, fun hlast => ?_, fun hlast => ?_, fun i hi => ?_⟩
  · rw [h.before i (by omega), Function.update_of_ne (Nat.ne_of_lt hi)]
  · simp only [hfilter]
    intro i hi
    cases i with
    | zero => exact (h.before j (Nat.lt_succ_self j)).trans (Function.update_self ..)
    | succ i =>
        have hnext := h.names i (by simpa using hi)
        rwa [Nat.add_right_comm] at hnext
  · rw [hfilter, hlen, h.kept (hsame.mp hlast), Function.update_of_ne (by omega)]
  · rw [hfilter, hlen]
    exact h.freed fun hall => hlast (hsame.mpr hall)
  · rw [hfilter, hlen] at hi
    rw [h.later i hi, Function.update_of_ne (by omega)]

theorem readEntries_fits (hcs : ∀ name ∈ cs, isModule name = true) (hj : j + (n + 1) = maxPlugins)
    (h : ∀ name ∈ reached f.accepts (n + 1) cs, FitsPath f name) :
    ∃ ret p', readEntries f cs j p = some (ret, p') ∧ Filled f (reached f.accepts (n + 1) cs) j p p' ∧
      (ret = success ↔ ((reached f.accepts (n + 1) cs).filter f.accepts).length = n + 1 ∨
        f.error = false ∧ 0 < j + ((reached f.accepts (n + 1) cs).filter f.accepts).length) := by
  induction cs generalizing j n p with
  | nil =>
      rw [readEntries, reached]
      cases f.error with
      | true => exact ⟨failure, p, rfl, .nil f j p, by simp [Plugins.failure, success]⟩
      | false =>
          refine ⟨_, p, rfl, .nil f j p, ?_⟩
          by_cases hzero : j = 0
          · simp [hzero, Plugins.failure, success]
          · simp [hzero, Nat.pos_iff_ne_zero]
  | cons name rest ih =>
      have hrest := fun x hx => hcs x (List.mem_cons_of_mem _ hx)
      rw [reached, List.forall_mem_cons] at h
      rw [reached]
      rcases readEntries_cons (hcs name (List.mem_cons_self ..)) rest j p with
        ⟨hno, -⟩ | ⟨-, hrejected, slot, hslot, hread⟩ | ⟨-, haccepted, hread⟩
      · exact absurd h.1 hno
      · rw [hrejected] at h ⊢
        obtain ⟨ret, p', hrun, hfilled, hret⟩ := ih hrest hj h.2
        refine ⟨ret, p', hread.trans hrun, hfilled.rejected hrejected hslot, ?_⟩
        rw [hret, List.filter_cons_of_neg (by simp [hrejected])]
        rfl
      · rw [haccepted, if_pos rfl] at h ⊢
        rw [List.filter_cons_of_pos haccepted, List.length_cons]
        cases n with
        | zero =>
            rw [reached_zero]
            refine ⟨success, _, hread.trans (if_pos (by omega)), (Filled.nil f (j + 1) _).accepted haccepted, ?_⟩
            exact iff_of_true rfl (.inl rfl)
        | succ n =>
            obtain ⟨ret, p', hrun, hfilled, hret⟩ := ih hrest (show j + 1 + (n + 1) = maxPlugins by omega) h.2
            refine ⟨ret, p', (hread.trans (if_neg (by omega))).trans hrun, hfilled.accepted haccepted, ?_⟩
            rw [hret]
            refine or_congr ?_ (and_congr_right fun _ => ?_)
            · omega
            · omega

theorem loadFrom_live {mods : List (List Char)} (hn : mods.length ≤ n)
    (hlive : ∀ i (h : i < mods.length), p (j + i) = ⟨.live mods[i], .live (f.modpath mods[i])⟩)
    (hend : mods.length = n ∨ (p (j + mods.length)).name = .null) :
    ∃ last loaded p', loadFrom answer n j p = some (last, loaded, mods.map fun name => some (f.modpath name), p') := by
  induction mods generalizing n j p with
  | nil =>
      cases n with
      | zero => exact ⟨j, false, p, rfl⟩
      | succ n =>
          have hnull : (p j).name = .null := hend.resolve_left nofun
          exact ⟨j, false, p, by rw [loadFrom, if_pos hnull]; rfl⟩
  | cons name mods ih =>
      cases n with
      | zero => exact absurd hn (Nat.not_succ_le_zero _)
      | succ n =>
          have hslot : p j = ⟨.live name, .live (f.modpath name)⟩ := hlive 0 (Nat.succ_pos _)
          obtain ⟨slot, hafter⟩ : ∃ slot, afterLoad (answer j) (p j) = some slot := by
            rw [hslot]
            cases answer j with
            | closed => exact ⟨_, rfl⟩
            | noSyms => exact ⟨_, rfl⟩
            | used => exact ⟨_, rfl⟩
          have hother (i : Nat) : Function.update p j slot (j + 1 + i) = p (j + (i + 1)) := by
            rw [Function.update_of_ne (by omega), Nat.add_right_comm, Nat.add_assoc]
          have hrest (i : Nat) (h : i < mods.length) :
              Function.update p j slot (j + 1 + i) = ⟨.live mods[i], .live (f.modpath mods[i])⟩ := by
            rw [hother]
            exact hlive (i + 1) (Nat.succ_lt_succ h)
          obtain ⟨last, loaded, p', hrun⟩ := ih (Nat.le_of_succ_le_succ hn) hrest (hend.imp Nat.succ.inj fun h => by rw [hother]; exact h)
          refine ⟨last, (answer j).isUsed || loaded, p', ?_⟩
          have hpath : (p j).path.opened = some (some (f.modpath name)) := by rw [hslot]; rfl
          rw [loadFrom, if_neg (by rw [hslot]; exact nofun), hafter, hpath]
          simp only [Option.bind_eq_bind, Option.bind_some, hrun]
          rfl

theorem reached_length {α : Type} (kind : α → Bool) (n : Nat) (xs : List α) : ((reached kind n xs).filter kind).length ≤ n := by
  induction xs generalizing n with
  | nil => cases n <;> exact Nat.zero_le _
  | cons x xs ih =>
      cases n with
      | zero => exact Nat.le_refl 0
      | succ n =>
          rw [reached]
          cases hx : kind x with
          | false =>
              rw [List.filter_cons_of_neg (by simp [hx])]
              exact ih (n + 1)
          | true =>
              rw [List.filter_cons_of_pos hx]
              exact Nat.succ_le_succ (ih n)

theorem readPluginEntries_eq (f : Found) (p : Slots) : readPluginEntries f p =
    if f.readable then readEntries f (f.entries.filter isModule) 0 p else some (Plugins.failure, p) := by
  have hmax : pathMax = 1024 := rfl
  have hshort : (pluginPrefix f.lp64).length ≤ 4 := by
    rw [pluginPrefix]
    split <;> decide
  rw [readPluginEntries, ← readEntries_modules]
  cases ho : f.opendir with
  | false => simp [Found.readable, ho]
  | true =>
      by_cases hlen : f.dir.length + (pluginPrefix f.lp64).length + 1 ≤ pathMax
      · rw [if_neg (by omega), if_neg (by simp), if_pos (by simp [Found.readable, ho, hlen])]
      · rw [if_pos (by omega), if_neg (by simp [Found.readable, ho, hlen])]

theorem readPluginEntries_filled (h : Fits f) : ∃ ret p', readPluginEntries f p = some (ret, p') ∧ Filled f f.candidates 0 p p' ∧
    (ret = success ↔ f.accepted.length = maxPlugins ∨ f.error = false ∧ 0 < f.accepted.length) := by
  rw [readPluginEntries_eq]
  by_cases hr : f.readable = true
  · have hcandidates : f.candidates = reached f.accepts maxPlugins (f.entries.filter isModule) := if_pos hr
    have hmods : ∀ name ∈ f.entries.filter isModule, isModule name = true := fun name hname => (List.mem_filter.mp hname).2
    rw [Fits, hcandidates] at h
    rw [if_pos hr, Found.accepted, hcandidates]
    obtain ⟨ret, p', hrun, hfilled, hret⟩ := @readEntries_fits f p 0 9 _ hmods rfl h
    refine ⟨ret, p', hrun, hfilled, ?_⟩
    rw [hret, Nat.zero_add]
    rfl
  · have hcandidates : f.candidates = [] := if_neg hr
    have haccepted : f.accepted = [] := by rw [Found.accepted, hcandidates]; rfl
    rw [if_neg hr, hcandidates, haccepted]
    refine ⟨Plugins.failure, p, rfl, .nil f 0 p, ?_⟩
    simp [Plugins.failure, success, maxPlugins]

theorem readPluginEntries_none (h : ¬ Fits f) : readPluginEntries f p = none := by
  have hr : f.readable = true := by
    by_contra hr
    have hcandidates : f.candidates = [] := if_neg hr
    exact h fun name hname => absurd hname (by simp [hcandidates])
  have hcandidates : f.candidates = reached f.accepts maxPlugins (f.entries.filter isModule) := if_pos hr
  have hmods : ∀ name ∈ f.entries.filter isModule, isModule name = true := fun name hname => (List.mem_filter.mp hname).2
  rw [Fits, hcandidates] at h
  rw [readPluginEntries_eq, if_pos hr]
  exact @readEntries_overflow f p 0 9 _ hmods rfl h

theorem accepted_length (f : Found) : f.accepted.length ≤ maxPlugins := by
  rw [Found.accepted, Found.candidates]
  split
  · exact reached_length _ _ _
  · exact Nat.zero_le _

theorem names_startup (hfits : Fits f) (hlast : LastAccepted f) {dir : Directory} {s : WrapperState}
    (hdir : dir.entries = f.accepted.length) (hnames : ∀ i, (s.pInfo i).pName = decide ((p i).name ≠ .null)) :
    ∃ ret p', PluginEntries.readPluginEntries f p = some (ret, p') ∧
      ∀ i < maxPlugins, ((Startup.readPluginEntries dir s).pInfo i).pName = decide ((p' i).name ≠ .null) := by
  obtain ⟨ret, p', hread, hfilled, -⟩ := readPluginEntries_filled (p := p) hfits
  refine ⟨ret, p', hread, fun i hi => ?_⟩
  rw [Startup.readPluginEntries]
  dsimp only
  rw [hdir]
  by_cases hin : i < f.accepted.length
  · have hslot := hfilled.names i hin
    rw [Nat.zero_add] at hslot
    rw [if_pos hin, hslot]
    rfl
  · rw [if_neg hin, hnames]
    rcases Nat.lt_or_eq_of_le (Nat.not_lt.mp hin) with hlt | heq
    · rw [hfilled.later i (by rw [Nat.zero_add]; exact hlt)]
    · have hkept := hfilled.kept (hlast.resolve_left (by omega))
      rw [Nat.zero_add] at hkept
      rw [← heq]
      exact congrArg (fun slot : Slot => decide (slot.name ≠ .null)) hkept.symm

theorem free_iff (h : Filled f f.candidates 0 p p') :
    (∀ i, f.accepted.length ≤ i → i < maxPlugins → (p' i).name = .null) ↔ LastAccepted f ∧ Unused f p := by
  have hlen := accepted_length f
  have hkept := h.kept
  have hfreed := h.freed
  have hlater := h.later
  rw [Nat.zero_add] at hkept hfreed hlater
  constructor
  · intro hnull
    have hlast : LastAccepted f := by
      by_contra hno
      obtain ⟨hroom, hno⟩ := not_or.mp hno
      have hboth := (hnull _ (Nat.le_refl _) (by omega)).symm.trans (hfreed hno)
      exact absurd hboth nofun
    refine ⟨hlast, fun i hi hmax => ?_⟩
    rcases Nat.lt_or_eq_of_le hi with hlt | heq
    · rw [← hlater i hlt]
      exact hnull i hi hmax
    · subst heq
      rw [← hnull _ (Nat.le_refl _) hmax]
      exact congrArg Slot.name (hkept (hlast.resolve_left (by omega))).symm
  · rintro ⟨hlast, hunused⟩ i hi hmax
    rcases Nat.lt_or_eq_of_le hi with hlt | heq
    · rw [hlater i hlt]
      exact hunused i hi hmax
    · subst heq
      rw [← hunused _ (Nat.le_refl _) hmax]
      exact congrArg Slot.name (hkept (hlast.resolve_left (by omega)))

theorem loadPlugins_failure (hread : PluginEntries.readPluginEntries f p = some (ret, p')) (hret : ret ≠ success) :
    PluginEntries.loadPlugins f answer p = some (Plugins.failure, [], p') := by
  rw [PluginEntries.loadPlugins, hread]
  exact if_pos hret

/-- The accepted plug-ins take the first places and are opened, no other place is used, and nothing freed is
touched, when all paths fit, the last candidate is accepted, the listing is read to its end, and no later
place was used before. -/
theorem plugin_entries_iff (f : Found) (answer : Nat → Loaded) (p : Slots) : Right f answer p ↔
    Fits f ∧ LastAccepted f ∧ Listed f ∧ Unused f p := by
  constructor
  · rintro ⟨⟨ret, p', hread, -, hnull⟩, ret', p'', hload⟩
    have hfits : Fits f := by
      by_contra hno
      exact absurd ((readPluginEntries_none hno).symm.trans hread) nofun
    obtain ⟨r, q, hrun, hfilled, hret⟩ := readPluginEntries_filled (p := p) hfits
    obtain ⟨rfl, rfl⟩ := Prod.mk.inj (Option.some.inj (hrun.symm.trans hread))
    obtain ⟨hlast, hunused⟩ := (free_iff hfilled).mp hnull
    refine ⟨hfits, hlast, ?_, hunused⟩
    by_cases hsuccess : r = success
    · exact (hret.mp hsuccess).elim (fun h => .inr (.inr h)) fun h => .inl h.1
    · have hopened := congrArg (·.2.1) (Option.some.inj ((loadPlugins_failure hread hsuccess).symm.trans hload))
      exact .inr (.inl (List.map_eq_nil_iff.mp hopened.symm))
  · rintro ⟨hfits, hlast, hlisted, hunused⟩
    obtain ⟨ret, p', hread, hfilled, hret⟩ := readPluginEntries_filled (p := p) hfits
    have hnull := (free_iff hfilled).mpr ⟨hlast, hunused⟩
    have hnames (i : Nat) (h : i < f.accepted.length) : p' i = ⟨.live f.accepted[i], .live (f.modpath f.accepted[i])⟩ := by
      have hslot := hfilled.names i h
      rwa [Nat.zero_add] at hslot
    refine ⟨⟨ret, p', hread, hnames, hnull⟩, ?_⟩
    by_cases hsuccess : ret = success
    · have hend : f.accepted.length = maxPlugins ∨ (p' (0 + f.accepted.length)).name = .null := by
        rw [Nat.zero_add]
        rcases Nat.lt_or_eq_of_le (accepted_length f) with hlt | heq
        · exact .inr (hnull _ (Nat.le_refl _) hlt)
        · exact .inl heq
      obtain ⟨last, loaded, q, hopen⟩ := @loadFrom_live f answer _ _ _ _ (accepted_length f)
        (fun i h => by rw [Nat.zero_add]; exact hnames i h) hend
      refine ⟨if loaded then success else Plugins.failure, q, ?_⟩
      rw [PluginEntries.loadPlugins, hread]
      simp only [Option.bind_eq_bind, Option.bind_some, hopen, hsuccess, ne_eq, not_true_eq_false, if_false]
      rfl
    · have hempty : f.accepted = [] := by
        have hno := fun h => hsuccess (hret.mpr h)
        rcases hlisted with hok | hempty | hfull
        · by_contra hne
          exact hno (.inr ⟨hok, List.length_pos_iff.mpr hne⟩)
        · exact hempty
        · exact absurd (.inl hfull) hno
      exact ⟨_, _, by rw [loadPlugins_failure hread hsuccess, hempty]; rfl⟩

def mixed : Found where
  dir := ['/', 'p']
  entries := [['a', '.', 's', 'o', '.', '1'], ['b', '.', 's', 'o', '.', '1']]
  opens := fun _ => true
  usbInit := fun path => path.contains 'a'
  libusbPrefix := fun _ => false

/-- The place behind the plug-in is marked as used, and load_plugins opens the path that has been freed. -/
theorem rejected_last : PluginEntries.loadPlugins mixed (fun _ => .used) (fun _ => {}) = none ∧ ¬ Right mixed (fun _ => .used) fun _ => {} := by
  have hnone : PluginEntries.loadPlugins mixed (fun _ => .used) (fun _ => {}) = none := by
    rw [← Option.isNone_iff_eq_none]
    decide
  refine ⟨hnone, ?_⟩
  rintro ⟨-, ret, p', hload⟩
  exact absurd (hnone.symm.trans hload) nofun

end OiUserland.Wrapper.PluginEntries
