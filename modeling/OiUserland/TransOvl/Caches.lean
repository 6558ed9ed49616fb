import OiUserland.Lib.Runs
import OiUserland.TransOvl.Matches

namespace OiUserland.TransOvl.Caches

open Lib.Runs Visuals

section Model

inductive DataType
  | XOvlMBXBuffers
  | XOvlSharedPixels
  | XOvlSharedColors
  deriving DecidableEq

abbrev ValueOf : DataType → Type
  | .XOvlMBXBuffers => Nat
  | .XOvlSharedPixels => BitVec 64 × BitVec 64
  | .XOvlSharedColors => BitVec 64 × Int

def unknown : (k : DataType) → ValueOf k
  | .XOvlMBXBuffers => (0 : Nat)
  | .XOvlSharedPixels => (BitVec.allOnes 64, BitVec.allOnes 64)
  | .XOvlSharedColors => (BitVec.allOnes 64, (1 : Int))

def replyOf (server : Server) : (k : DataType) → List (VisualID × ValueOf k)
  | .XOvlMBXBuffers => server.monoInfo.map fun e => (e.1, if e.2 = 0 then maxBuffers else e.2)
  | .XOvlSharedPixels => server.pgInfos.map fun e => (e.1, (e.2.1.zeroExtend 64, e.2.2.zeroExtend 64))
  | .XOvlSharedColors => server.clutInfos.map fun e => (e.1, ((1#32 <<< e.2.1).signExtend 64, e.2.2))

structure VisExtData where
  datatypes : DataType → Bool
  data : (k : DataType) → ValueOf k

/-- A screen of a display. -/
abbrev Addr := Nat × Nat

/-- The records of the visuals and of the screens. That a reply of the server has been read is
only recorded here. -/
structure State where
  visdata : Addr × Visual → Option VisExtData
  screendata : Addr → Option (DataType → Bool)
  answered : Addr → DataType → Bool

structure Displays where
  screen : Addr → Screen
  server : Addr → Server

/-- What is met during a query: whether the data of the screen can be had, whether the reply
comes, which allocations succeed, and what new memory holds. -/
structure Outcomes where
  partners : Bool
  reply : Bool
  alloc : Nat → Bool
  garbage : (k : DataType) → ValueOf k

def isValid (k : DataType) (key : Addr × Visual) (s : State) : Bool :=
  match s.visdata key with
  | none => false
  | some r => r.datatypes k

def isQueried (k : DataType) (a : Addr) (s : State) : Bool :=
  match s.screendata a with
  | none => false
  | some visdatatypes => visdatatypes k

def setQueried (k : DataType) (b : Bool) (a : Addr) (s : State) : State :=
  { s with
    screendata := Function.update s.screendata a
      ((s.screendata a).map fun visdatatypes => Function.update visdatatypes k b) }

def findVisdata (o : Outcomes) (n : Nat) (key : Addr × Visual) (s : State) : Bool × State :=
  match s.visdata key with
  | some _ => (true, s)
  | none =>
      if o.alloc n then
        (true, { s with visdata := Function.update s.visdata key (some ⟨fun _ => false, o.garbage⟩) })
      else (false, s)

def findAll (o : Outcomes) (a : Addr) : Nat → List Visual → State → Bool × State
  | _, [], s => (true, s)
  | n, vis :: vises, s =>
      let r := findVisdata o n (a, vis) s
      let rs := findAll o a (n + 1) vises r.2
      (r.1 && rs.1, rs.2)

def store (k : DataType) (value : ValueOf k) (valid : Bool) (key : Addr × Visual) (s : State) : State :=
  { s with visdata := Function.update s.visdata key ((s.visdata key).map fun r =>
      ⟨Function.update r.datatypes k valid, Function.update r.data k value⟩) }

def loadEntry (o : Outcomes) (k : DataType) (scr : Screen) (a : Addr) (n : Nat) (entry : VisualID × ValueOf k)
    (s : State) : State :=
  match findVisual scr entry.1 with
  | none => s
  | some info =>
      let r := findVisdata o n (a, info.vis) s
      if r.1 then store k entry.2 true (a, info.vis) r.2 else setQueried k false a r.2

def loadEntries (o : Outcomes) (k : DataType) (scr : Screen) (a : Addr) :
    Nat → List (VisualID × ValueOf k) → State → State
  | _, [], s => s
  | n, entry :: entries, s => loadEntries o k scr a (n + 1) entries (loadEntry o k scr a n entry s)

def setAnswered (k : DataType) (a : Addr) (s : State) : State :=
  { s with answered := Function.update s.answered a (Function.update (s.answered a) k true) }

variable (ds : Displays)

def findScreendata (o : Outcomes) (a : Addr) (s : State) : Option State :=
  match s.screendata a with
  | some _ => some s
  | none =>
      if o.partners ∧ (Visuals.findScreendata (ds.screen a) (ds.server a)).isSome then
        some { s with screendata := Function.update s.screendata a (some fun _ => false) }
      else none

/-- Without screen data a NULL pointer is followed, and without a reply the buffers are read
through pointers that have not been set. -/
def query (o : Outcomes) (k : DataType) (a : Addr) (n : Nat) (s : State) : Option State := do
  let s ← findScreendata ds o a s
  if isQueried k a s then some s
  else
    let s := setQueried k true a s
    if o.reply then
      some (loadEntries o k (ds.screen a) a n (replyOf (ds.server a) k) (setAnswered k a s))
    else if k = .XOvlMBXBuffers then none
    else some s

def fill (k : DataType) (a : Addr) (s : State) (vis : Visual) : State :=
  if isValid k (a, vis) s then s else store k (unknown k) (isQueried k a s) (a, vis) s

def refresh (o : Outcomes) (k : DataType) (a : Addr) (vises : List Visual) (s : State) :
    Option (Bool × State) :=
  let r := findAll o a 0 vises s
  if r.1 = false then some (false, r.2)
  else if (vises.all fun vis => isValid k (a, vis) r.2) = true then some (true, r.2)
  else (query ds o k a vises.length r.2).map fun s => (true, vises.foldl (fill k a) s)

def dataOf (k : DataType) (key : Addr × Visual) (s : State) : Option (ValueOf k) :=
  (s.visdata key).map fun r => r.data k

def getNumMBXBuffers (o : Outcomes) (a : Addr) (candidate : Visual) (s : State) : Option (Nat × State) := do
  let r ← refresh ds o .XOvlMBXBuffers a [candidate] s
  if r.1 = false then some (0, r.2)
  else do
    let numBuffers ← dataOf .XOvlMBXBuffers (a, candidate) r.2
    some (numBuffers, r.2)

def checkSharedPixels (o : Outcomes) (a : Addr) (searchtype : SelectType) (candidate partner : Visual)
    (s : State) : Option (Bool × State) := do
  let r ← refresh ds o .XOvlSharedPixels a [candidate, partner] s
  if r.1 = false then some (true, r.2)
  else do
    let c ← dataOf .XOvlSharedPixels (a, candidate) r.2
    let p ← dataOf .XOvlSharedPixels (a, partner) r.2
    let commonplanes :=
      match searchtype with
      | .bestOverlay => c.1 &&& p.2
      | .bestUnderlay => c.2 &&& p.1
    some (commonplanes ≠ 0, r.2)

def checkSharedColors (o : Outcomes) (a : Addr) (candidate partner : Visual) (s : State) :
    Option (Bool × State) := do
  let r ← refresh ds o .XOvlSharedColors a [candidate, partner] s
  if r.1 = false then some (true, r.2)
  else do
    let c ← dataOf .XOvlSharedColors (a, candidate) r.2
    let p ← dataOf .XOvlSharedColors (a, partner) r.2
    some (c.1 &&& p.1 ≠ 0 ∧ c.2 ≤ 1, r.2)

end Model

section Runs

variable (ds : Displays)

inductive Op
  | numMBXBuffers (o : Outcomes) (a : Addr) (candidate : Visual)
  | sharedPixels (o : Outcomes) (a : Addr) (searchtype : SelectType) (candidate partner : Visual)
  | sharedColors (o : Outcomes) (a : Addr) (candidate partner : Visual)

inductive Answer
  | numBuffers (n : Nat)
  | shared (b : Bool)
  deriving DecidableEq

def step : Op → State → Option (Answer × State)
  | .numMBXBuffers o a candidate, s => (getNumMBXBuffers ds o a candidate s).map fun r => (.numBuffers r.1, r.2)
  | .sharedPixels o a searchtype candidate partner, s =>
      (checkSharedPixels ds o a searchtype candidate partner s).map fun r => (.shared r.1, r.2)
  | .sharedColors o a candidate partner, s =>
      (checkSharedColors ds o a candidate partner s).map fun r => (.shared r.1, r.2)

def Init (s : State) : Prop := s = ⟨fun _ => none, fun _ => none, fun _ _ => false⟩

def Replied (o : Outcomes) (k : DataType) (a : Addr) (vises : List Visual) (s : State) : Prop :=
  (findAll o a 0 vises s).1 = true → (∃ vis ∈ vises, isValid k (a, vis) s = false) →
    (s.screendata a = none →
        o.partners = true ∧ (Visuals.findScreendata (ds.screen a) (ds.server a)).isSome = true) ∧
      (isQueried k a s = false → o.reply = true)

def Fits : Op → State → Prop
  | .numMBXBuffers o a candidate, s => Replied ds o .XOvlMBXBuffers a [candidate] s
  | .sharedPixels o a _ candidate partner, s => Replied ds o .XOvlSharedPixels a [candidate, partner] s
  | .sharedColors o a candidate partner, s => Replied ds o .XOvlSharedColors a [candidate, partner] s

def rightAnswer : Op → State → Answer
  | .numMBXBuffers o a candidate, s => .numBuffers
      (if (findAll o a 0 [candidate] s).1 then Visuals.getNumMBXBuffers (ds.server a) (ds.screen a) candidate else 0)
  | .sharedPixels o a searchtype candidate partner, s => .shared
      (if (findAll o a 0 [candidate, partner] s).1 then
        Visuals.checkSharedPixels (ds.server a) (ds.screen a) searchtype candidate partner else true)
  | .sharedColors o a candidate partner, s => .shared
      (if (findAll o a 0 [candidate, partner] s).1 then
        Visuals.checkSharedColors (ds.server a) (ds.screen a) candidate partner else true)

def expected (k : DataType) (key : Addr × Visual) : ValueOf k :=
  (visdata (ds.screen key.1) (replyOf (ds.server key.1) k) key.2).getD (unknown k)

structure Kept (read : Addr → (k : DataType) → List (VisualID × ValueOf k)) (s : State) : Prop where
  known : ∀ k key, isValid k key s = true → s.answered key.1 k = true ∧
    dataOf k key s = some ((visdata (ds.screen key.1) (read key.1 k) key.2).getD (expected ds k key))
  loaded : ∀ k a, isQueried k a s = true → s.answered a k = true ∧
    ∀ vis, (visdata (ds.screen a) (read a k) vis).isSome = true → isValid k (a, vis) s = true

/-- A value is valid only if a reply has been read, and it is what the server tells. A screen is
marked only if a reply has been read, and the visuals the server tells of are valid. -/
structure Right (s : State) : Prop where
  known : ∀ k key, isValid k key s = true → s.answered key.1 k = true ∧ dataOf k key s = some (expected ds k key)
  loaded : ∀ k a, isQueried k a s = true → s.answered a k = true ∧
    ∀ vis, (visdata (ds.screen a) (replyOf (ds.server a) k) vis).isSome = true → isValid k (a, vis) s = true

end Runs

variable {ds : Displays} {s : State} {o : Outcomes} {k k' : DataType} {a a' : Addr} {key key' : Addr × Visual}

theorem store_valid_self {r : VisExtData} (h : s.visdata key = some r) (value : ValueOf k) (valid : Bool) :
    isValid k key (store k value valid key s) = valid := by
  simp only [isValid, store, h, Option.map_some, Function.update_self]

theorem store_data_self {r : VisExtData} (h : s.visdata key = some r) (value : ValueOf k) (valid : Bool) :
    dataOf k key (store k value valid key s) = some value := by
  simp only [dataOf, store, h, Option.map_some, Function.update_self]

theorem store_valid_of_ne (h : ¬(k' = k ∧ key' = key)) (value : ValueOf k) (valid : Bool) :
    isValid k' key' (store k value valid key s) = isValid k' key' s := by
  by_cases hkey : key' = key
  · subst hkey
    have hk : k' ≠ k := fun hk => h ⟨hk, rfl⟩
    cases hr : s.visdata key' <;>
      simp only [isValid, store, hr, Option.map_some, Option.map_none, Function.update_self,
        Function.update_of_ne hk]
  · simp only [isValid, store, Function.update_of_ne hkey]

theorem store_data_of_ne (h : ¬(k' = k ∧ key' = key)) (value : ValueOf k) (valid : Bool) :
    dataOf k' key' (store k value valid key s) = dataOf k' key' s := by
  by_cases hkey : key' = key
  · subst hkey
    have hk : k' ≠ k := fun hk => h ⟨hk, rfl⟩
    cases hr : s.visdata key' <;>
      simp only [dataOf, store, hr, Option.map_some, Option.map_none, Function.update_self,
        Function.update_of_ne hk]
  · simp only [dataOf, store, Function.update_of_ne hkey]

theorem store_isSome (value : ValueOf k) (valid : Bool) :
    ((store k value valid key s).visdata key').isSome = (s.visdata key').isSome := by
  by_cases hkey : key' = key
  · subst hkey
    simp only [store, Function.update_self, Option.isSome_map]
  · simp only [store, Function.update_of_ne hkey]

theorem setQueried_self (b : Bool) : isQueried k a (setQueried k b a s) = (b && (s.screendata a).isSome) := by
  cases h : s.screendata a <;>
    simp only [isQueried, setQueried, h, Option.map_some, Option.map_none, Function.update_self,
      Option.isSome_some, Option.isSome_none, Bool.and_true, Bool.and_false]

theorem setQueried_of_ne (h : ¬(k' = k ∧ a' = a)) (b : Bool) :
    isQueried k' a' (setQueried k b a s) = isQueried k' a' s := by
  by_cases ha : a' = a
  · subst ha
    have hk : k' ≠ k := fun hk => h ⟨hk, rfl⟩
    cases hs : s.screendata a' <;>
      simp only [isQueried, setQueried, hs, Option.map_some, Option.map_none, Function.update_self,
        Function.update_of_ne hk]
  · simp only [isQueried, setQueried, Function.update_of_ne ha]

theorem findVisdata_valid (n : Nat) : isValid k' key' (findVisdata o n key s).2 = isValid k' key' s := by
  rw [findVisdata]
  cases h : s.visdata key with
  | some r => rfl
  | none =>
      by_cases halloc : o.alloc n = true
      · by_cases hkey : key' = key
        · subst hkey
          simp only [isValid, if_pos halloc, Function.update_self, h]
        · simp only [isValid, if_pos halloc, Function.update_of_ne hkey]
      · simp only [if_neg halloc]

theorem findVisdata_data (n : Nat) (h : isValid k' key' s = true) :
    dataOf k' key' (findVisdata o n key s).2 = dataOf k' key' s := by
  rw [findVisdata]
  cases hr : s.visdata key with
  | some r => rfl
  | none =>
      by_cases halloc : o.alloc n = true
      · have hkey : key' ≠ key := by
          rintro rfl
          simp only [isValid, hr, Bool.false_eq_true] at h
        simp only [dataOf, if_pos halloc, Function.update_of_ne hkey]
      · simp only [if_neg halloc]

theorem findVisdata_screens (o : Outcomes) (n : Nat) (key : Addr × Visual) (s : State) :
    (findVisdata o n key s).2.screendata = s.screendata ∧
    (findVisdata o n key s).2.answered = s.answered := by
  rw [findVisdata]
  cases s.visdata key with
  | some r => exact ⟨rfl, rfl⟩
  | none =>
      by_cases halloc : o.alloc n = true
      · rw [if_pos halloc]
        exact ⟨rfl, rfl⟩
      · rw [if_neg halloc]
        exact ⟨rfl, rfl⟩

theorem findVisdata_found (o : Outcomes) (n : Nat) (key : Addr × Visual) (s : State) :
    (findVisdata o n key s).1 = ((findVisdata o n key s).2.visdata key).isSome := by
  rw [findVisdata]
  cases h : s.visdata key with
  | some r => simp only [h, Option.isSome_some]
  | none =>
      by_cases halloc : o.alloc n = true
      · simp only [if_pos halloc, Function.update_self, Option.isSome_some]
      · simp only [if_neg halloc, h, Option.isSome_none]

theorem findVisdata_isSome (o : Outcomes) (n : Nat) (key : Addr × Visual) (h : (s.visdata key').isSome = true) :
    ((findVisdata o n key s).2.visdata key').isSome = true := by
  rw [findVisdata]
  cases hr : s.visdata key with
  | some r => exact h
  | none =>
      by_cases halloc : o.alloc n = true
      · by_cases hkey : key' = key
        · subst hkey
          simp only [if_pos halloc, Function.update_self, Option.isSome_some]
        · simpa only [if_pos halloc, Function.update_of_ne hkey] using h
      · simpa only [if_neg halloc] using h

section Loading

variable {read : Addr → (k : DataType) → List (VisualID × ValueOf k)} {done : List (VisualID × ValueOf k)}
  {entry : VisualID × ValueOf k} {vis vis' : Visual}

theorem visdata_append {δ : Type} (scr : Screen) (answer : List (VisualID × δ)) (e : VisualID × δ) (vis : Visual) :
    visdata scr (answer ++ [e]) vis =
      if (findVisual scr e.1).map VisInfo.vis = some vis then some e.2 else visdata scr answer vis := by
  rw [visdata, List.reverse_append, List.reverse_singleton, List.singleton_append, List.find?_cons]
  by_cases h : (findVisual scr e.1).map VisInfo.vis = some vis
  · rw [if_pos h, decide_eq_true h, Option.map_some]
  · rw [if_neg h, decide_eq_false h, visdata]

theorem visdata_map {δ ε : Type} (scr : Screen) (answer : List (VisualID × δ)) (f : δ → ε) (vis : Visual) :
    visdata scr (answer.map fun e => (e.1, f e.2)) vis = (visdata scr answer vis).map f := by
  rw [visdata, visdata, ← List.map_reverse, List.find?_map, Option.map_map, Option.map_map]
  rfl

def readSoFar (read : Addr → (k : DataType) → List (VisualID × ValueOf k)) (a : Addr) (k : DataType)
    (done : List (VisualID × ValueOf k)) : Addr → (k : DataType) → List (VisualID × ValueOf k) :=
  Function.update read a (Function.update (read a) k done)

theorem readSoFar_self : readSoFar read a k done a k = done := by
  rw [readSoFar, Function.update_self, Function.update_self]

theorem readSoFar_of_ne (h : ¬(k' = k ∧ a' = a)) : readSoFar read a k done a' k' = read a' k' := by
  rw [readSoFar]
  by_cases ha : a' = a
  · subst ha
    have hk : k' ≠ k := fun hk => h ⟨hk, rfl⟩
    rw [Function.update_self, Function.update_of_ne hk]
  · rw [Function.update_of_ne ha]

theorem readSoFar_append
    (h : ¬(k' = k ∧ a' = a ∧ (findVisual (ds.screen a) entry.1).map VisInfo.vis = some vis')) :
    visdata (ds.screen a') (readSoFar read a k (done ++ [entry]) a' k') vis' =
      visdata (ds.screen a') (readSoFar read a k done a' k') vis' := by
  by_cases hka : k' = k ∧ a' = a
  · obtain ⟨rfl, rfl⟩ := hka
    rw [readSoFar_self, readSoFar_self, visdata_append, if_neg fun hvis => h ⟨rfl, rfl, hvis⟩]
  · rw [readSoFar_of_ne hka, readSoFar_of_ne hka]

theorem Kept.found (h : Kept ds read s) (o : Outcomes) (n : Nat) (key : Addr × Visual) :
    Kept ds read (findVisdata o n key s).2 := by
  obtain ⟨hscreens, hanswered⟩ := findVisdata_screens o n key s
  refine ⟨fun k' key' hvalid => ?_, fun k' a' hqueried => ?_⟩
  · rw [findVisdata_valid] at hvalid
    rw [hanswered, findVisdata_data n hvalid]
    exact h.known k' key' hvalid
  · rw [isQueried, hscreens] at hqueried
    obtain ⟨hans, hload⟩ := h.loaded k' a' hqueried
    refine ⟨hanswered ▸ hans, fun vis hvis => ?_⟩
    rw [findVisdata_valid]
    exact hload vis hvis

theorem Kept.stored {r : VisExtData} (h : Kept ds (readSoFar read a k done) s) (hans : s.answered a k = true)
    (hvis : (findVisual (ds.screen a) entry.1).map VisInfo.vis = some vis) (hrec : s.visdata (a, vis) = some r) :
    Kept ds (readSoFar read a k (done ++ [entry])) (store k entry.2 true (a, vis) s) := by
  refine ⟨fun k' key' hvalid => ?_, fun k' a' hqueried => ?_⟩
  · by_cases hkey : k' = k ∧ key' = (a, vis)
    · obtain ⟨rfl, rfl⟩ := hkey
      refine ⟨hans, ?_⟩
      rw [store_data_self hrec, readSoFar_self, visdata_append, if_pos hvis, Option.getD_some]
    · rw [store_valid_of_ne hkey] at hvalid
      obtain ⟨hans', hdata⟩ := h.known k' key' hvalid
      refine ⟨hans', ?_⟩
      rw [store_data_of_ne hkey, hdata, readSoFar_append]
      rintro ⟨rfl, rfl, hsame⟩
      exact hkey ⟨rfl, Prod.ext rfl (Option.some.inj (hsame.symm.trans hvis))⟩
  · obtain ⟨hans', hload⟩ := h.loaded k' a' hqueried
    refine ⟨hans', fun vis' hread => ?_⟩
    by_cases hkey : k' = k ∧ (a', vis') = (a, vis)
    · obtain ⟨rfl, hkey⟩ := hkey
      rw [hkey]
      exact store_valid_self hrec ..
    · rw [store_valid_of_ne hkey]
      refine hload vis' ?_
      rw [readSoFar_append] at hread
      · exact hread
      · rintro ⟨rfl, rfl, hsame⟩
        exact hkey ⟨rfl, Prod.ext rfl (Option.some.inj (hsame.symm.trans hvis))⟩

theorem Kept.missed (h : Kept ds (readSoFar read a k done) s)
    (hvis : (findVisual (ds.screen a) entry.1).map VisInfo.vis = some vis) (hrec : s.visdata (a, vis) = none) :
    Kept ds (readSoFar read a k (done ++ [entry])) (setQueried k false a s) := by
  refine ⟨fun k' key' hvalid => ?_, fun k' a' hqueried => ?_⟩
  · obtain ⟨hans, hdata⟩ := h.known k' key' hvalid
    refine ⟨hans, ?_⟩
    rw [readSoFar_append]
    · exact hdata
    · rintro ⟨rfl, rfl, hsame⟩
      have hkey : key' = (key'.1, vis) := Prod.ext rfl (Option.some.inj (hsame.symm.trans hvis))
      rw [← hkey] at hrec
      have hinvalid : isValid k' key' s = true := hvalid
      rw [isValid, hrec] at hinvalid
      cases hinvalid
  · by_cases hka : k' = k ∧ a' = a
    · obtain ⟨rfl, rfl⟩ := hka
      rw [setQueried_self, Bool.false_and] at hqueried
      cases hqueried
    · rw [setQueried_of_ne hka] at hqueried
      obtain ⟨hans, hload⟩ := h.loaded k' a' hqueried
      refine ⟨hans, fun vis' hread => hload vis' ?_⟩
      rw [readSoFar_of_ne hka] at hread ⊢
      exact hread

theorem Kept.skipped (h : Kept ds (readSoFar read a k done) s) (hvis : findVisual (ds.screen a) entry.1 = none) :
    Kept ds (readSoFar read a k (done ++ [entry])) s := by
  have hsame (k' : DataType) (a' : Addr) (vis' : Visual) :
      visdata (ds.screen a') (readSoFar read a k (done ++ [entry]) a' k') vis' =
        visdata (ds.screen a') (readSoFar read a k done a' k') vis' := by
    refine readSoFar_append ?_
    rw [hvis]
    rintro ⟨-, -, hnone⟩
    cases hnone
  refine ⟨fun k' key' hvalid => ?_, fun k' a' hqueried => ?_⟩
  · rw [hsame]
    exact h.known k' key' hvalid
  · obtain ⟨hans, hload⟩ := h.loaded k' a' hqueried
    exact ⟨hans, fun vis' hread => hload vis' (hsame k' a' vis' ▸ hread)⟩

theorem loadEntry_answered (n : Nat) (scr : Screen) : (loadEntry o k scr a n entry s).answered = s.answered := by
  rw [loadEntry]
  cases findVisual scr entry.1 with
  | none => rfl
  | some info =>
      have hanswered := (findVisdata_screens o n (a, info.vis) s).2
      cases hfound : (findVisdata o n (a, info.vis) s).1 <;> simp only [hfound] <;> exact hanswered

theorem loadEntry_kept (h : Kept ds (readSoFar read a k done) s) (hans : s.answered a k = true) (n : Nat) :
    Kept ds (readSoFar read a k (done ++ [entry])) (loadEntry o k (ds.screen a) a n entry s) := by
  rw [loadEntry]
  cases hvis : findVisual (ds.screen a) entry.1 with
  | none => exact h.skipped hvis
  | some info =>
      have hmap : (findVisual (ds.screen a) entry.1).map VisInfo.vis = some info.vis := by rw [hvis, Option.map_some]
      have hfound := findVisdata_found o n (a, info.vis) s
      have hkept := h.found o n (a, info.vis)
      have hanswered := (findVisdata_screens o n (a, info.vis) s).2
      cases hrec : (findVisdata o n (a, info.vis) s).2.visdata (a, info.vis) with
      | none =>
          rw [hrec, Option.isSome_none] at hfound
          simp only [hfound, Bool.false_eq_true, if_false]
          exact hkept.missed hmap hrec
      | some r =>
          rw [hrec, Option.isSome_some] at hfound
          simp only [hfound, if_true]
          exact hkept.stored (hanswered ▸ hans) hmap hrec

theorem loadEntries_kept (o : Outcomes) (entries : List (VisualID × ValueOf k)) (n : Nat)
    (h : Kept ds (readSoFar read a k done) s) (hans : s.answered a k = true) :
    Kept ds (readSoFar read a k (done ++ entries)) (loadEntries o k (ds.screen a) a n entries s) := by
  induction entries generalizing done n s with
  | nil =>
      rw [List.append_nil, loadEntries]
      exact h
  | cons entry entries ih =>
      rw [loadEntries, List.append_cons]
      refine ih (n + 1) (loadEntry_kept h hans n) ?_
      rw [loadEntry_answered]
      exact hans

structure Has (ds : Displays) (k : DataType) (a : Addr) (done : List (VisualID × ValueOf k)) (vis : Visual)
    (s : State) : Prop where
  record : (s.visdata (a, vis)).isSome = true
  valid : (visdata (ds.screen a) done vis).isSome = true → isValid k (a, vis) s = true

theorem loadEntry_has (h : Has ds k a done vis s) (n : Nat) :
    Has ds k a (done ++ [entry]) vis (loadEntry o k (ds.screen a) a n entry s) := by
  rw [loadEntry]
  cases hvis : findVisual (ds.screen a) entry.1 with
  | none =>
      refine ⟨h.record, fun hread => h.valid ?_⟩
      rw [visdata_append, hvis, if_neg nofun] at hread
      exact hread
  | some info =>
      dsimp only
      have hrec := findVisdata_isSome o n (a, info.vis) h.record
      by_cases hsame : info.vis = vis
      · subst hsame
        obtain ⟨r, hr⟩ := Option.isSome_iff_exists.mp hrec
        rw [findVisdata_found, hr, if_pos Option.isSome_some]
        refine ⟨?_, fun _ => store_valid_self hr ..⟩
        rw [store_isSome]
        exact hrec
      · have hread : visdata (ds.screen a) (done ++ [entry]) vis = visdata (ds.screen a) done vis := by
          rw [visdata_append, hvis, Option.map_some, if_neg fun hmap => hsame (Option.some.inj hmap)]
        have hne : ¬(k = k ∧ (a, vis) = (a, info.vis)) := fun hkey => hsame (congrArg Prod.snd hkey.2).symm
        by_cases hfound : (findVisdata o n (a, info.vis) s).1 = true
        · rw [if_pos hfound]
          refine ⟨?_, fun htold => ?_⟩
          · rw [store_isSome]
            exact hrec
          · rw [store_valid_of_ne hne, findVisdata_valid]
            exact h.valid (hread ▸ htold)
        · rw [if_neg hfound]
          refine ⟨hrec, fun htold => ?_⟩
          exact (findVisdata_valid n).trans (h.valid (hread ▸ htold))

theorem loadEntries_has (entries : List (VisualID × ValueOf k)) {n : Nat} (h : Has ds k a done vis s) :
    Has ds k a (done ++ entries) vis (loadEntries o k (ds.screen a) a n entries s) := by
  induction entries generalizing done n s with
  | nil =>
      rw [List.append_nil, loadEntries]
      exact h
  | cons entry entries ih =>
      rw [loadEntries, List.append_cons]
      exact ih (loadEntry_has h n)

end Loading

section Queries

variable {vis vis' : Visual} {vises : List Visual}

theorem Right.kept (h : Right ds s) : Kept ds (fun a k => replyOf (ds.server a) k) s := by
  refine ⟨fun k key hvalid => ?_, h.loaded⟩
  obtain ⟨hans, hdata⟩ := h.known k key hvalid
  refine ⟨hans, hdata.trans (congrArg some ?_)⟩
  rw [expected]
  cases visdata (ds.screen key.1) (replyOf (ds.server key.1) k) key.2 <;> rfl

theorem Kept.right (h : Kept ds (fun a k => replyOf (ds.server a) k) s) : Right ds s := by
  refine ⟨fun k key hvalid => ?_, h.loaded⟩
  obtain ⟨hans, hdata⟩ := h.known k key hvalid
  refine ⟨hans, hdata.trans (congrArg some ?_)⟩
  rw [expected]
  cases visdata (ds.screen key.1) (replyOf (ds.server key.1) k) key.2 <;> rfl

theorem Right.found (h : Right ds s) (o : Outcomes) (n : Nat) (key : Addr × Visual) :
    Right ds (findVisdata o n key s).2 := (h.kept.found o n key).right

theorem Right.asked (h : Right ds s) (k : DataType) (a : Addr) :
    Kept ds (readSoFar (fun a k => replyOf (ds.server a) k) a k []) (setAnswered k a (setQueried k true a s)) := by
  have hans {k' : DataType} {a' : Addr} (hans : s.answered a' k' = true) :
      (setAnswered k a (setQueried k true a s)).answered a' k' = true := by
    dsimp only [setAnswered, setQueried]
    by_cases ha : a' = a
    · subst ha
      rw [Function.update_self]
      by_cases hk : k' = k
      · rw [hk, Function.update_self]
      · rw [Function.update_of_ne hk]
        exact hans
    · rw [Function.update_of_ne ha]
      exact hans
  refine ⟨fun k' key' hvalid => ?_, fun k' a' hqueried => ?_⟩
  · by_cases hka : k' = k ∧ key'.1 = a
    · obtain ⟨rfl, rfl⟩ := hka
      obtain ⟨hans', hdata⟩ := h.known k' key' hvalid
      rw [readSoFar_self]
      exact ⟨hans hans', hdata⟩
    · obtain ⟨hans', hdata⟩ := h.kept.known k' key' hvalid
      rw [readSoFar_of_ne hka]
      exact ⟨hans hans', hdata⟩
  · by_cases hka : k' = k ∧ a' = a
    · obtain ⟨rfl, rfl⟩ := hka
      rw [readSoFar_self]
      refine ⟨?_, fun vis hvis => ?_⟩
      · dsimp only [setAnswered]
        rw [Function.update_self, Function.update_self]
      · cases hvis
    · have hold : isQueried k' a' s = true := (setQueried_of_ne hka true).symm.trans hqueried
      obtain ⟨hans', hload⟩ := h.loaded k' a' hold
      rw [readSoFar_of_ne hka]
      exact ⟨hans hans', hload⟩

theorem findScreendata_right (h : Right ds s) (hscreen : s.screendata a = none →
    o.partners = true ∧ (Visuals.findScreendata (ds.screen a) (ds.server a)).isSome = true) :
    ∃ s', findScreendata ds o a s = some s' ∧ Right ds s' ∧ s'.visdata = s.visdata ∧
      ∀ k, isQueried k a s' = isQueried k a s := by
  rw [findScreendata]
  cases hdata : s.screendata a with
  | some visdatatypes => exact ⟨s, rfl, h, rfl, fun _ => rfl⟩
  | none =>
      dsimp only
      rw [if_pos (hscreen hdata)]
      have hsame (k' : DataType) (a' : Addr) : isQueried k' a'
          { s with screendata := Function.update s.screendata a (some fun _ => false) } = isQueried k' a' s := by
        by_cases ha : a' = a
        · subst ha
          simp only [isQueried, Function.update_self, hdata]
        · simp only [isQueried, Function.update_of_ne ha]
      refine ⟨_, rfl, ⟨h.known, fun k' a' hqueried => ?_⟩, rfl, fun k => hsame k a⟩
      exact h.loaded k' a' (hsame k' a' ▸ hqueried)

theorem query_right (h : Right ds s) (n : Nat) (hscreen : s.screendata a = none →
      o.partners = true ∧ (Visuals.findScreendata (ds.screen a) (ds.server a)).isSome = true)
    (hreply : isQueried k a s = false → o.reply = true) (hrec : ∀ vis ∈ vises, (s.visdata (a, vis)).isSome = true) :
    ∃ s', query ds o k a n s = some s' ∧ Right ds s' ∧
      ∀ vis ∈ vises, Has ds k a (replyOf (ds.server a) k) vis s' := by
  obtain ⟨s₁, hfind, hs₁, hvisdata, hsame⟩ := findScreendata_right h hscreen
  by_cases hqueried : isQueried k a s₁ = true
  · refine ⟨s₁, ?_, hs₁, fun vis hvis => ⟨?_, (hs₁.loaded k a hqueried).2 vis⟩⟩
    · simp only [query, hfind, Option.bind_eq_bind, Option.bind_some, if_pos hqueried]
    · rw [hvisdata]
      exact hrec vis hvis
  · have hans : (setAnswered k a (setQueried k true a s₁)).answered a k = true := by
      dsimp only [setAnswered]
      rw [Function.update_self, Function.update_self]
    refine ⟨loadEntries o k (ds.screen a) a n (replyOf (ds.server a) k) (setAnswered k a (setQueried k true a s₁)),
      ?_, ?_, fun vis hvis => ?_⟩
    · have hcome : o.reply = true := hreply ((hsame k).symm.trans (Bool.eq_false_iff.mpr hqueried))
      simp only [query, hfind, Option.bind_eq_bind, Option.bind_some, if_neg hqueried, if_pos hcome]
    · have hkept := loadEntries_kept o (replyOf (ds.server a) k) n (hs₁.asked k a) hans
      rw [List.nil_append, readSoFar, Function.update_eq_self, Function.update_eq_self] at hkept
      exact hkept.right
    · have hstart : Has ds k a [] vis (setAnswered k a (setQueried k true a s₁)) := by
        refine ⟨?_, fun hnil => ?_⟩
        · dsimp only [setAnswered, setQueried]
          rw [hvisdata]
          exact hrec vis hvis
        · cases hnil
      exact loadEntries_has (replyOf (ds.server a) k) hstart

theorem unknown_expected (h : Has ds k a (replyOf (ds.server a) k) vis s) (hvalid : ¬isValid k (a, vis) s = true) :
    expected ds k (a, vis) = unknown k := by
  have hnone : visdata (ds.screen a) (replyOf (ds.server a) k) vis = none :=
    Option.not_isSome_iff_eq_none.mp fun htold => hvalid (h.valid htold)
  rw [expected, hnone, Option.getD_none]

theorem fill_right (h : Right ds s) (hhas : Has ds k a (replyOf (ds.server a) k) vis s) :
    Right ds (fill k a s vis) := by
  rw [fill]
  by_cases hvalid : isValid k (a, vis) s = true
  · rw [if_pos hvalid]
    exact h
  · rw [if_neg hvalid]
    obtain ⟨r, hr⟩ := Option.isSome_iff_exists.mp hhas.record
    refine ⟨fun k' key' hnow => ?_, fun k' a' hqueried => ?_⟩
    · by_cases hkey : k' = k ∧ key' = (a, vis)
      · obtain ⟨rfl, rfl⟩ := hkey
        rw [store_valid_self hr] at hnow
        refine ⟨(h.loaded k' a hnow).1, ?_⟩
        rw [store_data_self hr, unknown_expected hhas hvalid]
      · rw [store_valid_of_ne hkey] at hnow
        rw [store_data_of_ne hkey]
        exact h.known k' key' hnow
    · obtain ⟨hans, hload⟩ := h.loaded k' a' hqueried
      refine ⟨hans, fun vis' htold => ?_⟩
      have hold := hload vis' htold
      rw [store_valid_of_ne]
      · exact hold
      · rintro ⟨rfl, hkey⟩
        rw [hkey] at hold
        exact hvalid hold

theorem fill_has (h : Has ds k a (replyOf (ds.server a) k) vis' s) :
    Has ds k a (replyOf (ds.server a) k) vis' (fill k a s vis) := by
  rw [fill]
  by_cases hvalid : isValid k (a, vis) s = true
  · rw [if_pos hvalid]
    exact h
  · rw [if_neg hvalid]
    refine ⟨?_, fun htold => ?_⟩
    · rw [store_isSome]
      exact h.record
    · have hold := h.valid htold
      rw [store_valid_of_ne]
      · exact hold
      · rintro ⟨-, hkey⟩
        rw [hkey] at hold
        exact hvalid hold

theorem fill_data_self (h : Right ds s) (hhas : Has ds k a (replyOf (ds.server a) k) vis s) :
    dataOf k (a, vis) (fill k a s vis) = some (expected ds k (a, vis)) := by
  rw [fill]
  by_cases hvalid : isValid k (a, vis) s = true
  · rw [if_pos hvalid]
    exact (h.known k _ hvalid).2
  · obtain ⟨r, hr⟩ := Option.isSome_iff_exists.mp hhas.record
    rw [if_neg hvalid, store_data_self hr, unknown_expected hhas hvalid]

theorem fill_data (h : Right ds s) (hhas : Has ds k a (replyOf (ds.server a) k) vis' s)
    (hdata : dataOf k (a, vis') s = some (expected ds k (a, vis'))) :
    dataOf k (a, vis') (fill k a s vis) = some (expected ds k (a, vis')) := by
  by_cases hvis : vis' = vis
  · subst hvis
    exact fill_data_self h hhas
  · rw [fill]
    split
    · exact hdata
    · rw [store_data_of_ne fun hkey => hvis (congrArg Prod.snd hkey.2)]
      exact hdata

theorem fills_data (h : Right ds s) (hhas : ∀ vis ∈ vises, Has ds k a (replyOf (ds.server a) k) vis s)
    (hvis : Has ds k a (replyOf (ds.server a) k) vis' s)
    (hdata : dataOf k (a, vis') s = some (expected ds k (a, vis'))) :
    dataOf k (a, vis') (vises.foldl (fill k a) s) = some (expected ds k (a, vis')) := by
  induction vises generalizing s with
  | nil => exact hdata
  | cons vis vises ih =>
      have hnext := fill_right h (hhas vis List.mem_cons_self)
      refine ih hnext (fun v hv => ?_) (fill_has hvis) (fill_data h hvis hdata)
      exact fill_has (hhas v (List.mem_cons_of_mem _ hv))

theorem fills_right (h : Right ds s) (hhas : ∀ vis ∈ vises, Has ds k a (replyOf (ds.server a) k) vis s) :
    Right ds (vises.foldl (fill k a) s) ∧
      ∀ vis ∈ vises, dataOf k (a, vis) (vises.foldl (fill k a) s) = some (expected ds k (a, vis)) := by
  induction vises generalizing s with
  | nil => exact ⟨h, nofun⟩
  | cons vis vises ih =>
      have hnext := fill_right h (hhas vis List.mem_cons_self)
      have hrest : ∀ v ∈ vises, Has ds k a (replyOf (ds.server a) k) v (fill k a s vis) :=
        fun v hv => fill_has (hhas v (List.mem_cons_of_mem _ hv))
      obtain ⟨hright, hdata⟩ := ih hnext hrest
      refine ⟨hright, fun v hv => ?_⟩
      rcases List.mem_cons.mp hv with rfl | hv
      · have hself := hhas v List.mem_cons_self
        rw [List.foldl_cons]
        exact fills_data hnext hrest (fill_has hself) (fill_data_self h hself)
      · exact hdata v hv

theorem findAll_right (h : Right ds s) (o : Outcomes) (a : Addr) (vises : List Visual) (n : Nat) :
    Right ds (findAll o a n vises s).2 ∧
    (findAll o a n vises s).2.screendata = s.screendata ∧
    (∀ k key, isValid k key (findAll o a n vises s).2 = isValid k key s) ∧
    (∀ key, (s.visdata key).isSome = true → ((findAll o a n vises s).2.visdata key).isSome = true) ∧
    ((findAll o a n vises s).1 = true →
      ∀ vis ∈ vises, ((findAll o a n vises s).2.visdata (a, vis)).isSome = true) := by
  induction vises generalizing n s with
  | nil => exact ⟨h, rfl, fun _ _ => rfl, fun _ h => h, fun _ => nofun⟩
  | cons vis vises ih =>
      obtain ⟨hright, hscreen, hvalid, hkeep, hall⟩ := ih (h.found o n (a, vis)) (n + 1)
      rw [findAll]
      have hscreens := (findVisdata_screens o n (a, vis) s).1
      refine ⟨hright, hscreen.trans hscreens, fun k key => ?_, fun key hkey => ?_, fun hfound v hv => ?_⟩
      · exact (hvalid k key).trans (findVisdata_valid n)
      · exact hkeep key (findVisdata_isSome o n (a, vis) hkey)
      · obtain ⟨hfirst, hrest⟩ := Bool.and_eq_true_iff.mp hfound
        rcases List.mem_cons.mp hv with rfl | hv
        · exact hkeep _ ((findVisdata_found o n (a, v) s).symm.trans hfirst)
        · exact hall hrest v hv

theorem refresh_right (h : Right ds s) (hfits : Replied ds o k a vises s) :
    ∃ s', refresh ds o k a vises s = some ((findAll o a 0 vises s).1, s') ∧ Right ds s' ∧
      ((findAll o a 0 vises s).1 = true → ∀ vis ∈ vises, dataOf k (a, vis) s' = some (expected ds k (a, vis))) := by
  obtain ⟨hright, hscreens, hvalid, -, hall⟩ := findAll_right h o a vises 0
  cases hfound : (findAll o a 0 vises s).1 with
  | false =>
      refine ⟨_, ?_, hright, nofun⟩
      simp only [refresh, hfound, if_true]
  | true =>
      by_cases hvalids : (vises.all fun vis => isValid k (a, vis) (findAll o a 0 vises s).2) = true
      · refine ⟨(findAll o a 0 vises s).2, ?_, hright, fun _ vis hvis => ?_⟩
        · simp only [refresh, hfound, Bool.true_eq_false, if_false, if_pos hvalids]
        · exact (hright.known k _ (List.all_eq_true.mp hvalids vis hvis)).2
      · obtain ⟨vis, hvis, hinvalid⟩ : ∃ vis ∈ vises, isValid k (a, vis) s = false := by
          rw [List.all_eq_true] at hvalids
          obtain ⟨vis, hrest⟩ := Classical.not_forall.mp hvalids
          obtain ⟨hvis, hinvalid⟩ := Classical.not_imp.mp hrest
          rw [hvalid] at hinvalid
          exact ⟨vis, hvis, Bool.eq_false_iff.mpr hinvalid⟩
        obtain ⟨hscreen, hreply⟩ := hfits hfound ⟨vis, hvis, hinvalid⟩
        have hmark : isQueried k a (findAll o a 0 vises s).2 = isQueried k a s := by
          rw [isQueried, hscreens, isQueried]
        obtain ⟨s₁, hquery, hs₁, hhas⟩ := query_right (k := k) (o := o) hright vises.length (hscreens ▸ hscreen)
          (hmark ▸ hreply) (hall hfound)
        obtain ⟨hs₂, hdata⟩ := fills_right hs₁ hhas
        refine ⟨vises.foldl (fill k a) s₁, ?_, hs₂, fun _ => hdata⟩
        simp only [refresh, hfound, Bool.true_eq_false, if_false, if_neg hvalids, hquery, Option.map_some]

end Queries

section Answers

variable {op : Op}

theorem expected_numBuffers (candidate : Visual) : expected ds .XOvlMBXBuffers (a, candidate) =
    Visuals.getNumMBXBuffers (ds.server a) (ds.screen a) candidate := by
  dsimp only [expected, replyOf]
  rw [visdata_map (f := fun n => if n = 0 then maxBuffers else n), Visuals.getNumMBXBuffers]
  cases visdata (ds.screen a) (ds.server a).monoInfo candidate with
  | none => rfl
  | some n =>
      cases n with
      | zero => rfl
      | succ n =>
          have hvalue : (if n + 1 = 0 then maxBuffers else n + 1) = n + 1 := if_neg (Nat.succ_ne_zero n)
          exact hvalue

theorem expected_planes (vis : Visual) :
    expected ds .XOvlSharedPixels (a, vis) = planes (ds.server a) (ds.screen a) vis := by
  dsimp only [expected, replyOf]
  rw [visdata_map (f := fun e : BitVec 32 × BitVec 32 => (e.1.zeroExtend 64, e.2.zeroExtend 64)), planes]
  cases visdata (ds.screen a) (ds.server a).pgInfos vis <;> rfl

theorem expected_clut (vis : Visual) :
    expected ds .XOvlSharedColors (a, vis) = clut (ds.server a) (ds.screen a) vis := by
  dsimp only [expected, replyOf]
  rw [visdata_map (f := fun e : Nat × Int => ((1#32 <<< e.1).signExtend 64, e.2)), clut]
  cases visdata (ds.screen a) (ds.server a).clutInfos vis <;> rfl

theorem step_right (h : Right ds s) (hfits : Fits ds op s) :
    ∃ s', step ds op s = some (rightAnswer ds op s, s') ∧ Right ds s' := by
  cases op with
  | numMBXBuffers o a candidate =>
      obtain ⟨s', hrefresh, hs', hdata⟩ := refresh_right h hfits
      refine ⟨s', ?_, hs'⟩
      cases hfound : (findAll o a 0 [candidate] s).1 with
      | false =>
          simp only [step, getNumMBXBuffers, hrefresh, hfound, rightAnswer, Option.bind_eq_bind,
            Option.bind_some, if_true, Option.map_some, Bool.false_eq_true, if_false]
      | true =>
          have hvalue := hdata hfound candidate List.mem_cons_self
          rw [expected_numBuffers] at hvalue
          simp only [step, getNumMBXBuffers, hrefresh, hfound, hvalue, rightAnswer, Option.bind_eq_bind,
            Option.bind_some, if_true, Option.map_some, Bool.true_eq_false, if_false]
  | sharedPixels o a searchtype candidate partner =>
      obtain ⟨s', hrefresh, hs', hdata⟩ := refresh_right h hfits
      refine ⟨s', ?_, hs'⟩
      cases hfound : (findAll o a 0 [candidate, partner] s).1 with
      | false =>
          simp only [step, checkSharedPixels, hrefresh, hfound, rightAnswer, Option.bind_eq_bind,
            Option.bind_some, if_true, Option.map_some, Bool.false_eq_true, if_false]
      | true =>
          have hcandidate := hdata hfound candidate List.mem_cons_self
          have hpartner := hdata hfound partner (List.mem_cons_of_mem _ List.mem_cons_self)
          rw [expected_planes] at hcandidate hpartner
          simp only [step, checkSharedPixels, hrefresh, hfound, hcandidate, hpartner, rightAnswer,
            Option.bind_eq_bind, Option.bind_some, if_true, Option.map_some, Bool.true_eq_false, if_false]
          rfl
  | sharedColors o a candidate partner =>
      obtain ⟨s', hrefresh, hs', hdata⟩ := refresh_right h hfits
      refine ⟨s', ?_, hs'⟩
      cases hfound : (findAll o a 0 [candidate, partner] s).1 with
      | false =>
          simp only [step, checkSharedColors, hrefresh, hfound, rightAnswer, Option.bind_eq_bind,
            Option.bind_some, if_true, Option.map_some, Bool.false_eq_true, if_false]
      | true =>
          have hcandidate := hdata hfound candidate List.mem_cons_self
          have hpartner := hdata hfound partner (List.mem_cons_of_mem _ List.mem_cons_self)
          rw [expected_clut] at hcandidate hpartner
          simp only [step, checkSharedColors, hrefresh, hfound, hcandidate, hpartner, rightAnswer,
            Option.bind_eq_bind, Option.bind_some, if_true, Option.map_some, Bool.true_eq_false, if_false]
          rfl

/-- While every query fits, the records stay right and the answers are. -/
theorem caches_right (h : Reachable (fun op s => (step ds op s).map Prod.snd) (Fits ds) Init s) :
    Right ds s ∧ ∀ op, Fits ds op s → ∃ s', step ds op s = some (rightAnswer ds op s, s') ∧ Right ds s' := by
  have hright : Right ds s := by
    refine h.invariant (Right ds) (fun s hs => ?_) fun op s s' hs hfits hstep => ?_
    · obtain rfl : s = ⟨fun _ => none, fun _ => none, fun _ _ => false⟩ := hs
      exact ⟨nofun, nofun⟩
    · obtain ⟨s₁, hstep₁, hs₁⟩ := step_right hs hfits
      rw [hstep₁] at hstep
      cases hstep
      exact hs₁
  exact ⟨hright, fun op => step_right hright⟩

end Answers

def overlay : Visual := ⟨1, 3, 0, 0, 0, 8, 256⟩

def underlay : Visual := ⟨2, 4, 255, 65280, 16711680, 8, 256⟩

/-- The planes of the visuals are disjoint. -/
def oneScreen : Displays :=
  ⟨fun _ => ⟨[⟨8, [overlay, underlay]⟩]⟩, fun _ => ⟨[], [(1, 1, 2), (2, 1, 2)], [], [(1, 2)], false⟩⟩

def outcomes (reply : Bool) : Outcomes := ⟨true, reply, fun _ => true, unknown⟩

def unused : State := ⟨fun _ => none, fun _ => none, fun _ _ => false⟩

def asksPixels (reply : Bool) : Op := .sharedPixels (outcomes reply) (0, 0) .bestOverlay overlay underlay

theorem caches_right_unused :
    ∃ s', step oneScreen (asksPixels true) unused = some (rightAnswer oneScreen (asksPixels true) unused, s') ∧
      Right oneScreen s' :=
  (caches_right (s := unused) (.start rfl)).2 (asksPixels true) fun _ _ => ⟨fun _ => ⟨rfl, rfl⟩, fun _ => rfl⟩

theorem failed_reply_kept : rightAnswer oneScreen (asksPixels true) unused = .shared false ∧
    ∃ s, step oneScreen (asksPixels false) unused = some (.shared true, s) ∧
      isValid .XOvlSharedPixels ((0, 0), overlay) s = true ∧ s.answered (0, 0) .XOvlSharedPixels = false ∧
        ∃ s', step oneScreen (asksPixels true) s = some (.shared true, s') :=
  ⟨rfl, ((step oneScreen (asksPixels false) unused).get rfl).2, rfl, rfl, rfl, _, rfl⟩

end OiUserland.TransOvl.Caches
