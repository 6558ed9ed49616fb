import Mathlib.Algebra.Group.Nat.Defs
import OiUserland.Lib.Faults

namespace OiUserland.Xmu.VisualGammas

open Lib.Faults

/-- The blocks that `XSolarisGetVisualGamma` owns at some time: the value of the
property and the two columns of a table. -/
inductive Block
  | property_return
  | ph
  | pf
  deriving DecidableEq

/-- What the function gets from elsewhere: the answer of `malloc` for a number of
bytes, and the floating-point scaling `element / denominator * maxcolor`. -/
structure Env where
  malloc : Nat → Bool
  scale : Nat → Nat → Nat → Nat

structure Visual where
  visualid : Nat
  bits_per_rgb : Nat

def getElement : List Nat → Run (Nat × List Nat)
  | [] => .error .badRead
  | e :: items => .ok (e, items)

def getElements : Nat → List Nat → Run (List Nat × List Nat)
  | 0, items => .ok ([], items)
  | n + 1, items => do
      let (e, items) ← getElement items
      let (es, items) ← getElements n items
      return (e :: es, items)

structure Table where
  nelem : Nat
  ph : List Nat
  pf : List Nat

structure Query where
  table : Option Table
  items : List Nat
  allocated : List Block
  freed : List Block

def denominator (format : Nat) : Nat := 2 ^ format - 1

def hue (format e : Nat) : Nat :=
  if format = 8 then e * 0x101 else e % 2 ^ 16

def fillType0 (env : Env) (maxcolor format : Nat) : Nat → List Nat → Run (List Nat × List Nat × List Nat)
  | 0, items => .ok ([], [], items)
  | nElements + 1, items => do
      let (h, items) ← getElement items
      let (f, items) ← getElement items
      let (ph, pf, items) ← fillType0 env maxcolor format nElements items
      return (hue format h :: ph, env.scale f (denominator format) maxcolor :: pf, items)

def fillType1 (env : Env) (maxcolor format : Nat) (count : Nat) :
    Nat → List Nat → Run (List Nat × List Nat × List Nat)
  | 0, items => .ok ([], [], items)
  | nElements + 1, items => do
      let (f, items) ← getElement items
      let (ph, pf, items) ← fillType1 env maxcolor format (count + 1) nElements items
      return (count % 2 ^ 16 :: ph, env.scale f (denominator format) maxcolor :: pf, items)

def entries (max_index : Nat) : Nat := (max_index + 1) % 2 ^ 32

def allocates (env : Env) (nElements : Nat) : Bool :=
  env.malloc (nElements * 2) && env.malloc (nElements * 4)

def queryTable (env : Env) (format : Nat) (fill : Nat → List Nat → Run (List Nat × List Nat × List Nat))
    (items : List Nat) : Run Query := do
  let (max_index, items) ← getElement items
  let nElements := entries max_index
  if env.malloc (nElements * 2) = false then
    return ⟨none, items, [], []⟩
  else if env.malloc (nElements * 4) = false then
    return ⟨none, items, [.ph], [.ph]⟩
  else if format = 8 ∨ format = 16 ∨ format = 32 then
    let (ph, pf, items) ← fill nElements items
    return ⟨some ⟨nElements, ph, pf⟩, items, [.ph, .pf], []⟩
  else
    return ⟨none, items, [.ph, .pf], [.ph, .pf]⟩

def QueryTableType0 (env : Env) (maxcolor format : Nat) (items : List Nat) : Run Query :=
  queryTable env format (fillType0 env maxcolor format) items

def QueryTableType1 (env : Env) (maxcolor format : Nat) (items : List Nat) : Run Query :=
  queryTable env format (fillType1 env maxcolor format 0) items

/-- The test `(long) count <= 0`. -/
def spent (count : Nat) : Bool := count == 0 || decide (2 ^ 63 ≤ count)

def perEntry (cType : Nat) : Nat := if cType = 0 then 2 else 1

def skipChannel (cType : Nat) (items : List Nat) : Run (Bool × List Nat) := do
  if spent items.length = true then
    return (false, items)
  let (e, items) ← getElement items
  let nElements := perEntry cType * entries e % 2 ^ 32
  if items.length < nElements then
    return (false, items)
  let (_, items) ← getElements nElements items
  return (true, items)

def skipVisual (items : List Nat) : Run (Bool × List Nat) := do
  if spent items.length = true then
    return (false, items)
  let (cType, items) ← getElement items
  if cType ≠ 0 ∧ cType ≠ 1 then
    return (false, items)
  if spent items.length = true then
    return (false, items)
  let (nTables, items) ← getElement items
  if nTables ≠ 1 ∧ nTables ≠ 3 then
    return (false, items)
  let (red, items) ← skipChannel cType items
  if red = false then
    return (false, items)
  if 1 < nTables then
    let (green, items) ← skipChannel cType items
    if green = false then
      return (false, items)
    let (blue, items) ← skipChannel cType items
    if blue = false then
      return (false, items)
    return (true, items)
  return (true, items)

inductive Status
  | Success
  | BadMatch
  deriving DecidableEq

/-- What is stored for the caller: the standard value, 1.0, or the exponent that
`exponentOfPowerFunc` works out from a table. -/
inductive Gamma
  | standard
  | linear (table : Table)
  | exponent (maxh maxf : Nat) (table : Table)

structure Outcome where
  status : Status
  gamma : Option Gamma
  allocated : List Block
  freed : List Block

def ended (status : Status) (gamma : Option Gamma) : Outcome :=
  ⟨status, gamma, [.property_return], [.property_return]⟩

def least (format : Nat) : Option (Nat × Nat) :=
  if format = 8 then some (9, 3)
  else if format = 16 then some (7, 1)
  else if format = 32 then some (6, 0)
  else none

def joinId (format : Nat) (es : List Nat) : Nat :=
  es.foldl (fun id e => (id * 2 ^ format) ||| e) 0

def maxcolor : Nat := 0xffff

def isLinear (t : Table) : Bool :=
  t.nelem == 2 && t.ph[0]? == some 0 && t.pf[0]? == some 0 && t.ph[1]? == some maxcolor &&
    t.pf[1]? == some maxcolor

def useTable (q : Query) (gamma : Table → Gamma) : Outcome :=
  match q.table with
  | none => ⟨.BadMatch, none, .property_return :: q.allocated, q.freed ++ [.property_return]⟩
  | some t => ⟨.Success, some (gamma t), .property_return :: q.allocated, q.freed ++ [.property_return, .ph, .pf]⟩

def readVisual (env : Env) (visual : Visual) (format : Nat) (items : List Nat) : Run Outcome := do
  let (cType, items) ← getElement items
  let (_, items) ← getElement items
  if cType = 0 then
    let q ← QueryTableType0 env maxcolor format items
    return useTable q fun t => if isLinear t = true then .linear t else .exponent maxcolor maxcolor t
  else if cType = 1 then
    let q ← QueryTableType1 env maxcolor format items
    return useTable q fun t => .exponent (2 ^ visual.bits_per_rgb - 1) maxcolor t
  else
    return ended .BadMatch none

/-- The loop over the records of the property. A round takes at least one element, so
the number of elements is enough fuel. -/
def visuals (env : Env) (visual : Visual) (format : Nat) : Nat → List Nat → Run Outcome
  | 0, items => if items.length = 0 then .ok (ended .Success (some .standard)) else .error .endless
  | fuel + 1, items =>
      if items.length = 0 then .ok (ended .Success (some .standard))
      else
        match least format with
        | none => .ok (ended .BadMatch none)
        | some (fewest, count) =>
            if items.length < fewest then .ok (ended .BadMatch none)
            else do
              let (ids, items) ← getElements (count + 1) items
              if visual.visualid ≠ joinId format ids then do
                let (ok, items) ← skipVisual items
                if ok = false then return ended .BadMatch none
                visuals env visual format fuel items
              else readVisual env visual format items

/-- How the property is got. One with elements comes with a block that holds them. -/
inductive Reply
  | noAtom
  | failure
  | received (property_return : Bool) (format : Nat) (items : List Nat)
      (held : items ≠ [] → property_return = true)

def XSolarisGetVisualGamma (env : Env) (visual : Visual) : Reply → Run Outcome
  | .noAtom => .ok ⟨.Success, some .standard, [], []⟩
  | .failure => .ok ⟨.Success, some .standard, [], []⟩
  | .received property_return format items _ =>
      if spent items.length = true then
        if property_return = true then .ok (ended .Success (some .standard))
        else .ok ⟨.Success, some .standard, [], []⟩
      else visuals env visual format items.length items

def Channel (cType : Nat) (es : List Nat) : Prop :=
  ∃ max_index rest, es = max_index :: rest ∧ rest.length = perEntry cType * entries max_index % 2 ^ 32

def Skippable (es : List Nat) : Prop :=
  ∃ (cType nTables : Nat) (channels : List (List Nat)), es = cType :: nTables :: channels.flatten ∧
    (cType = 0 ∨ cType = 1) ∧ (nTables = 1 ∨ nTables = 3) ∧ channels.length = nTables ∧
      ∀ ch ∈ channels, Channel cType ch

inductive Located (visual : Visual) (format : Nat) : List Nat → Nat → Nat → List Nat → Prop
  | here {fewest count cType nTables max_index : Nat} {ids rest : List Nat}
      (hleast : least format = some (fewest, count)) (hids : ids.length = count + 1)
      (hsize : fewest ≤ (ids ++ cType :: nTables :: max_index :: rest).length)
      (hid : visual.visualid = joinId format ids) :
      Located visual format (ids ++ cType :: nTables :: max_index :: rest) cType max_index rest
  | behind {fewest count cType max_index : Nat} {ids es items rest : List Nat}
      (hleast : least format = some (fewest, count)) (hids : ids.length = count + 1)
      (hsize : fewest ≤ (ids ++ (es ++ items)).length) (hid : visual.visualid ≠ joinId format ids)
      (hes : Skippable es) (h : Located visual format items cType max_index rest) :
      Located visual format (ids ++ (es ++ items)) cType max_index rest

/-- A table that is going to be read has entries, and they are all there. A count that is
negative as a `long` passes for an empty property. -/
def TableThere (env : Env) (visual : Visual) : Reply → Prop
  | .received _ format items _ =>
      items.length < 2 ^ 63 → ∀ cType max_index rest, Located visual format items cType max_index rest →
        (cType = 0 ∨ cType = 1) → allocates env (entries max_index) = true →
          0 < entries max_index ∧ perEntry cType * entries max_index ≤ rest.length
  | _ => True

def Gamma.table : Gamma → Option Table
  | .standard => none
  | .linear t => some t
  | .exponent _ _ t => some t

structure Filled (env : Env) (format cType : Nat) (received : List Nat) (t : Table) : Prop where
  complete : perEntry cType * t.nelem ≤ received.length
  ph_length : t.ph.length = t.nelem
  pf_length : t.pf.length = t.nelem
  ph_eq : ∀ i < t.nelem, t.ph[i]? =
    if cType = 0 then received[2 * i]?.map (hue format) else some (i % 2 ^ 16)
  pf_eq : ∀ i < t.nelem, t.pf[i]? =
    received[perEntry cType * i + (perEntry cType - 1)]?.map (env.scale · (denominator format) maxcolor)

def Reply.format : Reply → Nat
  | .received _ format _ _ => format
  | _ => 0

def Reply.items : Reply → List Nat
  | .received _ _ items _ => items
  | _ => []

structure Sound (env : Env) (reply : Reply) (o : Outcome) : Prop where
  allocated : o.allocated.Nodup
  freed : o.freed.Perm o.allocated
  evaluated : ∀ g t, o.gamma = some g → g.table = some t → 0 < t.nelem ∧
    ∃ cType front received, reply.items = front ++ received ∧ Filled env reply.format cType received t

section Elements

variable {env : Env} {format n : Nat} {items : List Nat}

theorem getElements_append (es rest : List Nat) : getElements es.length (es ++ rest) = .ok (es, rest) := by
  induction es with
  | nil => rfl
  | cons e es ih =>
      rw [List.length_cons, List.cons_append, getElements, getElement]
      change (getElements es.length (es ++ rest) >>= fun r => pure (e :: r.1, r.2)) = _
      rw [ih]
      rfl

theorem getElements_enough (h : n ≤ items.length) :
    ∃ es rest, items = es ++ rest ∧ es.length = n ∧ getElements n items = .ok (es, rest) := by
  refine ⟨items.take n, items.drop n, (List.take_append_drop n items).symm, ?_, ?_⟩
  · rw [List.length_take]
    omega
  · have htake : (items.take n).length = n := by
      rw [List.length_take]
      omega
    have happ := getElements_append (items.take n) (items.drop n)
    rw [htake, List.take_append_drop] at happ
    exact happ

theorem fillType0_short (h : items.length < 2 * n) (color : Nat) :
    fillType0 env color format n items = .error .badRead := by
  induction n generalizing items with
  | zero => omega
  | succ n ih =>
      cases items with
      | nil => rfl
      | cons a items =>
          cases items with
          | nil => rfl
          | cons b items =>
              simp only [List.length_cons] at h
              have hleft : items.length < 2 * n := by omega
              have hrest := ih hleft
              simp only [fillType0, getElement, bind, Except.bind, hrest]

theorem fillType1_short (h : items.length < n) (color count : Nat) :
    fillType1 env color format count n items = .error .badRead := by
  induction n generalizing items count with
  | zero => omega
  | succ n ih =>
      cases items with
      | nil => rfl
      | cons a items =>
          simp only [List.length_cons] at h
          have hleft : items.length < n := by omega
          have hrest := ih hleft (count + 1)
          simp only [fillType1, getElement, bind, Except.bind, hrest]

theorem fillType0_enough (env : Env) (format : Nat) (h : 2 * n ≤ items.length) (color : Nat) :
    ∃ ph pf, fillType0 env color format n items = .ok (ph, pf, items.drop (2 * n)) ∧
      ph.length = n ∧ pf.length = n ∧ ∀ i < n, ph[i]? = items[2 * i]?.map (hue format) ∧
        pf[i]? = items[2 * i + 1]?.map (env.scale · (denominator format) color) := by
  induction n generalizing items with
  | zero => exact ⟨[], [], rfl, rfl, rfl, fun i hi => absurd hi (Nat.not_lt_zero i)⟩
  | succ n ih =>
      match items with
      | [] => simp at h
      | [a] =>
          rw [List.length_singleton] at h
          omega
      | a :: b :: items =>
          simp only [List.length_cons] at h
          have hleft : 2 * n ≤ items.length := by omega
          obtain ⟨ph, pf, hfill, hph, hpf, heach⟩ := ih hleft
          refine ⟨hue format a :: ph, env.scale b (denominator format) color :: pf, ?_, ?_, ?_, ?_⟩
          · have hdrop : (a :: b :: items).drop (2 * (n + 1)) = items.drop (2 * n) := by
              rw [Nat.mul_succ]
              rfl
            rw [hdrop]
            simp only [fillType0, getElement, bind, Except.bind, hfill, pure, Except.pure]
          · rw [List.length_cons, hph]
          · rw [List.length_cons, hpf]
          · intro i hi
            cases i with
            | zero => exact ⟨rfl, rfl⟩
            | succ i =>
                have hi2 : 2 * (i + 1) = 2 * i + 1 + 1 := by omega
                rw [hi2]
                simp only [List.getElem?_cons_succ]
                exact heach i (by omega)

theorem fillType1_enough (env : Env) (format : Nat) (h : n ≤ items.length) (color count : Nat) :
    ∃ ph pf, fillType1 env color format count n items = .ok (ph, pf, items.drop n) ∧
      ph.length = n ∧ pf.length = n ∧ ∀ i < n, ph[i]? = some ((count + i) % 2 ^ 16) ∧
        pf[i]? = items[i]?.map (env.scale · (denominator format) color) := by
  induction n generalizing items count with
  | zero => exact ⟨[], [], rfl, rfl, rfl, fun i hi => absurd hi (Nat.not_lt_zero i)⟩
  | succ n ih =>
      match items with
      | [] => simp at h
      | b :: items =>
          simp only [List.length_cons] at h
          have hleft : n ≤ items.length := by omega
          obtain ⟨ph, pf, hfill, hph, hpf, heach⟩ := ih hleft (count + 1)
          refine ⟨count % 2 ^ 16 :: ph, env.scale b (denominator format) color :: pf, ?_, ?_, ?_, ?_⟩
          · rw [List.drop_succ_cons]
            simp only [fillType1, getElement, bind, Except.bind, hfill, pure, Except.pure]
          · rw [List.length_cons, hph]
          · rw [List.length_cons, hpf]
          · intro i hi
            cases i with
            | zero => exact ⟨rfl, rfl⟩
            | succ i =>
                simp only [List.getElem?_cons_succ]
                rw [← Nat.succ_add_eq_add_succ]
                exact heach i (by omega)

end Elements

def fill (env : Env) (format cType : Nat) : Nat → List Nat → Run (List Nat × List Nat × List Nat) :=
  if cType = 0 then fillType0 env maxcolor format else fillType1 env maxcolor format 0

section Tables

variable {env : Env} {visual : Visual} {format cType nTables n max_index : Nat} {items : List Nat}

theorem fill_short (htype : cType = 0 ∨ cType = 1) (h : items.length < perEntry cType * n) :
    fill env format cType n items = .error .badRead := by
  rcases htype with rfl | rfl
  · exact fillType0_short h maxcolor
  · exact fillType1_short (by simpa [perEntry] using h) maxcolor 0

theorem fill_enough (env : Env) (format : Nat) (htype : cType = 0 ∨ cType = 1) (h : perEntry cType * n ≤ items.length) :
    ∃ ph pf left, fill env format cType n items = .ok (ph, pf, left) ∧
      Filled env format cType items ⟨n, ph, pf⟩ := by
  rcases htype with rfl | rfl
  · obtain ⟨ph, pf, hfill, hph, hpf, heach⟩ := fillType0_enough env format h maxcolor
    refine ⟨ph, pf, _, hfill, h, hph, hpf, fun i hi => ?_, fun i hi => ?_⟩
    · exact (heach i hi).1
    · exact (heach i hi).2
  · have hn : n ≤ items.length := by simpa [perEntry] using h
    obtain ⟨ph, pf, hfill, hph, hpf, heach⟩ := fillType1_enough env format hn maxcolor 0
    refine ⟨ph, pf, _, hfill, h, hph, hpf, fun i hi => ?_, fun i hi => ?_⟩
    · rw [(heach i hi).1, Nat.zero_add]
      rfl
    · rw [(heach i hi).2]
      simp [perEntry]

theorem readVisual_typed (env : Env) (visual : Visual) (format nTables : Nat) (items : List Nat)
    (htype : cType = 0 ∨ cType = 1) :
    ∃ gamma : Table → Gamma, (∀ t, (gamma t).table = some t) ∧
      readVisual env visual format (cType :: nTables :: items) =
        (queryTable env format (fill env format cType) items >>= fun q => pure (useTable q gamma)) := by
  rcases htype with rfl | rfl
  · refine ⟨fun t => if isLinear t = true then .linear t else .exponent maxcolor maxcolor t, ?_, rfl⟩
    intro t
    dsimp only
    split
    · rfl
    · rfl
  · exact ⟨fun t => .exponent (2 ^ visual.bits_per_rgb - 1) maxcolor t, fun t => rfl, rfl⟩

theorem queryTable_refused (format : Nat) (items : List Nat) (f : Nat → List Nat → Run (List Nat × List Nat × List Nat))
    (h : allocates env (entries max_index) = false) :
    ∃ bs, (bs = [] ∨ bs = [Block.ph]) ∧ queryTable env format f (max_index :: items) = .ok ⟨none, items, bs, bs⟩ := by
  rw [allocates, Bool.and_eq_false_iff] at h
  by_cases hph : env.malloc (entries max_index * 2) = false
  · refine ⟨[], .inl rfl, ?_⟩
    simp only [queryTable, getElement, bind, Except.bind, hph, ↓reduceIte]
    rfl
  · have hpf : env.malloc (entries max_index * 4) = false := h.resolve_left hph
    refine ⟨[.ph], .inr rfl, ?_⟩
    simp only [queryTable, getElement, bind, Except.bind, hph, hpf, ↓reduceIte]
    rfl

theorem queryTable_allocated {f : Nat → List Nat → Run (List Nat × List Nat × List Nat)}
    (h : allocates env (entries max_index) = true) (hformat : format = 8 ∨ format = 16 ∨ format = 32) :
    queryTable env format f (max_index :: items) =
      (f (entries max_index) items >>= fun r =>
        pure ⟨some ⟨entries max_index, r.1, r.2.1⟩, r.2.2, [.ph, .pf], []⟩) := by
  rw [allocates, Bool.and_eq_true] at h
  simp only [queryTable, getElement, bind, Except.bind, h.1, h.2, hformat, ↓reduceIte, Bool.true_eq_false]

end Tables

section Skipping

variable {cType : Nat} {items rest es : List Nat}

theorem spent_eq_false (h : items ≠ []) (hlen : items.length < 2 ^ 63) : spent items.length = false := by
  rw [spent, Bool.or_eq_false_iff, beq_eq_false_iff_ne, decide_eq_false_iff_not]
  exact ⟨fun h0 => h (List.length_eq_zero_iff.mp h0), by omega⟩

theorem ne_nil_of_spent (h : spent items.length = false) : items ≠ [] := by
  rintro rfl
  exact absurd h (by decide)

theorem skipChannel_passes (h : Channel cType es) (rest : List Nat) (hlen : (es ++ rest).length < 2 ^ 63) :
    skipChannel cType (es ++ rest) = .ok (true, rest) := by
  obtain ⟨max_index, cells, rfl, hcells⟩ := h
  have hspent := spent_eq_false (List.cons_ne_nil max_index (cells ++ rest)) hlen
  have hroom : ¬ (cells ++ rest).length < perEntry cType * entries max_index % 2 ^ 32 := by
    rw [List.length_append, hcells]
    omega
  have hget := getElements_append cells rest
  rw [hcells] at hget
  rw [List.cons_append]
  simp only [skipChannel, hspent, getElement, bind, Except.bind, hroom, hget, ↓reduceIte, Bool.false_eq_true]
  rfl

theorem skipChannel_total (cType : Nat) (items : List Nat) :
    ∃ ok left, skipChannel cType items = .ok (ok, left) ∧
      (ok = true → ∃ es, Channel cType es ∧ items = es ++ left) := by
  by_cases hspent : spent items.length = true
  · refine ⟨false, items, ?_, nofun⟩
    simp only [skipChannel, hspent, ↓reduceIte]
    rfl
  · rw [Bool.not_eq_true] at hspent
    obtain ⟨max_index, items', rfl⟩ := List.exists_cons_of_ne_nil (ne_nil_of_spent hspent)
    by_cases hroom : items'.length < perEntry cType * entries max_index % 2 ^ 32
    · refine ⟨false, items', ?_, nofun⟩
      simp only [skipChannel, hspent, getElement, bind, Except.bind, hroom, ↓reduceIte, Bool.false_eq_true]
      rfl
    · obtain ⟨cells, left, rfl, hcells, hget⟩ := getElements_enough (Nat.le_of_not_lt hroom)
      refine ⟨true, left, ?_, fun _ => ⟨max_index :: cells, ⟨max_index, cells, rfl, hcells⟩, rfl⟩⟩
      simp only [skipChannel, hspent, getElement, bind, Except.bind, hroom, hget, ↓reduceIte, Bool.false_eq_true]
      rfl

theorem skipVisual_passes (h : Skippable es) (rest : List Nat) (hlen : (es ++ rest).length < 2 ^ 63) :
    skipVisual (es ++ rest) = .ok (true, rest) := by
  obtain ⟨cType, nTables, channels, rfl, htype, hn, hchannels, heach⟩ := h
  simp only [List.cons_append, List.length_cons] at hlen
  have hspent := spent_eq_false (List.cons_ne_nil cType (nTables :: (channels.flatten ++ rest)))
    (by simpa using hlen)
  have hspent' := spent_eq_false (List.cons_ne_nil nTables (channels.flatten ++ rest))
    (by simp only [List.length_cons]; omega)
  have htype' : ¬ (cType ≠ 0 ∧ cType ≠ 1) := by omega
  rw [List.cons_append, List.cons_append]
  rcases hn with rfl | rfl
  · obtain ⟨red, rfl⟩ := List.length_eq_one_iff.mp hchannels
    rw [List.flatten_singleton] at hlen hspent hspent' ⊢
    have hred := skipChannel_passes (heach red (by simp)) rest (by omega)
    simp only [skipVisual, hspent, hspent', getElement, bind, Except.bind, htype', hred, ↓reduceIte,
      Bool.false_eq_true, Nat.lt_irrefl]
    rfl
  · obtain ⟨red, green, blue, rfl⟩ := List.length_eq_three.mp hchannels
    have hflat : [red, green, blue].flatten ++ rest = red ++ (green ++ (blue ++ rest)) := by simp
    rw [hflat] at hlen hspent hspent' ⊢
    simp only [List.length_append] at hlen
    have hred := skipChannel_passes (heach red (by simp)) (green ++ (blue ++ rest))
      (by simp only [List.length_append]; omega)
    have hgreen := skipChannel_passes (heach green (by simp)) (blue ++ rest)
      (by simp only [List.length_append]; omega)
    have hblue := skipChannel_passes (heach blue (by simp)) rest
      (by simp only [List.length_append]; omega)
    simp only [skipVisual, hspent, hspent', getElement, bind, Except.bind, htype', hred, hgreen, hblue, ↓reduceIte,
      Bool.false_eq_true]
    rfl

theorem skipVisual_total (items : List Nat) :
    ∃ ok left, skipVisual items = .ok (ok, left) ∧ (ok = true → ∃ es, Skippable es ∧ items = es ++ left) := by
  by_cases hspent : spent items.length = true
  · refine ⟨false, items, ?_, nofun⟩
    simp only [skipVisual, hspent, ↓reduceIte]
    rfl
  rw [Bool.not_eq_true] at hspent
  obtain ⟨cType, items₁, rfl⟩ := List.exists_cons_of_ne_nil (ne_nil_of_spent hspent)
  by_cases htype : cType ≠ 0 ∧ cType ≠ 1
  · refine ⟨false, items₁, ?_, nofun⟩
    simp only [skipVisual, hspent, getElement, bind, Except.bind, htype, ne_eq, not_false_eq_true, and_self,
      ↓reduceIte, Bool.false_eq_true]
    rfl
  by_cases hspent' : spent items₁.length = true
  · refine ⟨false, items₁, ?_, nofun⟩
    simp only [skipVisual, hspent, hspent', getElement, bind, Except.bind, htype, ↓reduceIte, Bool.false_eq_true]
    rfl
  rw [Bool.not_eq_true] at hspent'
  obtain ⟨nTables, items₂, rfl⟩ := List.exists_cons_of_ne_nil (ne_nil_of_spent hspent')
  by_cases hn : nTables ≠ 1 ∧ nTables ≠ 3
  · refine ⟨false, items₂, ?_, nofun⟩
    simp only [skipVisual, hspent, hspent', getElement, bind, Except.bind, htype, ↓reduceIte, Bool.false_eq_true]
    simp only [ne_eq, hn.1, hn.2, not_false_eq_true, and_self, ↓reduceIte]
    rfl
  have htype' : cType = 0 ∨ cType = 1 := by omega
  have hn' : nTables = 1 ∨ nTables = 3 := by omega
  obtain ⟨red, items₃, hred, hred'⟩ := skipChannel_total cType items₂
  -- the channels are passed one after the other, and the first that is not ends it
  cases red with
  | false =>
      refine ⟨false, items₃, ?_, nofun⟩
      simp only [skipVisual, hspent, hspent', getElement, bind, Except.bind, htype, hn, hred, ↓reduceIte,
        Bool.false_eq_true]
      rfl
  | true =>
      obtain ⟨rs, hrs, rfl⟩ := hred' rfl
      by_cases hone : nTables = 1
      · subst hone
        refine ⟨true, items₃, ?_, fun _ => ⟨cType :: 1 :: rs, ⟨cType, 1, [rs], ?_, htype', .inl rfl, rfl, ?_⟩, rfl⟩⟩
        · simp only [skipVisual, hspent, hspent', getElement, bind, Except.bind, htype, hn, hred, ↓reduceIte,
            Bool.false_eq_true, Nat.lt_irrefl]
          rfl
        · rw [List.flatten_singleton]
        · intro ch hch
          rw [List.mem_singleton.mp hch]
          exact hrs
      · obtain rfl : nTables = 3 := by omega
        obtain ⟨green, items₄, hgreen, hgreen'⟩ := skipChannel_total cType items₃
        cases green with
        | false =>
            refine ⟨false, items₄, ?_, nofun⟩
            simp only [skipVisual, hspent, hspent', getElement, bind, Except.bind, htype, hn, hred, hgreen,
              ↓reduceIte, Bool.false_eq_true]
            rfl
        | true =>
            obtain ⟨gs, hgs, rfl⟩ := hgreen' rfl
            obtain ⟨blue, items₅, hblue, hblue'⟩ := skipChannel_total cType items₄
            cases blue with
            | false =>
                refine ⟨false, items₅, ?_, nofun⟩
                simp only [skipVisual, hspent, hspent', getElement, bind, Except.bind, htype, hn, hred, hgreen,
                  hblue, ↓reduceIte, Bool.false_eq_true]
                rfl
            | true =>
                obtain ⟨bs, hbs, rfl⟩ := hblue' rfl
                refine ⟨true, items₅, ?_, fun _ => ⟨cType :: 3 :: (rs ++ (gs ++ bs)),
                  ⟨cType, 3, [rs, gs, bs], ?_, htype', .inr rfl, rfl, ?_⟩, ?_⟩⟩
                · simp only [skipVisual, hspent, hspent', getElement, bind, Except.bind, htype, hn, hred, hgreen,
                    hblue, ↓reduceIte, Bool.false_eq_true]
                  rfl
                · simp
                · intro ch hch
                  simp only [List.mem_cons, List.not_mem_nil, or_false] at hch
                  rcases hch with rfl | rfl | rfl
                  · exact hrs
                  · exact hgs
                  · exact hbs
                · simp

end Skipping

section Rounds

variable {env : Env} {visual : Visual} {reply : Reply} {format fewest count cType nTables max_index fuel : Nat}
  {items rest front : List Nat}

theorem least_room (h : least format = some (fewest, count)) : count + 4 ≤ fewest := by
  rw [least] at h
  split at h
  · cases h
    decide
  · split at h
    · cases h
      decide
    · split at h
      · cases h
        decide
      · cases h

theorem least_format (h : least format = some (fewest, count)) : format = 8 ∨ format = 16 ∨ format = 32 := by
  rw [least] at h
  split at h
  · exact .inl ‹_›
  · split at h
    · exact .inr (.inl ‹_›)
    · split at h
      · exact .inr (.inr ‹_›)
      · cases h

theorem Located.room (h : Located visual format items cType max_index rest) :
    rest.length + 4 ≤ items.length := by
  induction h with
  | here hleast hids hsize hid =>
      simp only [List.length_append, List.length_cons]
      omega
  | behind hleast hids hsize hid hes h ih =>
      simp only [List.length_append]
      omega

theorem Located.of_format (h : Located visual format items cType max_index rest) :
    format = 8 ∨ format = 16 ∨ format = 32 := by
  cases h with
  | here hleast hids hsize hid => exact least_format hleast
  | behind hleast hids hsize hid hes h => exact least_format hleast

theorem ended_sound (status : Status) {gamma : Option Gamma} (h : gamma = none ∨ gamma = some .standard) :
    Sound env reply (ended status gamma) where
  allocated := by
    change [Block.property_return].Nodup
    decide
  freed := List.Perm.refl _
  evaluated := by
    intro g t hg ht
    rcases h with rfl | rfl
    · cases hg
    · cases hg
      cases ht

theorem readVisual_sound (r : Reply) (hformat : format = 8 ∨ format = 16 ∨ format = 32) (hf : r.format = format)
    (hitems : r.items = front ++ rest) :
    (∃ o, readVisual env visual format (cType :: nTables :: max_index :: rest) = .ok o ∧ Sound env r o) ↔
      ((cType = 0 ∨ cType = 1) → allocates env (entries max_index) = true →
        0 < entries max_index ∧ perEntry cType * entries max_index ≤ rest.length) := by
  by_cases htype : cType = 0 ∨ cType = 1
  swap
  · refine ⟨fun _ h => absurd h htype, fun _ => ⟨ended .BadMatch none, ?_, ended_sound _ (.inl rfl)⟩⟩
    rw [not_or] at htype
    simp only [readVisual, getElement, bind, Except.bind, htype.1, htype.2, ↓reduceIte]
    rfl
  obtain ⟨gamma, hgamma, hread⟩ := readVisual_typed env visual format nTables (max_index :: rest) htype
  rw [hread]
  by_cases halloc : allocates env (entries max_index) = true
  swap
  · rw [Bool.not_eq_true] at halloc
    refine ⟨fun _ _ h => absurd (halloc.symm.trans h) Bool.false_ne_true, fun _ => ?_⟩
    obtain ⟨bs, hbs, hq⟩ := queryTable_refused format rest (fill env format cType) halloc
    rw [hq]
    refine ⟨_, rfl, ?_, ?_, nofun⟩
    · change (Block.property_return :: bs).Nodup
      rcases hbs with rfl | rfl
      · decide
      · decide
    · change (bs ++ [Block.property_return]).Perm (Block.property_return :: bs)
      exact List.perm_append_comm
  rw [queryTable_allocated halloc hformat]
  by_cases hroom : perEntry cType * entries max_index ≤ rest.length
  swap
  · rw [fill_short htype (Nat.lt_of_not_le hroom)]
    refine ⟨?_, fun h => absurd (h htype halloc).2 hroom⟩
    rintro ⟨o, ho, -⟩
    cases ho
  obtain ⟨ph, pf, left, hfill, hfilled⟩ := fill_enough env format htype hroom
  rw [hfill]
  constructor
  · rintro ⟨o, ho, hsound⟩ - -
    cases ho
    exact ⟨(hsound.evaluated _ _ rfl (hgamma _)).1, hroom⟩
  · intro h
    refine ⟨_, rfl, ?_, ?_, ?_⟩
    · change [Block.property_return, .ph, .pf].Nodup
      decide
    · exact List.Perm.refl [Block.property_return, .ph, .pf]
    · intro g t hg ht
      cases hg
      obtain rfl := Option.some.inj ((hgamma _).symm.trans ht)
      refine ⟨(h htype halloc).1, cType, front, rest, hitems, ?_⟩
      rw [hf]
      exact hfilled

theorem visuals_step (env : Env) (visual : Visual) (fuel : Nat) (hleast : least format = some (fewest, count)) (hsize : fewest ≤ items.length) :
    ∃ ids left, items = ids ++ left ∧ ids.length = count + 1 ∧
      visuals env visual format (fuel + 1) items =
        if visual.visualid ≠ joinId format ids then
          (skipVisual left >>= fun r => if r.1 = false then pure (ended .BadMatch none)
            else visuals env visual format fuel r.2)
        else readVisual env visual format left := by
  have hroom := least_room hleast
  obtain ⟨ids, left, hitems, hids, hget⟩ := getElements_enough (Nat.le_trans (by omega : count + 1 ≤ fewest) hsize)
  refine ⟨ids, left, hitems, hids, ?_⟩
  have hne : items.length ≠ 0 := by omega
  have henough : ¬ items.length < fewest := by omega
  rw [visuals]
  simp only [hne, hleast, henough, hget, bind, Except.bind, ↓reduceIte]

theorem visuals_located (env : Env) (h : Located visual format items cType max_index rest) (hfuel : items.length ≤ fuel)
    (hlen : items.length < 2 ^ 63) :
    ∃ nTables front, items = front ++ rest ∧ visuals env visual format fuel items =
      readVisual env visual format (cType :: nTables :: max_index :: rest) := by
  induction h generalizing fuel with
  | @here fewest count cType nTables max_index ids rest hleast hids hsize hid =>
      refine ⟨nTables, ids ++ [cType, nTables, max_index], by simp, ?_⟩
      have hroom := least_room hleast
      obtain ⟨fuel, rfl⟩ := Nat.exists_eq_succ_of_ne_zero (n := fuel) (by omega)
      obtain ⟨ids', left, hitems, hids', hstep⟩ :=
        visuals_step env visual fuel hleast hsize
      obtain ⟨rfl, rfl⟩ := List.append_inj hitems (hids.trans hids'.symm)
      rw [hstep, if_neg (not_not_intro hid)]
  | @behind fewest count cType max_index ids es items rest hleast hids hsize hid hes h ih =>
      have hroom := least_room hleast
      obtain ⟨fuel, rfl⟩ := Nat.exists_eq_succ_of_ne_zero (n := fuel) (by omega)
      obtain ⟨ids', left, hitems, hids', hstep⟩ :=
        visuals_step env visual fuel hleast hsize
      obtain ⟨rfl, rfl⟩ := List.append_inj hitems (hids.trans hids'.symm)
      simp only [List.length_append] at hfuel hlen
      have hskip := skipVisual_passes hes items (by rw [List.length_append]; omega)
      obtain ⟨nTables, front, rfl, hrun⟩ := @ih fuel (by omega) (by omega)
      refine ⟨nTables, ids ++ (es ++ front), by simp, ?_⟩
      rw [hstep, if_pos hid, hskip]
      exact hrun

theorem visuals_otherwise (env : Env) (h : ∀ cType max_index rest, ¬ Located visual format items cType max_index rest)
    (hfuel : items.length ≤ fuel) :
    ∃ status gamma, (gamma = none ∨ gamma = some .standard) ∧
      visuals env visual format fuel items = .ok (ended status gamma) := by
  induction fuel generalizing items with
  | zero =>
      refine ⟨.Success, some .standard, .inr rfl, ?_⟩
      rw [visuals, if_pos (Nat.le_zero.mp hfuel)]
  | succ fuel ih =>
      by_cases hne : items.length = 0
      · refine ⟨.Success, some .standard, .inr rfl, ?_⟩
        rw [visuals, if_pos hne]
      cases hleast : least format with
      | none =>
          refine ⟨.BadMatch, none, .inl rfl, ?_⟩
          rw [visuals, if_neg hne, hleast]
      | some r =>
          obtain ⟨fewest, count⟩ := r
          by_cases hsize : items.length < fewest
          · refine ⟨.BadMatch, none, .inl rfl, ?_⟩
            rw [visuals, if_neg hne, hleast]
            exact if_pos hsize
          have hroom := least_room hleast
          obtain ⟨ids, left, rfl, hids, hstep⟩ := visuals_step env visual fuel hleast
            (Nat.le_of_not_lt hsize)
          rw [List.length_append] at hsize hfuel
          by_cases hid : visual.visualid = joinId format ids
          · -- the smallest record has room for the index, so the visual has been found
            match left with
            | cType :: nTables :: max_index :: rest =>
                refine absurd (.here hleast hids ?_ hid) (h cType max_index rest)
                rw [List.length_append]
                omega
            | [] =>
                simp only [List.length_nil] at hsize
                omega
            | [a] =>
                simp only [List.length_singleton] at hsize
                omega
            | [a, b] =>
                simp only [List.length_cons, List.length_nil] at hsize
                omega
          · rw [hstep, if_pos hid]
            obtain ⟨ok, items, hskip, hok⟩ := skipVisual_total left
            rw [hskip]
            cases ok with
            | false => exact ⟨.BadMatch, none, .inl rfl, rfl⟩
            | true =>
                obtain ⟨es, hes, rfl⟩ := hok rfl
                rw [List.length_append] at hsize hfuel
                have hless : items.length ≤ fuel := by omega
                refine ih (fun cType max_index rest hl => h cType max_index rest ?_) hless
                refine .behind hleast hids ?_ hid hes hl
                rw [List.length_append, List.length_append]
                omega

end Rounds

/-- The gamma is got without a read behind the property, with each block freed once and from a full
table only, when the table that is going to be read is there, and only then. -/
theorem getVisualGamma_sound_iff (env : Env) (visual : Visual) (reply : Reply) :
    (∃ o, XSolarisGetVisualGamma env visual reply = .ok o ∧ Sound env reply o) ↔ TableThere env visual reply := by
  have hnothing : Sound env reply ⟨.Success, some .standard, [], []⟩ := by
    refine ⟨List.nodup_nil, List.Perm.refl _, ?_⟩
    intro g t hg ht
    cases hg
    cases ht
  cases reply with
  | noAtom => exact ⟨fun _ => trivial, fun _ => ⟨_, rfl, hnothing⟩⟩
  | failure => exact ⟨fun _ => trivial, fun _ => ⟨_, rfl, hnothing⟩⟩
  | received property_return format items held =>
      by_cases hspent : spent items.length = true
      · have hend : ∃ o, XSolarisGetVisualGamma env visual (.received property_return format items held) = .ok o ∧
            Sound env (.received property_return format items held) o := by
          rw [XSolarisGetVisualGamma, if_pos hspent]
          cases property_return with
          | true => exact ⟨_, rfl, ended_sound _ (.inr rfl)⟩
          | false => exact ⟨_, rfl, hnothing⟩
        refine ⟨fun _ hlen cType max_index rest hl => ?_, fun _ => hend⟩
        exfalso
        rw [spent, Bool.or_eq_true, beq_iff_eq, decide_eq_true_eq] at hspent
        have hroom := hl.room
        omega
      · rw [Bool.not_eq_true] at hspent
        have hlen : items.length < 2 ^ 63 := by
          rw [spent, Bool.or_eq_false_iff, decide_eq_false_iff_not] at hspent
          omega
        have hrun : XSolarisGetVisualGamma env visual (.received property_return format items held) =
            visuals env visual format items.length items := by
          rw [XSolarisGetVisualGamma, hspent]
          rfl
        rw [hrun]
        constructor
        · intro h _ cType max_index rest hl
          obtain ⟨nTables, front, hitems, hvisual⟩ := visuals_located env hl (Nat.le_refl _) hlen
          rw [hvisual] at h
          exact (readVisual_sound (.received property_return format items held) hl.of_format rfl hitems).mp h
        · intro h
          by_cases hl : ∃ cType max_index rest, Located visual format items cType max_index rest
          · obtain ⟨cType, max_index, rest, hl⟩ := hl
            obtain ⟨nTables, front, hitems, hvisual⟩ := visuals_located env hl (Nat.le_refl _) hlen
            rw [hvisual]
            exact (readVisual_sound (.received property_return format items held) hl.of_format rfl hitems).mpr
              (h hlen cType max_index rest hl)
          · have hnone : ∀ cType max_index rest, ¬ Located visual format items cType max_index rest :=
              fun cType max_index rest hl' => hl ⟨cType, max_index, rest, hl'⟩
            obtain ⟨status, gamma, hgamma, hend⟩ := visuals_otherwise env hnone (Nat.le_refl _)
            exact ⟨_, hend, ended_sound status hgamma⟩

/-- Memory that is never short, and a scaling in whole numbers. -/
def sampleEnv : Env := ⟨fun _ => true, fun e d m => e * m / d⟩

/-- A table of type 0 that announces three entries and holds one. -/
theorem getVisualGamma_overruns :
    ¬ ∃ o, XSolarisGetVisualGamma sampleEnv ⟨34, 8⟩ (.received true 32 [34, 0, 1, 2, 0, 0] (fun _ => rfl)) = .ok o ∧
      Sound sampleEnv (.received true 32 [34, 0, 1, 2, 0, 0] (fun _ => rfl)) o := by
  rintro ⟨o, ho, -⟩
  cases ho

end OiUserland.Xmu.VisualGammas
