import OiUserland.EntityMib.Entities

namespace OiUserland.EntityMib.LPMappingTable

open EntityTable MibState

def storeIndex (p : Int) : List Int → Option (List Int)
  | [] => some [p]
  | z :: zs =>
      if z = p then none
      else if z = -p then some (p :: zs)
      else (storeIndex p zs).map (z :: ·)

def negateIndex (p : Int) : List Int → List Int
  | [] => []
  | z :: zs => if z = p then -p :: zs else z :: negateIndex p zs

def addLPMappingTableEntry (l p : Int) (s : State) : State × Int :=
  if !inRange l || !inRange p then (s, -1)
  else if (getLogicalTableStaleEntry l s).isSome || (getPhysicalTableStaleEntry p s).isSome then (s, -2)
  else if (getLogicalTableEntry l s).isNone || (getPhysicalTableEntry p s).isNone then (s, -1)
  else match findRow l s.lpMapping with
    | some r =>
        match r.values with
        | none => ({ s with lpMapping := setValues l (some [p]) s.lpMapping }, 0)
        | some vs =>
            match storeIndex p vs with
            | none => (s, 1)
            | some vs' => ({ s with lpMapping := setValues l (some vs') s.lpMapping }, 0)
    | none => ({ s with lpMapping := s.lpMapping ++ [⟨l, some [p]⟩] }, 0)

def deleteLPMappingTableEntry (l p : Int) (s : State) : State × Int :=
  if !inRange l || !inRange p then (s, -1)
  else if (getLogicalTableStaleEntry l s).isSome then (s, -2)
  else if (getPhysicalTableStaleEntry p s).isSome then (s, -2)
  else if (getLogicalTableEntry l s).isNone || (getPhysicalTableEntry p s).isNone then (s, -1)
  else match findRow l s.lpMapping with
    | some r =>
        if p ∈ elements r then
          ({ s with lpMapping := setValues l (r.values.map (negateIndex p)) s.lpMapping }, 0)
        else (s, -1)
    | none => (s, -1)

def negateInRow (p : Int) (r : MappingRow Int) : MappingRow Int :=
  { r with values := r.values.map (negateIndex p) }

def deleteLPMappingPhysicalIndex (p : Int) (s : State) : State × Int :=
  if !inRange p then (s, -1)
  else if (getPhysicalTableStaleEntry p s).isSome then (s, -2)
  else if (getPhysicalTableEntry p s).isNone then (s, -1)
  else
    let num := s.lpMapping.countP (fun r => decide (p ∈ elements r))
    ({ s with lpMapping := s.lpMapping.map (negateInRow p) }, if num = 0 then -1 else num)

def deleteLPMappingLogicalIndex (l : Int) (s : State) : State × Int :=
  if !inRange l then (s, -1)
  else if (getLogicalTableStaleEntry l s).isSome then (s, -2)
  else if (getLogicalTableEntry l s).isNone then (s, -1)
  else match findRow l s.lpMapping with
    | some r =>
        ({ s with lpMapping := removeRow l s.lpMapping },
          (elements r).countP (fun z => decide (0 < z)))
    | none => (s, -1)

variable {l p : Int} {s : State}

theorem addLPMappingTableEntry_cases :
    (addLPMappingTableEntry l p s).1 = s ∨
    ((getLogicalTableEntry l s).isSome ∧ (getPhysicalTableEntry p s).isSome ∧
      ((∃ r vs, findRow l s.lpMapping = some r ∧ storeIndex p (elements r) = some vs ∧
        (addLPMappingTableEntry l p s).1 = { s with lpMapping := setValues l (some vs) s.lpMapping }) ∨
      (findRow l s.lpMapping = none ∧
        (addLPMappingTableEntry l p s).1 = { s with lpMapping := s.lpMapping ++ [⟨l, some [p]⟩] }))) := by
  unfold addLPMappingTableEntry
  split
  · exact .inl rfl
  · split
    · exact .inl rfl
    · split
      · exact .inl rfl
      · rename_i hlive
        simp only [Bool.or_eq_true, Option.isNone_iff_eq_none, not_or, ← ne_eq,
          Option.ne_none_iff_isSome] at hlive
        split
        · rename_i r hr
          split
          · rename_i hv
            exact .inr ⟨hlive.1, hlive.2, .inl ⟨r, [p], hr, by simp [elements, hv, storeIndex], rfl⟩⟩
          · rename_i vs hv
            split
            · exact .inl rfl
            · rename_i vs' hvs
              exact .inr ⟨hlive.1, hlive.2, .inl ⟨r, vs', hr, by simpa [elements, hv] using hvs, rfl⟩⟩
        · rename_i hr
          exact .inr ⟨hlive.1, hlive.2, .inr ⟨hr, rfl⟩⟩

theorem deleteLPMappingTableEntry_cases :
    (deleteLPMappingTableEntry l p s).1 = s ∨
    (inRange p ∧ ∃ r, findRow l s.lpMapping = some r ∧ (deleteLPMappingTableEntry l p s).1 =
      { s with lpMapping := setValues l (r.values.map (negateIndex p)) s.lpMapping }) := by
  unfold deleteLPMappingTableEntry
  split
  · exact .inl rfl
  · rename_i hrange
    have hp : inRange p := by
      simp only [Bool.or_eq_true, Bool.not_eq_true', not_or, Bool.not_eq_false] at hrange
      exact hrange.2
    split
    · exact .inl rfl
    · split
      · exact .inl rfl
      · split
        · exact .inl rfl
        · split
          · rename_i r hr
            split
            · exact .inr ⟨hp, r, hr, rfl⟩
            · exact .inl rfl
          · exact .inl rfl

theorem deleteLPMappingPhysicalIndex_live (hr : inRange p) (hs : getPhysicalTableStaleEntry p s = none)
    (hl : (getPhysicalTableEntry p s).isSome) : (deleteLPMappingPhysicalIndex p s).1 =
      { s with lpMapping := s.lpMapping.map (negateInRow p) } := by
  have hn : (getPhysicalTableEntry p s).isNone = false := by simpa using hl
  simp [deleteLPMappingPhysicalIndex, hr, hs, hn]

theorem deleteLPMappingPhysicalIndex_cases :
    (deleteLPMappingPhysicalIndex p s).1 = s ∨ (inRange p ∧
      (deleteLPMappingPhysicalIndex p s).1 = { s with lpMapping := s.lpMapping.map (negateInRow p) }) := by
  unfold deleteLPMappingPhysicalIndex
  split
  · exact .inl rfl
  · rename_i hrange
    split
    · exact .inl rfl
    · split
      · exact .inl rfl
      · exact .inr ⟨by simpa using hrange, rfl⟩

theorem deleteLPMappingLogicalIndex_cases :
    (deleteLPMappingLogicalIndex l s).1 = s ∨
    (deleteLPMappingLogicalIndex l s).1 = { s with lpMapping := removeRow l s.lpMapping } := by
  unfold deleteLPMappingLogicalIndex
  split
  · exact .inl rfl
  · split
    · exact .inl rfl
    · split
      · exact .inl rfl
      · split
        · exact .inr rfl
        · exact .inl rfl

end OiUserland.EntityMib.LPMappingTable

namespace OiUserland.EntityMib.AliasMappingTable

open EntityTable Entities MibState

def deletedAlias : LogicalAlias := ⟨-1, none, 0⟩

def dropAlias (l : Int) : List LogicalAlias → List LogicalAlias
  | [] => []
  | a :: as =>
      if 0 ≤ a.entAliasLogicalIndexorZero ∧ a.entAliasLogicalIndexorZero = l then deletedAlias :: as
      else a :: dropAlias l as

def namesLogical (l : Int) (r : MappingRow LogicalAlias) : Bool :=
  (elements r).any (fun a => decide (0 ≤ a.entAliasLogicalIndexorZero) &&
    decide (a.entAliasLogicalIndexorZero = l))

/-- A null identifier is `none`; the size of one is not negative. -/
def addAliasMappingTableEntry (p l : Int) (aliasMapId : Option (List Nat)) (size : Nat) (s : State) :
    State × Int :=
  match aliasMapId with
  | none => (s, -1)
  | some mapId =>
      if !inRange p || decide (l < 0) || decide (l > maxEntityIndex) then (s, -1)
      else if (getPhysicalTableStaleEntry p s).isSome then (s, -2)
      else if (getLogicalTableStaleEntry l s).isSome then (s, -2)
      else match getPhysicalTableEntry p s with
        | none => (s, -1)
        | some n =>
            if n.entry.entPhysicalClass ≠ classPort then (s, -1)
            else if l ≠ 0 ∧ (getLogicalTableEntry l s).isNone then (s, -1)
            else
              let new : LogicalAlias := ⟨l, some mapId, size⟩
              match findRow p s.aliasMapping with
              | some r =>
                  match r.values with
                  | none => ({ s with aliasMapping := setValues p (some [new]) s.aliasMapping }, 0)
                  | some as =>
                      if l ∈ as.map LogicalAlias.entAliasLogicalIndexorZero then (s, 1)
                      else ({ s with aliasMapping := setValues p (some (as ++ [new])) s.aliasMapping }, 0)
              | none => ({ s with aliasMapping := s.aliasMapping ++ [⟨p, some [new]⟩] }, 0)

def deleteAliasMappingTableEntry (p l : Int) (s : State) : State × Int :=
  if !inRange p || decide (l < 0) || decide (l > maxEntityIndex) then (s, -1)
  else if (getPhysicalTableStaleEntry p s).isSome then (s, -2)
  else if (getLogicalTableStaleEntry l s).isSome then (s, -2)
  else match findRow p s.aliasMapping with
    | some r =>
        if namesLogical l r then
          ({ s with aliasMapping := setValues p (r.values.map (dropAlias l)) s.aliasMapping }, 0)
        else (s, -1)
    | none => (s, -1)

def deleteAliasMappingPhysicalIndex (p : Int) (s : State) : State × Int :=
  if !inRange p then (s, -1)
  else if (getPhysicalTableStaleEntry p s).isSome then (s, -2)
  else match findRow p s.aliasMapping with
    | some r =>
        ({ s with aliasMapping := removeRow p s.aliasMapping },
          (elements r).countP (fun a => a.entAliasMapId.isSome))
    | none => (s, -1)

def dropInRow (l : Int) (r : MappingRow LogicalAlias) : MappingRow LogicalAlias :=
  if 0 < r.index then { r with values := r.values.map (dropAlias l) } else r

def deleteAliasMappingLogicalIndex (l : Int) (s : State) : State × Int :=
  if !inRange l then (s, -1)
  else if (getLogicalTableStaleEntry l s).isSome then (s, -2)
  else
    let num := s.aliasMapping.countP (fun r => decide (0 < r.index) && namesLogical l r)
    ({ s with aliasMapping := s.aliasMapping.map (dropInRow l) }, if num = 0 then -1 else num)

variable {p l : Int} {s : State}

theorem addAliasMappingTableEntry_cases (p l : Int) (mapId : Option (List Nat)) (size : Nat) (s : State) :
    (addAliasMappingTableEntry p l mapId size s).1 = s ∨
    (0 ≤ l ∧ (l = 0 ∨ (getLogicalTableEntry l s).isSome) ∧
      (∃ n, getPhysicalTableEntry p s = some n ∧ n.entry.entPhysicalClass = classPort) ∧
      ∃ id, ((∃ r, findRow p s.aliasMapping = some r ∧
          l ∉ (elements r).map LogicalAlias.entAliasLogicalIndexorZero ∧
          (addAliasMappingTableEntry p l mapId size s).1 =
            { s with aliasMapping := setValues p (some (elements r ++ [⟨l, some id, size⟩])) s.aliasMapping }) ∨
        (findRow p s.aliasMapping = none ∧ (addAliasMappingTableEntry p l mapId size s).1 =
            { s with aliasMapping := s.aliasMapping ++ [⟨p, some [⟨l, some id, size⟩]⟩] }))) := by
  unfold addAliasMappingTableEntry
  split
  · exact .inl rfl
  · rename_i id
    split
    · exact .inl rfl
    · rename_i hrange
      have h0 : 0 ≤ l := by
        by_contra h
        exact hrange (by simp [show l < 0 by omega])
      split
      · exact .inl rfl
      · split
        · exact .inl rfl
        · split
          · exact .inl rfl
          · rename_i n hn
            split
            · exact .inl rfl
            · rename_i hport
              split
              · exact .inl rfl
              · rename_i hlog
                have hl : l = 0 ∨ (getLogicalTableEntry l s).isSome := by
                  simpa [or_iff_not_imp_left, Option.isSome_iff_ne_none] using hlog
                refine .imp_right (fun h => ⟨h0, hl, ⟨n, hn, by simpa using hport⟩, id, h⟩) ?_
                dsimp only
                split
                · rename_i r hr
                  split
                  · rename_i hv
                    exact .inr (.inl ⟨r, hr, by simp [elements, hv], by simp [elements, hv]⟩)
                  · rename_i as hv
                    split
                    · exact .inl rfl
                    · rename_i hmem
                      exact .inr (.inl ⟨r, hr, by simpa [elements, hv] using hmem, by simp [elements, hv]⟩)
                · rename_i hr
                  exact .inr (.inr ⟨hr, rfl⟩)

theorem deleteAliasMappingTableEntry_cases :
    (deleteAliasMappingTableEntry p l s).1 = s ∨
    ∃ r, findRow p s.aliasMapping = some r ∧ (deleteAliasMappingTableEntry p l s).1 =
      { s with aliasMapping := setValues p (r.values.map (dropAlias l)) s.aliasMapping } := by
  unfold deleteAliasMappingTableEntry
  split
  · exact .inl rfl
  · split
    · exact .inl rfl
    · split
      · exact .inl rfl
      · split
        · rename_i r hr
          split
          · exact .inr ⟨r, hr, rfl⟩
          · exact .inl rfl
        · exact .inl rfl

theorem deleteAliasMappingPhysicalIndex_cases :
    (deleteAliasMappingPhysicalIndex p s).1 = s ∨
    (deleteAliasMappingPhysicalIndex p s).1 = { s with aliasMapping := removeRow p s.aliasMapping } := by
  unfold deleteAliasMappingPhysicalIndex
  split
  · exact .inl rfl
  · split
    · exact .inl rfl
    · split
      · exact .inr rfl
      · exact .inl rfl

theorem deleteAliasMappingLogicalIndex_cases :
    (deleteAliasMappingLogicalIndex l s).1 = s ∨
    (deleteAliasMappingLogicalIndex l s).1 = { s with aliasMapping := s.aliasMapping.map (dropInRow l) } := by
  unfold deleteAliasMappingLogicalIndex
  split
  · exact .inl rfl
  · split
    · exact .inl rfl
    · exact .inr rfl

end OiUserland.EntityMib.AliasMappingTable
