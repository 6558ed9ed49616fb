import Mathlib.Data.List.Nodup
import OiUserland.EntityMib.PhysicalContainsTable
import OiUserland.EntityMib.MappingTables

namespace OiUserland.EntityMib.MappingRows

open MibState PhysicalContainsTable LPMappingTable AliasMappingTable

variable {α : Type} {x p l z : Int} {v : Option (List α)} {r q : MappingRow α} {rows : List (MappingRow α)}

def OneRow (rows : List (MappingRow α)) : Prop := (rows.map MappingRow.index).Nodup

theorem findRow_some (h : findRow x rows = some r) : r ∈ rows ∧ r.index = x :=
  ⟨List.mem_of_find?_eq_some h, by simpa using List.find?_some h⟩

theorem findRow_none (h : findRow x rows = none) : ∀ r ∈ rows, r.index ≠ x := by
  simpa [findRow] using h

theorem OneRow.unique (h : OneRow rows) (hr : r ∈ rows) (hq : q ∈ rows) (he : r.index = q.index) : r = q :=
  List.inj_on_of_nodup_map h hr hq he

theorem findRow_mem (h : OneRow rows) (hr : r ∈ rows) : findRow r.index rows = some r := by
  cases hf : findRow r.index rows with
  | none => exact absurd rfl (findRow_none hf r hr)
  | some q =>
      have hq := findRow_some hf
      rw [h.unique hq.1 hr hq.2]

theorem setValues_index (x : Int) (v : Option (List α)) (rows : List (MappingRow α)) :
    (setValues x v rows).map MappingRow.index = rows.map MappingRow.index := by
  induction rows with
  | nil => rfl
  | cons r rs ih =>
      unfold setValues
      split
      · rfl
      · simp [ih]

theorem OneRow.setValues (h : OneRow rows) : OneRow (setValues x v rows) := by
  rwa [OneRow, setValues_index]

theorem mem_setValues (h : q ∈ setValues x v rows) : q ∈ rows ∨ (q.index = x ∧ q.values = v) := by
  induction rows with
  | nil => simp [setValues] at h
  | cons r rs ih =>
      unfold setValues at h
      split at h
      · rename_i hr
        rcases List.mem_cons.mp h with rfl | h
        · exact .inr ⟨hr, rfl⟩
        · exact .inl (by simp [h])
      · rcases List.mem_cons.mp h with rfl | h
        · exact .inl (by simp)
        · exact (ih h).imp_left (List.mem_cons_of_mem r)

theorem setValues_eq_map (h : OneRow rows) (hr : findRow x rows = some r)
    (f : Option (List α) → Option (List α)) :
    setValues x (f r.values) rows =
      rows.map (fun q => if q.index = x then { q with values := f q.values } else q) := by
  induction rows with
  | nil => rfl
  | cons q qs ih =>
      have hn := List.nodup_cons.mp h
      unfold setValues
      split
      · rename_i hq
        obtain rfl : q = r := by simpa [findRow, hq] using hr
        have hqs (y : MappingRow α) (hy : y ∈ qs) : y.index ≠ x := fun he =>
          hn.1 (List.mem_map.mpr ⟨y, hy, he.trans hq.symm⟩)
        rw [List.map_cons, if_pos hq]
        congr 1
        exact (List.map_id'' (fun y => rfl) qs).symm.trans
          (List.map_congr_left fun y hy => (if_neg (hqs y hy)).symm)
      · rename_i hq
        have hf : findRow x qs = some r := by simpa [findRow, hq] using hr
        rw [List.map_cons, if_neg hq, ih hn.2 hf]

theorem removeRow_sublist (x : Int) (rows : List (MappingRow α)) : (removeRow x rows).Sublist rows :=
  List.eraseP_sublist

theorem OneRow.removeRow (h : OneRow rows) : OneRow (removeRow x rows) :=
  h.sublist ((removeRow_sublist x rows).map _)

theorem OneRow.not_mem_removeRow (h : OneRow rows) (hq : q ∈ MibState.removeRow x rows) : q.index ≠ x := by
  induction rows with
  | nil => simp [MibState.removeRow] at hq
  | cons r rs ih =>
      have hn := List.nodup_cons.mp h
      by_cases hr : r.index = x
      · have hq' : q ∈ rs := by simpa [MibState.removeRow, hr] using hq
        intro hx
        exact hn.1 (List.mem_map.mpr ⟨q, hq', hx.trans hr.symm⟩)
      · have hq' : q = r ∨ q ∈ MibState.removeRow x rs := by simpa [MibState.removeRow, hr] using hq
        rcases hq' with rfl | hq'
        · exact hr
        · exact ih hn.2 hq'

theorem OneRow.append (h : OneRow rows) (hf : findRow x rows = none) : OneRow (rows ++ [⟨x, v⟩]) := by
  have hx : x ∉ rows.map MappingRow.index := fun hm => by
    obtain ⟨r, hr, he⟩ := List.mem_map.mp hm
    exact findRow_none hf r hr he
  rw [OneRow, List.map_append]
  exact List.Nodup.append h (by simp) (by simpa using hx)

theorem OneRow.map {f : MappingRow α → MappingRow α} (h : OneRow rows) (hf : ∀ r, (f r).index = r.index) :
    OneRow (rows.map f) := by
  have he : (rows.map f).map MappingRow.index = rows.map MappingRow.index := by simp [hf]
  rwa [OneRow, he]

theorem elements_map {α : Type} {r : MappingRow α} {f : List α → List α} (hf : f [] = []) :
    elements { r with values := r.values.map f } = f (elements r) := by
  cases hv : r.values <;> simp [elements, hv, hf]

theorem dropChild_elements {c : Int} {r q : MappingRow Int} {rows : List (MappingRow Int)}
    (hq : q ∈ dropChild p c r rows) :
    q ∈ rows ∨ (q.index = p ∧ elements q = (elements r).map (fun z => if z = c then -1 else z)) :=
  (mem_setValues hq).imp_right fun hq => ⟨hq.1, by
    rw [elements, hq.2]
    exact elements_map rfl⟩

theorem containsPair_dropChild {c a b : Int} {r : MappingRow Int} {s : State} (hr : findRow p s.contains = some r)
    (h : ContainsPair { s with contains := dropChild p c r s.contains } a b) : ContainsPair s a b := by
  obtain ⟨hmem, hrp⟩ := findRow_some hr
  obtain ⟨ha, hb, q, hq, hqa, hm⟩ := h
  rcases dropChild_elements hq with hq | ⟨hqp, hv⟩
  · exact ⟨ha, hb, q, hq, hqa, hm⟩
  · rw [hv] at hm
    obtain ⟨z, hz, hzb⟩ := List.mem_map.mp hm
    split at hzb
    · omega
    · exact ⟨ha, hb, r, hmem, hrp.trans (hqp.symm.trans hqa), hzb ▸ hz⟩

/-- An index and its deleted copy are not both in one row of entLPMappingTable. -/
def OnceSigned (vs : List Int) : Prop := (vs.map Int.natAbs).Nodup

theorem storeIndex_some {vs vs' : List Int} (h : storeIndex p vs = some vs') :
    (vs'.map Int.natAbs = vs.map Int.natAbs ∨ (p.natAbs ∉ vs.map Int.natAbs ∧ vs' = vs ++ [p])) ∧
      ∀ z ∈ vs', z ∈ vs ∨ z = p := by
  induction vs generalizing vs' with
  | nil =>
      obtain rfl := Option.some.inj h
      simp
  | cons y ys ih =>
      unfold storeIndex at h
      split at h
      · cases h
      · split at h
        · rename_i hy
          obtain rfl := Option.some.inj h
          refine ⟨.inl (by simp [hy]), fun z hz => ?_⟩
          rcases List.mem_cons.mp hz with rfl | hz
          · exact .inr rfl
          · exact .inl (by simp [hz])
        · rename_i hne hneg
          obtain ⟨zs, hzs, rfl⟩ := Option.map_eq_some_iff.mp h
          obtain ⟨habs, hmem⟩ := ih hzs
          refine ⟨?_, fun z hz => ?_⟩
          · rcases habs with habs | ⟨hp, rfl⟩
            · exact .inl (by simp [habs])
            · refine .inr ⟨?_, rfl⟩
              have hpy : p.natAbs ≠ y.natAbs := by omega
              simpa [hpy] using hp
          · rcases List.mem_cons.mp hz with rfl | hz
            · exact .inl (by simp)
            · exact (hmem z hz).imp_left (List.mem_cons_of_mem y)

theorem OnceSigned.storeIndex {vs vs' : List Int} (h : OnceSigned vs) (hs : storeIndex p vs = some vs') :
    OnceSigned vs' := by
  rcases (storeIndex_some hs).1 with he | ⟨hp, rfl⟩
  · rwa [OnceSigned, he]
  · rw [OnceSigned, List.map_append]
    exact List.Nodup.append h (by simp) (by simpa using hp)

theorem negateIndex_abs (p : Int) (vs : List Int) :
    (negateIndex p vs).map Int.natAbs = vs.map Int.natAbs := by
  induction vs with
  | nil => rfl
  | cons z zs ih =>
      unfold negateIndex
      split
      · simp [*]
      · simp [ih]

theorem OnceSigned.negateIndex {vs : List Int} (h : OnceSigned vs) : OnceSigned (negateIndex p vs) := by
  rwa [OnceSigned, negateIndex_abs]

theorem mem_negateIndex {vs : List Int} (hp : 0 < p) (hz : 0 < z) (h : z ∈ negateIndex p vs) : z ∈ vs := by
  induction vs with
  | nil => simp [negateIndex] at h
  | cons y ys ih =>
      unfold negateIndex at h
      split at h
      · rcases List.mem_cons.mp h with rfl | h
        · omega
        · simp [h]
      · rcases List.mem_cons.mp h with rfl | h
        · simp
        · simp [ih h]

theorem not_mem_negateIndex {vs : List Int} (hp : 0 < p) (h : OnceSigned vs) : p ∉ negateIndex p vs := by
  induction vs with
  | nil => simp [negateIndex]
  | cons y ys ih =>
      have hn := List.nodup_cons.mp h
      unfold negateIndex
      split
      · rename_i hy
        have hys : p ∉ ys := fun hm => hn.1 (List.mem_map.mpr ⟨p, hm, by rw [hy]⟩)
        have : p ≠ -p := by omega
        simp [this, hys]
      · rename_i hy
        have := ih hn.2
        simp [Ne.symm hy, this]

def aliasIndices (as : List LogicalAlias) : List Int :=
  (as.map LogicalAlias.entAliasLogicalIndexorZero).filter (fun l => decide (0 ≤ l))

theorem mem_aliasIndices {as : List LogicalAlias} :
    l ∈ aliasIndices as ↔ 0 ≤ l ∧ l ∈ as.map LogicalAlias.entAliasLogicalIndexorZero := by
  simp only [aliasIndices, List.mem_filter, decide_eq_true_eq]
  tauto

theorem dropAlias_indices (l : Int) (as : List LogicalAlias) :
    aliasIndices (dropAlias l as) = (aliasIndices as).erase l := by
  induction as with
  | nil => rfl
  | cons a as ih =>
      unfold dropAlias
      split
      · rename_i ha
        simp [aliasIndices, deletedAlias, ha.2, ha.2 ▸ ha.1]
      · rename_i ha
        simp only [aliasIndices] at ih
        by_cases h0 : 0 ≤ a.entAliasLogicalIndexorZero
        · have hne : a.entAliasLogicalIndexorZero ≠ l := fun he => ha ⟨h0, he⟩
          simp [aliasIndices, h0, ih, hne]
        · simp [aliasIndices, h0, ih]

end OiUserland.EntityMib.MappingRows
