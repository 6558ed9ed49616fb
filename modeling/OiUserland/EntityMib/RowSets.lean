import OiUserland.Lib.PairSets
import OiUserland.EntityMib.MappingRows

namespace OiUserland.EntityMib.RowSets

open Lib.PairSets MibState MappingRows

variable {α : Type} {live : α → Option Int} {rows : List (MappingRow α)} {r q : MappingRow α}
  {v : Option (List α)} {x y z : Int}

def liveValues (live : α → Option Int) (r : MappingRow α) : List Int := (elements r).filterMap live

def pairs (live : α → Option Int) (rows : List (MappingRow α)) : Set (Int × Int) :=
  {q | ∃ r ∈ rows, r.index = q.1 ∧ q.2 ∈ liveValues live r}

structure SoundRows (live : α → Option Int) (rows : List (MappingRow α)) : Prop where
  oneRow : OneRow rows
  positive : ∀ r ∈ rows, 0 < r.index
  nodup : ∀ r ∈ rows, (liveValues live r).Nodup

theorem mem_pairs_row (h : OneRow rows) (hr : findRow x rows = some r) :
    (x, z) ∈ pairs live rows ↔ z ∈ liveValues live r := by
  obtain ⟨hmem, hrx⟩ := findRow_some hr
  constructor
  · intro ⟨q, hq, hqx, hz⟩
    rw [h.unique hmem hq (hrx.trans hqx.symm)]
    exact hz
  · exact fun hz => ⟨r, hmem, hrx, hz⟩

theorem notMem_pairs (hr : findRow x rows = none) : (x, z) ∉ pairs live rows :=
  fun ⟨q, hq, hqx, _⟩ => findRow_none hr q hq hqx

theorem mem_pairs_set (h : OneRow rows) (hr : findRow x rows = some r) :
    (y, z) ∈ pairs live (setValues x v rows) ↔
      (y = x ∧ z ∈ (v.getD []).filterMap live) ∨ (y ≠ x ∧ (y, z) ∈ pairs live rows) := by
  obtain ⟨hmem, hrx⟩ := findRow_some hr
  rw [show setValues x v rows = rows.map (fun q => if q.index = x then { q with values := v } else q) from
    setValues_eq_map h hr fun _ => v]
  constructor
  · intro ⟨q, hq, hqy, hz⟩
    obtain ⟨p, hp, rfl⟩ := List.mem_map.mp hq
    by_cases hpx : p.index = x
    · rw [if_pos hpx] at hqy hz
      exact .inl ⟨hqy.symm.trans hpx, hz⟩
    · rw [if_neg hpx] at hqy hz
      exact .inr ⟨fun hyx => hpx (hqy.trans hyx), p, hp, hqy, hz⟩
  · rintro (⟨rfl, hz⟩ | ⟨hne, p, hp, hpy, hz⟩)
    · exact ⟨_, List.mem_map.mpr ⟨r, hmem, rfl⟩, by rw [if_pos hrx]; exact hrx, by rw [if_pos hrx]; exact hz⟩
    · have hpx : p.index ≠ x := fun he => hne (hpy.symm.trans he)
      exact ⟨_, List.mem_map.mpr ⟨p, hp, rfl⟩, by rw [if_neg hpx]; exact hpy, by rw [if_neg hpx]; exact hz⟩

theorem SoundRows.set (h : SoundRows live rows) (hx : 0 < x) (hv : ((v.getD []).filterMap live).Nodup) :
    SoundRows live (setValues x v rows) where
  oneRow := h.oneRow.setValues
  positive q hq := by
    rcases mem_setValues hq with hq | ⟨hqx, _⟩
    · exact h.positive q hq
    · rw [hqx]
      exact hx
  nodup q hq := by
    rcases mem_setValues hq with hq | ⟨_, hqv⟩
    · exact h.nodup q hq
    · rw [liveValues, elements, hqv]
      exact hv

theorem pairs_set_insert (h : OneRow rows) (hr : findRow x rows = some r)
    (hv : ∀ y, y ∈ (v.getD []).filterMap live ↔ y = z ∨ y ∈ liveValues live r) :
    pairs live (setValues x v rows) = insert (x, z) (pairs live rows) := by
  ext ⟨a, b⟩
  rw [mem_pairs_set h hr, hv, Set.mem_insert_iff, Prod.mk.injEq]
  constructor
  · rintro (⟨rfl, rfl | hb⟩ | ⟨_, hb⟩)
    · exact .inl ⟨rfl, rfl⟩
    · exact .inr ((mem_pairs_row h hr).mpr hb)
    · exact .inr hb
  · rintro (⟨rfl, rfl⟩ | hb)
    · exact .inl ⟨rfl, .inl rfl⟩
    · by_cases ha : a = x
      · subst ha
        exact .inl ⟨rfl, .inr ((mem_pairs_row h hr).mp hb)⟩
      · exact .inr ⟨ha, hb⟩

theorem pairs_set_erase (h : SoundRows live rows) (hr : findRow x rows = some r)
    (hv : (v.getD []).filterMap live = (liveValues live r).erase z) :
    pairs live (setValues x v rows) = pairs live rows \ {(x, z)} := by
  have hnodup := h.nodup r (findRow_some hr).1
  ext ⟨a, b⟩
  rw [mem_pairs_set h.oneRow hr, hv, hnodup.mem_erase_iff, Set.mem_sdiff, Set.mem_singleton_iff, Prod.mk.injEq]
  constructor
  · rintro (⟨rfl, hne, hb⟩ | ⟨ha, hb⟩)
    · exact ⟨(mem_pairs_row h.oneRow hr).mpr hb, fun he => hne he.2⟩
    · exact ⟨hb, fun he => ha he.1⟩
  · intro ⟨hb, hne⟩
    by_cases ha : a = x
    · subst ha
      exact .inl ⟨rfl, fun he => hne ⟨rfl, he⟩, (mem_pairs_row h.oneRow hr).mp hb⟩
    · exact .inr ⟨ha, hb⟩

theorem SoundRows.stored (h : SoundRows live rows) (hr : findRow x rows = some r) (hz : z ∉ liveValues live r)
    (hv : ((v.getD []).filterMap live).Perm (z :: liveValues live r)) :
    SoundRows live (setValues x v rows) ∧ pairs live (setValues x v rows) = insert (x, z) (pairs live rows) := by
  obtain ⟨hmem, hrx⟩ := findRow_some hr
  have hx : 0 < x := hrx ▸ h.positive r hmem
  constructor
  · exact h.set hx (hv.nodup_iff.mpr (List.nodup_cons.mpr ⟨hz, h.nodup r hmem⟩))
  · apply pairs_set_insert h.oneRow hr
    intro y
    rw [hv.mem_iff, List.mem_cons]

theorem SoundRows.erased (h : SoundRows live rows) (hr : findRow x rows = some r)
    (hv : (v.getD []).filterMap live = (liveValues live r).erase z) :
    SoundRows live (setValues x v rows) ∧ pairs live (setValues x v rows) = pairs live rows \ {(x, z)} := by
  obtain ⟨hmem, hrx⟩ := findRow_some hr
  have hx : 0 < x := hrx ▸ h.positive r hmem
  constructor
  · apply h.set hx
    rw [hv]
    exact (h.nodup r hmem).erase z
  · exact pairs_set_erase h hr hv

theorem SoundRows.append (h : SoundRows live rows) (hr : findRow x rows = none) (hx : 0 < x)
    (hv : ((v.getD []).filterMap live).Nodup) : SoundRows live (rows ++ [⟨x, v⟩]) where
  oneRow := h.oneRow.append hr
  positive q hq := by
    rcases List.mem_append.mp hq with hq | hq
    · exact h.positive q hq
    · rw [List.mem_singleton.mp hq]
      exact hx
  nodup q hq := by
    rcases List.mem_append.mp hq with hq | hq
    · exact h.nodup q hq
    · rw [List.mem_singleton.mp hq]
      exact hv

theorem pairs_append (hv : (v.getD []).filterMap live = [z]) :
    pairs live (rows ++ [⟨x, v⟩]) = insert (x, z) (pairs live rows) := by
  ext ⟨a, b⟩
  rw [Set.mem_insert_iff, Prod.mk.injEq]
  constructor
  · intro ⟨q, hq, hqa, hb⟩
    rcases List.mem_append.mp hq with hq | hq
    · exact .inr ⟨q, hq, hqa, hb⟩
    · rw [List.mem_singleton.mp hq] at hqa hb
      rw [liveValues, elements, hv] at hb
      exact .inl ⟨hqa.symm, List.mem_singleton.mp hb⟩
  · rintro (⟨rfl, rfl⟩ | ⟨q, hq, hqa, hb⟩)
    · refine ⟨⟨a, v⟩, List.mem_append_right _ List.mem_cons_self, rfl, ?_⟩
      rw [liveValues, elements, hv]
      exact List.mem_cons_self
    · exact ⟨q, List.mem_append_left _ hq, hqa, hb⟩

theorem mem_removeRow (h : OneRow rows) : q ∈ removeRow x rows ↔ q ∈ rows ∧ q.index ≠ x := by
  constructor
  · exact fun hq => ⟨List.mem_of_mem_eraseP hq, h.not_mem_removeRow hq⟩
  · intro ⟨hq, hne⟩
    exact (List.mem_eraseP_of_neg (by simpa using hne)).mpr hq

theorem SoundRows.remove (h : SoundRows live rows) : SoundRows live (removeRow x rows) where
  oneRow := h.oneRow.removeRow
  positive q hq := h.positive q ((removeRow_sublist x rows).subset hq)
  nodup q hq := h.nodup q ((removeRow_sublist x rows).subset hq)

theorem pairs_removeRow (h : OneRow rows) :
    pairs live (removeRow x rows) = pairs live rows \ {q | q.1 = x} := by
  ext ⟨a, b⟩
  constructor
  · intro ⟨q, hq, hqa, hb⟩
    obtain ⟨hq, hne⟩ := (mem_removeRow h).mp hq
    exact ⟨⟨q, hq, hqa, hb⟩, fun ha => hne (hqa.trans ha)⟩
  · intro ⟨⟨q, hq, hqa, hb⟩, hne⟩
    exact ⟨q, (mem_removeRow h).mpr ⟨hq, fun he => hne (hqa.symm.trans he)⟩, hqa, hb⟩

theorem removeAll_row (h : SoundRows live rows) (hr : findRow x rows = some r) :
    removeAll (fun q => q.1 = x) (pairs live rows) =
      (pairs live (removeRow x rows), if liveValues live r = [] then -1 else ((liveValues live r).length : Int)) := by
  have hnodup := h.nodup r (findRow_some hr).1
  have hlist : ((liveValues live r).map (Prod.mk x)).Nodup := hnodup.map (Prod.mk_right_injective x)
  rw [removeAll_list hlist, pairs_removeRow h.oneRow, List.length_map]
  · simp only [List.map_eq_nil_iff]
  intro ⟨a, b⟩
  rw [List.mem_map]
  constructor
  · rintro ⟨b', hb, he⟩
    cases he
    exact ⟨(mem_pairs_row h.oneRow hr).mpr hb, rfl⟩
  · rintro ⟨hb, rfl⟩
    exact ⟨b, (mem_pairs_row h.oneRow hr).mp hb, rfl⟩

theorem removeAll_noRow (hr : findRow x rows = none) :
    removeAll (fun q => q.1 = x) (pairs live rows) = (pairs live rows, -1) := by
  apply if_neg
  rintro ⟨⟨a, b⟩, hq, rfl⟩
  exact notMem_pairs hr hq

section Passes

variable {f : MappingRow α → MappingRow α}

theorem SoundRows.map (h : SoundRows live rows) (hf : ∀ r, (f r).index = r.index)
    (hv : ∀ r ∈ rows, liveValues live (f r) = (liveValues live r).erase z) : SoundRows live (rows.map f) where
  oneRow := h.oneRow.map hf
  positive q hq := by
    obtain ⟨r, hr, rfl⟩ := List.mem_map.mp hq
    rw [hf]
    exact h.positive r hr
  nodup q hq := by
    obtain ⟨r, hr, rfl⟩ := List.mem_map.mp hq
    rw [hv r hr]
    exact (h.nodup r hr).erase z

theorem pairs_map (h : SoundRows live rows) (hf : ∀ r, (f r).index = r.index)
    (hv : ∀ r ∈ rows, liveValues live (f r) = (liveValues live r).erase z) :
    pairs live (rows.map f) = pairs live rows \ {q | q.2 = z} := by
  ext ⟨a, b⟩
  constructor
  · intro ⟨q, hq, hqa, hb⟩
    obtain ⟨r, hr, rfl⟩ := List.mem_map.mp hq
    rw [hf] at hqa
    rw [hv r hr, (h.nodup r hr).mem_erase_iff] at hb
    exact ⟨⟨r, hr, hqa, hb.2⟩, hb.1⟩
  · intro ⟨⟨r, hr, hqa, hb⟩, hne⟩
    refine ⟨f r, List.mem_map.mpr ⟨r, hr, rfl⟩, by rw [hf]; exact hqa, ?_⟩
    rw [hv r hr, (h.nodup r hr).mem_erase_iff]
    exact ⟨hne, hb⟩

theorem removeAll_value (h : SoundRows live rows) :
    removeAll (fun q => q.2 = z) (pairs live rows) =
      (pairs live rows \ {q | q.2 = z}, if rows.countP (fun r => decide (z ∈ liveValues live r)) = 0 then -1
        else (rows.countP (fun r => decide (z ∈ liveValues live r)) : Int)) := by
  have hsub : ((rows.filter fun r => decide (z ∈ liveValues live r)).map MappingRow.index).Sublist
      (rows.map MappingRow.index) := List.filter_sublist.map _
  have hlist : ((rows.filter fun r => decide (z ∈ liveValues live r)).map fun r => (r.index, z)).Nodup := by
    have hmap := (h.oneRow.sublist hsub).map (Prod.mk_left_injective z)
    rw [List.map_map] at hmap
    exact hmap
  rw [removeAll_list hlist, List.length_map, ← List.countP_eq_length_filter]
  · simp only [List.map_eq_nil_iff, List.countP_eq_length_filter, List.length_eq_zero_iff]
  intro ⟨a, b⟩
  simp only [List.mem_map, List.mem_filter, decide_eq_true_eq]
  constructor
  · rintro ⟨r, ⟨hr, hz⟩, he⟩
    cases he
    exact ⟨⟨r, hr, rfl, hz⟩, rfl⟩
  · rintro ⟨⟨r, hr, rfl, hz⟩, rfl⟩
    exact ⟨r, ⟨hr, hz⟩, rfl⟩

end Passes

end OiUserland.EntityMib.RowSets
