import Mathlib.Data.List.Pairwise
import OiUserland.EntityMib.Entities

namespace OiUserland.EntityMib.ListInvariant

open EntityTable

variable {E : Type} {l l₁ l₂ : List (Node E)} {t : Table E}

structure Ordered (l : List (Node E)) : Prop where
  increasing : l.Pairwise (fun y z => y.index.natAbs < z.index.natAbs)
  bounds : ∀ z ∈ l, 0 < z.index.natAbs ∧ (z.index.natAbs : Int) ≤ maxEntityIndex
  blocks : (l.map Node.addr).Nodup

/-- The representation invariant: size and tail pointer agree with the walk. -/
structure WellFormed (t : Table E) : Prop extends Ordered t.head where
  size : t.size = t.head.length
  tail : ∀ z, t.head.getLast? = some z → t.tail = some z.addr

/-- No entry, live or stale, has this index. -/
def Unused (x : Int) (l : List (Node E)) : Prop := ∀ z ∈ l, (z.index.natAbs : Int) ≠ x

/-- The index that an allocation with request `i` is going to assign is not
beyond the limit. -/
def HasRoom (i : Int) (t : Table E) : Prop :=
  (0 < i ∧ Unused i t.head) ∨ t.head = [] ∨
    if t.size > largeTable then ∀ z, t.head.getLast? = some z → (z.index.natAbs : Int) < maxEntityIndex
    else ∃ z ∈ t.head, (z.index.natAbs : Int) < maxEntityIndex ∧ Unused (z.index.natAbs + 1) t.head

def Inserted (new : Node E) (l l' : List (Node E)) (last : Bool) : Prop :=
  ∃ l₁ l₂, l = l₁ ++ l₂ ∧ l' = l₁ ++ new :: l₂ ∧ (last = true ↔ l₂ = []) ∧
    (∀ z ∈ l₁, (z.index.natAbs : Int) < new.index) ∧ ∀ z ∈ l₂, new.index < z.index.natAbs

theorem toInt_eq {x : Int} (h0 : 0 ≤ x) (h : x ≤ maxEntityIndex) : toInt x = x := by
  unfold maxEntityIndex at h
  rw [toInt, Int.bmod_def]
  omega

theorem absInt_eq {x : Int} (h : (x.natAbs : Int) ≤ maxEntityIndex) : absInt x = x.natAbs :=
  toInt_eq (by omega) h

theorem Ordered.nil : Ordered ([] : List (Node E)) := ⟨.nil, by simp, .nil⟩

theorem Ordered.tail {z : Node E} (h : Ordered (z :: l)) : Ordered l :=
  ⟨h.increasing.of_cons, fun y hy => h.bounds y (by simp [hy]), (List.nodup_cons.mp h.blocks).2⟩

theorem Ordered.head_lt {y z : Node E} (h : Ordered (z :: l)) (hy : y ∈ l) :
    z.index.natAbs < y.index.natAbs :=
  (List.pairwise_cons.mp h.increasing).1 y hy

theorem Ordered.abs_head {z : Node E} (h : Ordered (z :: l)) : absInt z.index = z.index.natAbs :=
  absInt_eq (h.bounds z (by simp)).2

theorem Ordered.unique (h : Ordered l) {y z : Node E} (hy : y ∈ l) (hz : z ∈ l)
    (he : y.index.natAbs = z.index.natAbs) : y = z := by
  induction l with
  | nil => simp at hy
  | cons x xs ih =>
      rcases List.mem_cons.mp hy with rfl | hy' <;> rcases List.mem_cons.mp hz with rfl | hz'
      · rfl
      · exact absurd he (Nat.ne_of_lt (h.head_lt hz'))
      · exact absurd he.symm (Nat.ne_of_lt (h.head_lt hy'))
      · exact ih h.tail hy' hz'

theorem Ordered.sublist (h : Ordered l) (hs : l₁.Sublist l) : Ordered l₁ :=
  ⟨h.increasing.sublist hs, fun z hz => h.bounds z (hs.subset hz), h.blocks.sublist (hs.map _)⟩

theorem Inserted.mem_iff {new : Node E} {l' : List (Node E)} {last : Bool}
    (h : Inserted new l l' last) (z : Node E) : z ∈ l' ↔ z = new ∨ z ∈ l := by
  obtain ⟨l₁, l₂, rfl, rfl, -⟩ := h
  simp only [List.mem_append, List.mem_cons]
  tauto

theorem Inserted.length {new : Node E} {l' : List (Node E)} {last : Bool}
    (h : Inserted new l l' last) : l'.length = l.length + 1 := by
  obtain ⟨l₁, l₂, rfl, rfl, -⟩ := h
  simp only [List.length_append, List.length_cons]
  omega

theorem Inserted.cons {new z : Node E} {l' : List (Node E)} {last : Bool}
    (h : Inserted new l l' last) (hz : (z.index.natAbs : Int) < new.index) :
    Inserted new (z :: l) (z :: l') last := by
  obtain ⟨l₁, l₂, rfl, rfl, hlast, hlo, hhi⟩ := h
  refine ⟨z :: l₁, l₂, rfl, rfl, hlast, ?_, hhi⟩
  exact List.forall_mem_cons.mpr ⟨hz, hlo⟩

theorem Inserted.front {new : Node E} (h : ∀ z ∈ l, new.index < (z.index.natAbs : Int)) (hl : l ≠ []) :
    Inserted new l (new :: l) false :=
  ⟨[], l, rfl, rfl, by simp [hl], by simp, h⟩

theorem Inserted.back {new : Node E} (h : ∀ z ∈ l, (z.index.natAbs : Int) < new.index) :
    Inserted new l (l ++ [new]) true :=
  ⟨l, [], by simp, rfl, by simp, h, by simp⟩

theorem Inserted.getLast? {new : Node E} {l' : List (Node E)} {last : Bool}
    (h : Inserted new l l' last) : l'.getLast? = if last then some new else l.getLast? := by
  obtain ⟨l₁, l₂, rfl, rfl, hlast, -⟩ := h
  cases last with
  | true => simp [hlast.mp rfl]
  | false =>
      have hl : l₂ ≠ [] := by simpa using hlast
      obtain ⟨y, ys, rfl⟩ := List.exists_cons_of_ne_nil hl
      simp

theorem Inserted.ordered {new : Node E} {l' : List (Node E)} {last : Bool}
    (h : Inserted new l l' last) (ho : Ordered l) (h0 : 0 < new.index)
    (hmax : new.index ≤ maxEntityIndex) (hnew : new.addr ∉ l.map Node.addr) : Ordered l' := by
  have hb := ho.bounds
  have hmem := h.mem_iff
  obtain ⟨l₁, l₂, rfl, rfl, -, hlo, hhi⟩ := h
  refine ⟨?_, ?_, ?_⟩
  · have hp := List.pairwise_append.mp ho.increasing
    refine List.pairwise_append.mpr ⟨hp.1, List.pairwise_cons.mpr ⟨fun z hz => ?_, hp.2.1⟩, ?_⟩
    · have := hhi z hz
      omega
    · intro y hy z hz
      rcases List.mem_cons.mp hz with rfl | hz
      · have := hlo y hy
        omega
      · exact hp.2.2 y hy z hz
  · intro z hz
    rcases (hmem z).mp hz with rfl | hz
    · omega
    · exact hb z hz
  · have hn : (new.addr :: (l₁ ++ l₂).map Node.addr).Nodup := List.nodup_cons.mpr ⟨hnew, ho.blocks⟩
    have hp : (l₁ ++ new :: l₂).Perm (new :: (l₁ ++ l₂)) := List.perm_middle
    exact (hp.map Node.addr).nodup_iff.mpr hn

theorem place_inserted {new : Node E} (ho : Ordered l) {r : List (Node E) × Bool}
    (h : place new l = some r) : Inserted new l r.1 r.2 := by
  induction l generalizing r with
  | nil =>
      obtain rfl := Option.some.inj h
      exact Inserted.back (l := []) (by simp)
  | cons z zs ih =>
      simp only [place, ho.abs_head] at h
      split at h
      · obtain ⟨r', hr, rfl⟩ := Option.map_eq_some_iff.mp h
        exact (ih ho.tail hr).cons (by omega)
      · split at h
        · cases h
        · obtain rfl := Option.some.inj h
          refine Inserted.front (fun y hy => ?_) (by simp)
          rcases List.mem_cons.mp hy with rfl | hy
          · omega
          · have := ho.head_lt hy
            omega

theorem place_isSome {new : Node E} (ho : Ordered l) (h : Unused new.index l) :
    (place new l).isSome := by
  induction l with
  | nil => rfl
  | cons z zs ih =>
      have hz : (z.index.natAbs : Int) ≠ new.index := h z (by simp)
      have hzs := ih ho.tail (fun y hy => h y (by simp [hy]))
      simp only [place, ho.abs_head]
      split
      · simpa using hzs
      · split
        · omega
        · rfl

theorem place_isSome_iff {new : Node E} (ho : Ordered l) :
    (place new l).isSome ↔ Unused new.index l := by
  refine ⟨fun h z hz he => ?_, place_isSome ho⟩
  obtain ⟨r, hr⟩ := Option.isSome_iff_exists.mp h
  obtain ⟨l₁, l₂, rfl, -, -, hlo, hhi⟩ := place_inserted ho hr
  rcases List.mem_append.mp hz with hz | hz
  · have := hlo z hz
    omega
  · have := hhi z hz
    omega

theorem nextIndex_eq {z : Node E} (h : (z.index.natAbs : Int) < maxEntityIndex) :
    nextIndex z = z.index.natAbs + 1 := by
  rw [nextIndex, absInt_eq (by omega), toInt_eq (by omega) (by omega)]

theorem fillGap_gap (new : Node E) {y z : Node E} (ho : Ordered (z :: y :: l))
    (h : z.index.natAbs + 1 < y.index.natAbs) :
    fillGap new (z :: y :: l) =
      (z :: { new with index := z.index.natAbs + 1 } :: y :: l, (z.index.natAbs : Int) + 1, false) := by
  have hy := (ho.bounds y (by simp)).2
  rw [fillGap, ho.abs_head, ho.tail.abs_head, toInt_eq (by omega) (by omega), if_pos (by omega),
    nextIndex_eq (by omega)]

theorem fillGap_next (new : Node E) {y z : Node E} (ho : Ordered (z :: y :: l))
    (h : ¬ z.index.natAbs + 1 < y.index.natAbs) :
    fillGap new (z :: y :: l) = (z :: (fillGap new (y :: l)).1, (fillGap new (y :: l)).2) := by
  have hzy : z.index.natAbs < y.index.natAbs := ho.head_lt (by simp)
  have hy := (ho.bounds y (by simp)).2
  rw [fillGap, ho.abs_head, ho.tail.abs_head, toInt_eq (by omega) (by omega), if_neg (by omega)]

theorem fillGap_inserted (new : Node E) (ho : Ordered l)
    (hroom : l = [] ∨ ∃ z ∈ l, (z.index.natAbs : Int) < maxEntityIndex ∧ Unused (z.index.natAbs + 1) l) :
    0 < (fillGap new l).2.1 ∧ (fillGap new l).2.1 ≤ maxEntityIndex ∧
      (∀ z ∈ l.head?, (z.index.natAbs : Int) < (fillGap new l).2.1) ∧
      Inserted { new with index := (fillGap new l).2.1 } l (fillGap new l).1 (fillGap new l).2.2 := by
  induction l with
  | nil =>
      exact ⟨by simp [fillGap], by simp [fillGap, maxEntityIndex], by simp, Inserted.back (l := []) (by simp)⟩
  | cons z zs ih =>
      obtain ⟨w, hw, hlt, hfree⟩ := hroom.resolve_left (by simp)
      have hz : (z.index.natAbs : Int) < z.index.natAbs + 1 := by omega
      cases zs with
      | nil =>
          obtain rfl : w = z := by simpa using hw
          simp only [fillGap, nextIndex_eq hlt]
          exact ⟨by omega, by omega, by simpa using hz, Inserted.back (l := [w]) (by simpa using hz)⟩
      | cons y zs =>
          have hzy : z.index.natAbs < y.index.natAbs := ho.head_lt (by simp)
          by_cases hgap : z.index.natAbs + 1 < y.index.natAbs
          · have hy := (ho.bounds y (by simp)).2
            rw [fillGap_gap new ho hgap]
            refine ⟨by dsimp only; omega, by dsimp only; omega, by simpa using hz,
              [z], y :: zs, rfl, rfl, by simp, by simpa using hz, fun x hx => ?_⟩
            have hyx : y.index.natAbs ≤ x.index.natAbs := by
              rcases List.mem_cons.mp hx with rfl | hx
              · exact Nat.le_refl _
              · exact Nat.le_of_lt (ho.tail.head_lt hx)
            dsimp only
            omega
          · have hwz : w ≠ z := by
              rintro rfl
              exact hfree y (by simp) (by omega)
            have hwy : w ∈ y :: zs := by simpa [hwz] using hw
            obtain ⟨h0, hmax, hfirst, hin⟩ := ih ho.tail
              (.inr ⟨w, hwy, hlt, fun x hx => hfree x (List.mem_cons_of_mem _ hx)⟩)
            have hz : (z.index.natAbs : Int) < (fillGap new (y :: zs)).2.1 := by
              have := hfirst y (by simp)
              omega
            rw [fillGap_next new ho hgap]
            exact ⟨h0, hmax, by simpa using hz, hin.cons hz⟩

theorem linkAfter_last {new z : Node E} (ho : Ordered l) (hz : l.getLast? = some z) :
    linkAfter z.addr new l = some (l ++ [{ new with index := nextIndex z }], nextIndex z, []) := by
  induction l with
  | nil => simp at hz
  | cons y ys ih =>
      cases ys with
      | nil =>
          obtain rfl : y = z := by simpa using hz
          simp [linkAfter]
      | cons x xs =>
          have hz' : (x :: xs).getLast? = some z := by simpa using hz
          have hne : y.addr ≠ z.addr := fun he =>
            (List.nodup_cons.mp ho.blocks).1 (he ▸ List.mem_map_of_mem (List.mem_of_getLast? hz'))
          rw [linkAfter, if_neg hne, ih ho.tail hz']
          rfl

theorem Ordered.le_last (ho : Ordered l) {y z : Node E} (hz : l.getLast? = some z) (hy : y ∈ l) :
    y.index.natAbs ≤ z.index.natAbs := by
  obtain ⟨xs, rfl⟩ := List.getLast?_eq_some_iff.mp hz
  rcases List.mem_append.mp hy with hy | hy
  · exact Nat.le_of_lt ((List.pairwise_append.mp ho.increasing).2.2 y hy z (by simp))
  · obtain rfl : y = z := by simpa using hy
    exact Nat.le_refl _

def TailSafe (i : Int) (t : Table E) : Prop :=
  (0 < i ∧ Unused i t.head) ∨ t.size ≤ largeTable ∨ ∀ z, t.head.getLast? = some z → t.tail = some z.addr

/-- What an insertion that assigns index `i` does to a table. -/
structure Added (new : Node E) (t t' : Table E) (i : Int) : Prop where
  positive : 0 < i
  bound : i ≤ maxEntityIndex
  size : t'.size = t.size + 1
  inserted : ∃ last, Inserted { new with index := i } t.head t'.head last ∧
    t'.tail = if last then some new.addr else t.tail

theorem addToTable_added {new : Node E} {t' : Table E} {i : Int} (ho : Ordered t.head)
    (hsize : t.size = t.head.length) (hmax : new.index ≤ maxEntityIndex) (hroom : HasRoom new.index t)
    (hsafe : TailSafe new.index t) (h : addToTable new t = some (t', i)) : Added new t t' i := by
  unfold addToTable at h
  split at h
  · rename_i chain last hp
    split at hp
    · rename_i hpos
      obtain ⟨rfl, rfl⟩ := Prod.mk.inj (Option.some.inj h)
      exact ⟨hpos, hmax, rfl, last, place_inserted ho hp, rfl⟩
    · cases hp
  · rename_i hp
    have htaken : ¬ (0 < new.index ∧ Unused new.index t.head) := by
      rintro ⟨h0, hfree⟩
      have := place_isSome ho hfree
      simp [if_pos h0] at hp
      simp [hp] at this
    have hroom := hroom.resolve_left htaken
    have hsafe := hsafe.resolve_left htaken
    split at h
    · rename_i hlarge
      have hne : t.head ≠ [] := by
        intro he
        rw [he] at hsize
        simp [hsize, largeTable] at hlarge
      obtain ⟨z, hz⟩ : ∃ z, t.head.getLast? = some z := ⟨_, List.getLast?_eq_some_getLast hne⟩
      have hlt : (z.index.natAbs : Int) < maxEntityIndex := by
        simpa [hne, hlarge, hz] using hroom
      have htail : t.tail = some z.addr := hsafe.resolve_left (by omega) z hz
      simp only [htail, Option.bind_some, linkAfter_last ho hz, Option.map_some] at h
      obtain ⟨rfl, rfl⟩ := Prod.mk.inj (Option.some.inj h)
      rw [nextIndex_eq hlt]
      refine ⟨by omega, by omega, rfl, true, Inserted.back fun y hy => ?_, rfl⟩
      have := ho.le_last hz hy
      dsimp only
      omega
    · rename_i hsmall
      obtain ⟨rfl, rfl⟩ := Prod.mk.inj (Option.some.inj h)
      rw [if_neg hsmall] at hroom
      obtain ⟨h0, hle, -, hin⟩ := fillGap_inserted new ho hroom
      exact ⟨h0, hle, rfl, _, hin, rfl⟩

theorem Added.ordered {new : Node E} {t' : Table E} {i : Int} (h : Added new t t' i) (ho : Ordered t.head)
    (hnew : new.addr ∉ t.blocks) : Ordered t'.head := by
  obtain ⟨last, hin, -⟩ := h.inserted
  exact hin.ordered ho h.positive h.bound fun hm => hnew (List.mem_append_left _ hm)

theorem Added.wellFormed {new : Node E} {t' : Table E} {i : Int} (h : Added new t t' i)
    (hw : WellFormed t) (hnew : new.addr ∉ t.blocks) : WellFormed t' := by
  obtain ⟨last, hin, htail⟩ := h.inserted
  refine ⟨h.ordered hw.toOrdered hnew, ?_, fun z hz => ?_⟩
  · rw [h.size, hw.size, hin.length]
    rfl
  · rw [hin.getLast?] at hz
    cases last with
    | true =>
        obtain rfl := Option.some.inj hz
        exact htail
    | false => exact htail.trans (hw.tail z hz)

def key (z : Node E) : Nat × Nat := (z.addr, z.index.natAbs)

theorem Ordered.congr (h : Ordered l₁) (he : l₂.map key = l₁.map key) : Ordered l₂ := by
  have habs : l₂.map (fun z => z.index.natAbs) = l₁.map (fun z => z.index.natAbs) := by
    simpa [key, Function.comp_def] using congrArg (List.map Prod.snd) he
  have haddr : l₂.map Node.addr = l₁.map Node.addr := by
    simpa [key, Function.comp_def] using congrArg (List.map Prod.fst) he
  refine ⟨?_, fun z hz => ?_, haddr ▸ h.blocks⟩
  · have hinc := List.pairwise_map.mpr h.increasing
    rw [← habs] at hinc
    exact List.pairwise_map.mp hinc
  · have hm : z.index.natAbs ∈ l₂.map (fun z => z.index.natAbs) := List.mem_map_of_mem hz
    rw [habs] at hm
    obtain ⟨y, hy, hyz⟩ := List.mem_map.mp hm
    simpa [hyz] using h.bounds y hy

theorem WellFormed.congr {t' : Table E} (h : WellFormed t) (he : t'.head.map key = t.head.map key)
    (hsize : t'.size = t.size) (htail : t'.tail = t.tail) : WellFormed t' := by
  refine ⟨h.toOrdered.congr he, ?_, fun z hz => ?_⟩
  · have hl : t'.head.length = t.head.length := by simpa using congrArg List.length he
    rw [hsize, h.size, hl]
  · have hlast : t'.head.getLast?.map key = t.head.getLast?.map key := by
      rw [← List.getLast?_map, ← List.getLast?_map, he]
    rw [hz] at hlast
    obtain ⟨y, hy, hyz⟩ := Option.map_eq_some_iff.mp hlast.symm
    rw [htail, h.tail y hy, (Prod.mk.inj hyz).1]

theorem retag_key {x i : Int} (h : i.natAbs = x.natAbs) (l : List (Node E)) :
    (retag x i l).map key = l.map key := by
  induction l with
  | nil => rfl
  | cons z zs ih =>
      unfold retag
      split
      · have hz : i.natAbs = z.index.natAbs := by omega
        simp [key, hz]
      · simp [ih]

theorem find_live {x : Int} {n : Node E} (h : find x l = .live n) : n ∈ l ∧ n.index = x := by
  induction l with
  | nil => cases h
  | cons z zs ih =>
      unfold find at h
      split at h
      · cases h
        exact ⟨by simp, by assumption⟩
      · split at h
        · cases h
        · have := ih h
          exact ⟨by simp [this.1], this.2⟩

theorem find_stale {x : Int} {n : Node E} (h : find x l = .stale n) : n ∈ l ∧ n.index = -x := by
  induction l with
  | nil => cases h
  | cons z zs ih =>
      unfold find at h
      split at h
      · cases h
      · split at h
        · cases h
          exact ⟨by simp, by assumption⟩
        · have := ih h
          exact ⟨by simp [this.1], this.2⟩

theorem find_eq_live (ho : Ordered l) {x : Int} {n : Node E} (hn : n ∈ l) (hx : n.index = x) :
    find x l = .live n := by
  induction l with
  | nil => simp at hn
  | cons z zs ih =>
      rcases List.mem_cons.mp hn with rfl | hn
      · simp [find, hx]
      · have hlt := ho.head_lt hn
        rw [find, if_neg (by omega), if_neg (by omega), ih ho.tail hn]

theorem inRange_pos {x : Int} (h : inRange x) : 0 < x := by
  simp only [inRange, Bool.and_eq_true, decide_eq_true_eq] at h
  exact h.1

theorem Ordered.inRange (ho : Ordered l) {z : Node E} (hz : z ∈ l) (h0 : 0 < z.index) : inRange z.index := by
  have := (ho.bounds z hz).2
  simp only [EntityTable.inRange, Bool.and_eq_true, decide_eq_true_eq]
  omega

theorem getTableEntry_some {x : Int} {n : Node E} (h : getTableEntry x t = some n) :
    0 < x ∧ n ∈ t.head ∧ n.index = x := by
  unfold getTableEntry at h
  split at h
  · rename_i hr
    split at h
    · rename_i m hm
      obtain rfl := Option.some.inj h
      exact ⟨inRange_pos hr, find_live hm⟩
    · cases h
  · cases h

theorem getTableEntry_live (ho : Ordered t.head) {z : Node E} (hz : z ∈ t.head) (h0 : 0 < z.index) :
    getTableEntry z.index t = some z := by
  rw [getTableEntry, if_pos (ho.inRange hz h0), find_eq_live ho hz rfl]

theorem getTableStaleEntry_live (ho : Ordered t.head) {z : Node E} (hz : z ∈ t.head) :
    getTableStaleEntry z.index t = none := by
  rw [getTableStaleEntry, find_eq_live ho hz rfl]
  simp

theorem mem_unlink (ho : Ordered l) {x : Int} (z : Node E) :
    z ∈ unlink x l ↔ z ∈ l ∧ z.index ≠ x := by
  induction l with
  | nil => simp [unlink]
  | cons y ys ih =>
      unfold unlink
      split
      · rename_i hy
        refine ⟨fun hz => ⟨by simp [hz], ?_⟩, fun hz => ?_⟩
        · have := ho.head_lt hz
          omega
        · rcases List.mem_cons.mp hz.1 with rfl | h
          · exact absurd hy hz.2
          · exact h
      · rename_i hy
        simp only [List.mem_cons, ih ho.tail]
        refine ⟨?_, by tauto⟩
        rintro (rfl | h)
        · exact ⟨.inl rfl, hy⟩
        · exact ⟨.inr h.1, h.2⟩

theorem unlink_sublist (x : Int) (l : List (Node E)) : (unlink x l).Sublist l := by
  induction l with
  | nil => exact .slnil
  | cons z zs ih =>
      unfold unlink
      split
      · exact List.sublist_cons_self z zs
      · exact ih.cons_cons z

theorem length_unlink {x : Int} (h : ∃ z ∈ l, z.index = x) : (unlink x l).length + 1 = l.length := by
  induction l with
  | nil => simp at h
  | cons z zs ih =>
      unfold unlink
      split
      · rfl
      · rename_i hz
        have := ih (by simpa [hz] using h)
        simp only [List.length_cons]
        omega

theorem mem_retag (ho : Ordered l) {x i : Int} (z : Node E) :
    z ∈ retag x i l ↔ (z ∈ l ∧ z.index.natAbs ≠ x.natAbs) ∨
      ∃ y ∈ l, y.index.natAbs = x.natAbs ∧ z = { y with index := i } := by
  induction l with
  | nil => simp [retag]
  | cons y ys ih =>
      unfold retag
      split
      · rename_i hy
        have hne (w : Node E) (hw : w ∈ ys) : w.index.natAbs ≠ x.natAbs := by
          have := ho.head_lt hw
          omega
        constructor
        · intro hz
          rcases List.mem_cons.mp hz with rfl | hz
          · exact .inr ⟨y, by simp, by omega, rfl⟩
          · exact .inl ⟨by simp [hz], hne z hz⟩
        · rintro (⟨hz, hzx⟩ | ⟨w, hw, hwx, rfl⟩)
          · rcases List.mem_cons.mp hz with rfl | hz
            · omega
            · simp [hz]
          · rcases List.mem_cons.mp hw with rfl | hw
            · simp
            · exact absurd hwx (hne w hw)
      · rename_i hy
        have hyx : y.index.natAbs ≠ x.natAbs := by omega
        simp only [List.mem_cons, ih ho.tail]
        constructor
        · rintro (rfl | h | ⟨w, hw, h⟩)
          · exact .inl ⟨.inl rfl, hyx⟩
          · exact .inl ⟨.inr h.1, h.2⟩
          · exact .inr ⟨w, .inr hw, h⟩
        · rintro (⟨rfl | hz, h⟩ | ⟨w, rfl | hw, h⟩)
          · exact .inl rfl
          · exact .inr (.inl ⟨hz, h⟩)
          · exact absurd h.1 hyx
          · exact .inr (.inr ⟨w, hw, h⟩)

/-- Deleting a live entry keeps the tail pointer right unless that entry is the
last of several. -/
theorem WellFormed.unlink (h : WellFormed t) {x : Int} (hx : ∃ z ∈ t.head, z.index = x)
    (hlast : ∀ z, t.head.getLast? = some z → z.index = x → t.head.length = 1) :
    WellFormed { t with head := unlink x t.head, size := t.size - 1 } := by
  have hlen := length_unlink hx
  refine ⟨h.toOrdered.sublist (unlink_sublist x _), ?_, fun z hz => ?_⟩
  · have := h.size
    dsimp only
    omega
  · have hz' : z ∈ EntityTable.unlink x t.head := List.mem_of_getLast? hz
    obtain ⟨hmem, hne⟩ := (mem_unlink h.toOrdered z).mp hz'
    obtain ⟨w, hw⟩ : ∃ w, t.head.getLast? = some w := ⟨_, List.getLast?_eq_some_getLast (List.ne_nil_of_mem hmem)⟩
    have hwmem : w ∈ EntityTable.unlink x t.head := by
      refine (mem_unlink h.toOrdered w).mpr ⟨List.mem_of_getLast? hw, fun he => ?_⟩
      have := hlast w hw he
      have : (EntityTable.unlink x t.head).length = 0 := by omega
      simp [List.length_eq_zero_iff.mp this] at hz'
    have h1 := h.toOrdered.le_last hw hmem
    have h2 := (h.toOrdered.sublist (unlink_sublist x _)).le_last hz hwmem
    have hwz : z = w := h.toOrdered.unique hmem (List.mem_of_getLast? hw) (by omega)
    exact hwz ▸ h.tail w hw

theorem WellFormed.retag (h : WellFormed t) {x i : Int} (hi : i.natAbs = x.natAbs) :
    WellFormed { t with head := retag x i t.head } :=
  h.congr (retag_key hi t.head) rfl rfl

end OiUserland.EntityMib.ListInvariant
