import OiUserland.Lib.CStrings
import OiUserland.Lib.Faults

namespace OiUserland.Xmu.ColormapEquivalence

open Lib.CStrings Lib.Faults

def INIT_LIST_SIZE : Nat := 100

/-- The value of the property: it is asked for with 8192 units of four bytes, and a
NUL is put behind what is received. -/
structure PropString where
  chars : List Char
  no_nul : '\x00' ∉ chars
  fits : chars.length ≤ 4 * 8192

abbrev Cells := List (Option Nat)

/-- What `pList` refers to: nothing that has been set, NULL, the caller's array, or a
block of its own. -/
inductive PList
  | unset
  | null
  | original
  | block (cells : Cells)

/-- An `int` of 32 bits. -/
def toInt (n : Int) : Int := n.bmod (2 ^ 32)

def getNextEntry (p : List Char) : Nat × List Char :=
  match strtoul p with
  | none => (0, p)
  | some r => r

def readNum (p : List Char) : Int × List Char := (toInt (getNextEntry p).1, (getNextEntry p).2)

def fillList (vidIn : Nat) (i : Nat) : Nat → List Char → Cells → Bool → Run (Cells × Bool × List Char)
  | 0, p, cells, foundIt => .ok (cells, foundIt, p)
  | n + 1, p, cells, foundIt =>
      match getNextEntry p with
      | (0, p) => .ok (cells, foundIt, p)
      | (vid, p) =>
          if i < cells.length then fillList vidIn (i + 1) n p (cells.set i (some vid)) (foundIt || vid == vidIn)
          else .error .badWrite

/-- The loop over the lists of the string. Each round takes a number from it, so its
length is enough fuel. A count of which one more is not greater than the size of the
array takes the array: the addition wraps around. -/
def buildList (alloc : Nat → Bool) (vidIn : Nat) : Nat → List Char → PList → Cells → Run (PList × Cells)
  | 0, p, pList, original => if (readNum p).1 = 0 then .ok (pList, original) else .error .endless
  | fuel + 1, p, pList, original =>
      match readNum p with
      | (num, p) =>
          if num = 0 then .ok (pList, original)
          else if INIT_LIST_SIZE < toInt (num + 1) then
            if alloc (num + 1).toNat = false then .ok (.null, original)
            else do
              let (cells, foundIt, p) ← fillList vidIn 0 num.toNat p (List.replicate (num + 1).toNat none) false
              if foundIt = true then .ok (.block (cells.set num.toNat (some 0)), original)
              else buildList alloc vidIn fuel p .null original
          else do
            let (cells, foundIt, p) ← fillList vidIn 0 num.toNat p original false
            if foundIt = true then
              if num.toNat < cells.length then .ok (.original, cells.set num.toNat (some 0))
              else .error .badWrite
            else buildList alloc vidIn fuel p .null cells

def searchList (v : Nat) : Cells → Run Bool
  | [] => .error .badRead
  | none :: _ => .error .badRead
  | some x :: cells => if x = 0 then .ok false else if x = v then .ok true else searchList v cells

/-- The list of a pointer is searched. NULL stands for an empty one. -/
def searchFor (v : Nat) : PList × Cells → Run Bool
  | (.unset, _) => .error .badRead
  | (.null, _) => .ok false
  | (.original, list) => searchList v list
  | (.block cells, _) => searchList v cells

def areEquiv (alloc : Nat → Bool) (pPropString : PropString) (v1 v2 : Nat) : Run Bool :=
  buildList alloc v1 pPropString.chars.length pPropString.chars .unset (List.replicate INIT_LIST_SIZE none) >>=
    searchFor v2

def readIds : Nat → List Char → List Nat × List Char
  | 0, p => ([], p)
  | n + 1, p =>
      match getNextEntry p with
      | (0, p) => ([], p)
      | (vid, p) =>
          let (ids, p) := readIds n p
          (vid :: ids, p)

def overlay (ids stale : List Nat) : List Nat := ids ++ stale.drop ids.length

structure Entry where
  num : Int
  ids : List Nat
  rest : List Char

def entryOf (r : Int × List Char) : Entry where
  num := r.1
  ids := (readIds r.1.toNat r.2).1
  rest := (readIds r.1.toNat r.2).2

def entryAt (p : List Char) : Entry := entryOf (readNum p)

def Entry.long (e : Entry) : Prop := INIT_LIST_SIZE < toInt (e.num + 1)

inductive Reached (alloc : Nat → Bool) (vidIn : Nat) (p' : List Char) (stale' : List Nat) :
    List Char → List Nat → Prop
  | here : Reached alloc vidIn p' stale' p' stale'
  | long {p : List Char} {stale : List Nat} (hnum : (entryAt p).num ≠ 0) (hlong : (entryAt p).long)
      (halloc : alloc ((entryAt p).num + 1).toNat = true) (hnot : vidIn ∉ (entryAt p).ids)
      (h : Reached alloc vidIn p' stale' (entryAt p).rest stale) : Reached alloc vidIn p' stale' p stale
  | short {p : List Char} {stale : List Nat} (hnum : (entryAt p).num ≠ 0) (hlong : ¬ (entryAt p).long)
      (hnot : vidIn ∉ (entryAt p).ids)
      (h : Reached alloc vidIn p' stale' (entryAt p).rest (overlay (entryAt p).ids stale)) :
      Reached alloc vidIn p' stale' p stale

structure Entry.Fits (e : Entry) (stale : List Nat) (v1 v2 : Nat) : Prop where
  room : ¬ e.long → e.ids.length ≤ INIT_LIST_SIZE
  filled_long : e.long → v1 ∈ e.ids → e.num ≤ e.ids.length ∨ v2 ∈ e.ids
  filled_short : ¬ e.long → v1 ∈ e.ids → e.num < INIT_LIST_SIZE ∧
    (e.num ≤ (overlay e.ids stale).length ∨ v2 ∈ (overlay e.ids stale).take e.num.toNat)

def Stores (alloc : Nat → Bool) (v1 v2 : Nat) (p : List Char) (stale : List Nat) : Prop :=
  (entryAt p).num ≠ 0 → ((entryAt p).long → alloc ((entryAt p).num + 1).toNat = true) → (entryAt p).Fits stale v1 v2

/-- The string begins with a list, and every list that is come to fits. -/
def Readable (alloc : Nat → Bool) (v1 v2 : Nat) (s : List Char) : Prop :=
  (entryAt s).num ≠ 0 ∧ ∀ p stale, Reached alloc v1 p stale s [] → Stores alloc v1 v2 p stale

inductive Ids : List Char → List Nat → Prop
  | nil : Ids [] []
  | cons {b t u : List Char} {vid : Nat} {ids : List Nat} (hb : b ≠ []) (hblank : ∀ x ∈ b, x = ' ' ∨ x = '\t')
      (ht : Numeral t vid) (hne : vid ≠ 0) (hle : vid ≤ ulongMax) (h : Ids u ids) : Ids (b ++ (t ++ u)) (vid :: ids)

/-- The format of the property: lists that are separated by newlines, each with the number
of its elements in front. -/
inductive WellFormed : List Char → List (List Nat) → Prop
  | done : WellFormed [] []
  | last {t u : List Char} {ids : List Nat} (ht : Numeral t ids.length) (hu : Ids u ids) : WellFormed (t ++ u) [ids]
  | line {t u s : List Char} {ids : List Nat} {lists : List (List Nat)} (ht : Numeral t ids.length) (hu : Ids u ids)
      (h : WellFormed s lists) : WellFormed (t ++ (u ++ '\n' :: s)) (ids :: lists)

def Usable (alloc : Nat → Bool) (ids : List Nat) : Prop :=
  ids ≠ [] ∧ (INIT_LIST_SIZE ≤ ids.length → alloc (ids.length + 1) = true)

instance (alloc : Nat → Bool) (ids : List Nat) : Decidable (Usable alloc ids) :=
  inferInstanceAs (Decidable (_ ∧ _))

/-- Two ids that occur in the same list are found there. -/
def Available (alloc : Nat → Bool) (v1 v2 : Nat) (lists : List (List Nat)) : Prop :=
  ∀ front l back, lists = front ++ l :: back → v1 ∈ l → v2 ∈ l → ∀ m ∈ front ++ [l], Usable alloc m

section Reading

variable {p : List Char} {vidIn n i : Nat}

theorem getNextEntry_length (h : (getNextEntry p).1 ≠ 0) : (getNextEntry p).2.length < p.length := by
  unfold getNextEntry at h ⊢
  split
  · rename_i hnone
    rw [hnone] at h
    exact absurd rfl h
  · rename_i r hsome
    exact strtoul_length hsome

theorem getNextEntry_length_le (p : List Char) : (getNextEntry p).2.length ≤ p.length := by
  unfold getNextEntry
  split
  · exact Nat.le_refl _
  · rename_i r hsome
    exact Nat.le_of_lt (strtoul_length hsome)

theorem toInt_zero : toInt 0 = 0 := by decide

theorem readNum_length (h : (readNum p).1 ≠ 0) : (readNum p).2.length < p.length := by
  apply getNextEntry_length
  intro h0
  rw [readNum, h0] at h
  exact h toInt_zero

theorem readIds_rest_length (n : Nat) (p : List Char) : (readIds n p).2.length ≤ p.length := by
  induction n generalizing p with
  | zero => exact Nat.le_refl _
  | succ n ih =>
      have hp := getNextEntry_length_le p
      rw [readIds]
      split
      · rename_i q heq
        rw [heq] at hp
        exact hp
      · rename_i vid q hvid heq
        rw [heq] at hp
        exact Nat.le_trans (ih q) hp

theorem readIds_length (n : Nat) (p : List Char) : (readIds n p).1.length ≤ n := by
  induction n generalizing p with
  | zero => exact Nat.le_refl _
  | succ n ih =>
      rw [readIds]
      split
      · exact Nat.zero_le _
      · exact Nat.succ_le_succ (ih _)

theorem readIds_ne_zero (n : Nat) (p : List Char) : ∀ vid ∈ (readIds n p).1, vid ≠ 0 := by
  induction n generalizing p with
  | zero => exact fun vid h => absurd h List.not_mem_nil
  | succ n ih =>
      rw [readIds]
      split
      · exact fun vid h => absurd h List.not_mem_nil
      · rename_i v q hv heq
        intro vid h
        rcases List.mem_cons.mp h with rfl | h
        · intro h0
          exact hv h0
        · exact ih q vid h

theorem entryOf_num (r : Int × List Char) : (entryOf r).num = r.1 := rfl

theorem entryOf_rest_length (r : Int × List Char) : (entryOf r).rest.length ≤ r.2.length :=
  readIds_rest_length r.1.toNat r.2

theorem entryAt_rest_length (h : (entryAt p).num ≠ 0) : (entryAt p).rest.length < p.length := by
  rw [entryAt, entryOf_num] at h
  exact Nat.lt_of_le_of_lt (entryOf_rest_length (readNum p)) (readNum_length h)

theorem fillList_eq (vidIn i n : Nat) (p : List Char) (cells : Cells) (foundIt : Bool) (hi : i ≤ cells.length) :
    fillList vidIn i n p cells foundIt =
      if i + (readIds n p).1.length ≤ cells.length then
        .ok (cells.take i ++ ((readIds n p).1.map some ++ cells.drop (i + (readIds n p).1.length)),
          foundIt || decide (vidIn ∈ (readIds n p).1), (readIds n p).2)
      else .error .badWrite := by
  induction n generalizing i p cells foundIt with
  | zero => simp [fillList, readIds, hi]
  | succ n ih =>
      rcases hq : getNextEntry p with ⟨_ | vid, q⟩
      · simp [fillList, readIds, hq, hi]
      · simp only [fillList, readIds, hq]
        by_cases hlt : i < cells.length
        · rw [if_pos hlt, ih (i + 1) q _ _ (by rw [List.length_set]; exact hlt), List.length_set, List.length_cons]
          have hcount : i + 1 + (readIds n q).1.length = i + ((readIds n q).1.length + 1) := by omega
          have htake : (cells.set i (some (vid + 1))).take (i + 1) = cells.take i ++ [some (vid + 1)] := by
            rw [List.take_add_one, List.take_set_of_le (Nat.le_refl i), List.getElem?_set_self hlt]
            rfl
          have hdrop : (cells.set i (some (vid + 1))).drop (i + ((readIds n q).1.length + 1)) =
              cells.drop (i + ((readIds n q).1.length + 1)) := List.drop_set_of_lt (by omega)
          have hfound : (foundIt || vid + 1 == vidIn || decide (vidIn ∈ (readIds n q).1)) =
              (foundIt || decide (vidIn ∈ (vid + 1) :: (readIds n q).1)) := by
            rw [Bool.or_assoc]
            congr 1
            rw [Bool.eq_iff_iff, Bool.or_eq_true, beq_iff_eq, decide_eq_true_eq, decide_eq_true_eq, List.mem_cons,
              eq_comm]
          rw [hcount, htake, hdrop, hfound]
          simp only [List.map_cons, List.append_assoc, List.cons_append, List.nil_append]
        · rw [if_neg hlt, if_neg]
          rw [List.length_cons]
          omega

end Reading

def stored (l : List Nat) (n : Nat) : Cells := l.map some ++ List.replicate (n - l.length) none

section Cells

variable {l ids : List Nat} {n k v : Nat}

theorem stored_length (h : l.length ≤ n) : (stored l n).length = n := by
  rw [stored, List.length_append, List.length_map, List.length_replicate]
  omega

theorem overlay_length (ids stale : List Nat) : (overlay ids stale).length = max ids.length stale.length := by
  rw [overlay, List.length_append, List.length_drop]
  omega

theorem stored_overlay (ids l : List Nat) (n : Nat) :
    ids.map some ++ (stored l n).drop ids.length = stored (overlay ids l) n := by
  have hcount : n - l.length - (ids.length - l.length) = n - max ids.length l.length := by omega
  rw [stored, List.drop_append, List.length_map, List.drop_replicate, hcount, ← List.map_drop, stored, overlay_length,
    overlay, List.map_append, List.append_assoc]

theorem searchList_stored (hl : ∀ x ∈ l, x ≠ 0) (hk : k < n) :
    searchList v ((stored l n).set k (some 0)) =
      if v ∈ l.take k then .ok true else if k ≤ l.length then .ok false else .error .badRead := by
  induction l generalizing n k with
  | nil =>
      obtain ⟨n, rfl⟩ := Nat.exists_eq_succ_of_ne_zero (n := n) (by omega)
      cases k with
      | zero => rfl
      | succ k => rfl
  | cons x l ih =>
      obtain ⟨n, rfl⟩ := Nat.exists_eq_succ_of_ne_zero (n := n) (by omega)
      have hstored : stored (x :: l) (n + 1) = some x :: stored l n := by
        rw [stored, List.length_cons, Nat.add_sub_add_right]
        rfl
      have hx := hl x (List.mem_cons_self ..)
      rw [hstored]
      cases k with
      | zero => rfl
      | succ k =>
          rw [List.set_cons_succ, searchList, if_neg hx, List.take_succ_cons]
          by_cases hv : x = v
          · rw [if_pos hv, if_pos (hv ▸ List.mem_cons_self ..)]
          · have hmem : v ∈ x :: l.take k ↔ v ∈ l.take k := by
              rw [List.mem_cons]
              exact ⟨fun h => h.resolve_left fun h' => hv h'.symm, .inr⟩
            rw [if_neg hv, ih (fun y hy => hl y (List.mem_cons_of_mem _ hy)) (by omega)]
            simp only [hmem, List.length_cons, Nat.add_le_add_iff_right]

end Cells

def buildAndSearch (alloc : Nat → Bool) (v1 v2 fuel : Nat) (p : List Char) (pList : PList) (stale : List Nat) :
    Run Bool :=
  buildList alloc v1 fuel p pList (stored stale INIT_LIST_SIZE) >>= searchFor v2

theorem replicate_eq_stored (n : Nat) : List.replicate n none = stored [] n := rfl

section Rounds

variable {alloc : Nat → Bool} {v1 v2 fuel : Nat} {p q rest : List Char} {pList : PList} {stale ids : List Nat}
  {num : Int}

theorem entryAt_eq (hr : readNum p = (num, q)) (hi : readIds num.toNat q = (ids, rest)) :
    entryAt p = ⟨num, ids, rest⟩ := by
  rw [entryAt, hr, entryOf]
  dsimp only
  rw [hi]

theorem build_end (hr : readNum p = (num, q)) (h : num = 0) : buildAndSearch alloc v1 v2 fuel p pList stale =
    searchFor v2 (pList, stored stale INIT_LIST_SIZE) := by
  cases fuel with
  | zero =>
      simp only [buildAndSearch, buildList, hr, if_pos h]
      rfl
  | succ fuel =>
      simp only [buildAndSearch, buildList, hr, if_pos h]
      rfl

theorem build_refused (hr : readNum p = (num, q)) (h : num ≠ 0) (hlong : INIT_LIST_SIZE < toInt (num + 1))
    (halloc : alloc (num + 1).toNat = false) : buildAndSearch alloc v1 v2 (fuel + 1) p pList stale = .ok false := by
  simp only [buildAndSearch, buildList, hr, if_neg h, if_pos hlong, if_pos halloc]
  rfl

theorem build_long (hr : readNum p = (num, q)) (hi : readIds num.toNat q = (ids, rest)) (h : num ≠ 0)
    (hlong : INIT_LIST_SIZE < toInt (num + 1)) (halloc : alloc (num + 1).toNat = true) :
    buildAndSearch alloc v1 v2 (fuel + 1) p pList stale =
      if v1 ∈ ids then searchList v2 ((stored ids (num + 1).toNat).set num.toNat (some 0))
      else buildAndSearch alloc v1 v2 fuel rest .null stale := by
  have halloc' : ¬ alloc (num + 1).toNat = false := fun hfalse => Bool.false_ne_true (hfalse.symm.trans halloc)
  have hids := readIds_length num.toNat q
  have hfill := fillList_eq v1 0 num.toNat q (stored [] (num + 1).toNat) false (Nat.zero_le _)
  rw [hi] at hids hfill
  dsimp only at hids hfill
  rw [stored_length (Nat.zero_le _), if_pos (by omega), Nat.zero_add, List.take_zero, List.nil_append, stored_overlay,
    overlay, List.drop_nil, List.append_nil, Bool.false_or] at hfill
  rw [buildAndSearch, buildList, hr]
  dsimp only
  rw [if_neg h, if_pos hlong, if_neg halloc', replicate_eq_stored, hfill]
  by_cases hmem : v1 ∈ ids
  · rw [decide_eq_true hmem, if_pos hmem]
    rfl
  · rw [decide_eq_false hmem, if_neg hmem]
    rfl

theorem build_short (hr : readNum p = (num, q)) (hi : readIds num.toNat q = (ids, rest)) (h : num ≠ 0)
    (hlong : ¬ INIT_LIST_SIZE < toInt (num + 1)) (hstale : stale.length ≤ INIT_LIST_SIZE) :
    buildAndSearch alloc v1 v2 (fuel + 1) p pList stale =
      if ids.length ≤ INIT_LIST_SIZE then
        if v1 ∈ ids then
          if num.toNat < INIT_LIST_SIZE then
            searchList v2 ((stored (overlay ids stale) INIT_LIST_SIZE).set num.toNat (some 0))
          else .error .badWrite
        else buildAndSearch alloc v1 v2 fuel rest .null (overlay ids stale)
      else .error .badWrite := by
  have hfill := fillList_eq v1 0 num.toNat q (stored stale INIT_LIST_SIZE) false (Nat.zero_le _)
  rw [hi] at hfill
  dsimp only at hfill
  rw [stored_length hstale, Nat.zero_add, List.take_zero, List.nil_append, stored_overlay, Bool.false_or] at hfill
  rw [buildAndSearch, buildList, hr]
  dsimp only
  rw [if_neg h, if_neg hlong, hfill]
  by_cases hids : ids.length ≤ INIT_LIST_SIZE
  · have hover : (stored (overlay ids stale) INIT_LIST_SIZE).length = INIT_LIST_SIZE := by
      apply stored_length
      rw [overlay_length]
      omega
    rw [if_pos hids, if_pos hids]
    by_cases hmem : v1 ∈ ids
    · rw [decide_eq_true hmem, if_pos hmem]
      change (if num.toNat < (stored (overlay ids stale) INIT_LIST_SIZE).length then
        (.ok (.original, (stored (overlay ids stale) INIT_LIST_SIZE).set num.toNat (some 0)) : Run (PList × Cells))
        else .error .badWrite) >>= searchFor v2 = _
      rw [hover]
      by_cases hlast : num.toNat < INIT_LIST_SIZE
      · rw [if_pos hlast, if_pos hlast]
        rfl
      · rw [if_neg hlast, if_neg hlast]
        rfl
    · rw [decide_eq_false hmem, if_neg hmem]
      rfl
  · rw [if_neg hids, if_neg hids]
    rfl

structure Kept (stale : List Nat) : Prop where
  room : stale.length ≤ INIT_LIST_SIZE
  ne_zero : ∀ vid ∈ stale, vid ≠ 0

theorem Kept.overlay (h : Kept stale) (hids : ids.length ≤ INIT_LIST_SIZE) (hne : ∀ vid ∈ ids, vid ≠ 0) :
    Kept (overlay ids stale) where
  room := by
    rw [overlay_length]
    exact max_le hids h.room
  ne_zero := by
    intro vid hvid
    rcases List.mem_append.mp hvid with hvid | hvid
    · exact hne vid hvid
    · exact h.ne_zero vid (List.mem_of_mem_drop hvid)

theorem searchList_ok {l : List Nat} {n k : Nat} (hl : ∀ x ∈ l, x ≠ 0) (hk : k < n) :
    (∃ b, searchList v2 ((stored l n).set k (some 0)) = .ok b) ↔ k ≤ l.length ∨ v2 ∈ l.take k := by
  rw [searchList_stored hl hk]
  by_cases hmem : v2 ∈ l.take k
  · rw [if_pos hmem]
    exact ⟨fun _ => .inr hmem, fun _ => ⟨true, rfl⟩⟩
  · rw [if_neg hmem]
    by_cases hlen : k ≤ l.length
    · rw [if_pos hlen]
      exact ⟨fun _ => .inl hlen, fun _ => ⟨false, rfl⟩⟩
    · rw [if_neg hlen]
      refine ⟨fun h => ?_, fun h => absurd h (not_or.mpr ⟨hlen, hmem⟩)⟩
      obtain ⟨b, hb⟩ := h
      cases hb

theorem stores_of_not (h : ¬ ((entryAt p).num ≠ 0 ∧ ((entryAt p).long → alloc ((entryAt p).num + 1).toNat = true))) :
    Stores alloc v1 v2 p stale := by
  intro hnum halloc
  exact absurd (And.intro hnum halloc) h

theorem stores_iff (hnum : (entryAt p).num ≠ 0)
    (halloc : (entryAt p).long → alloc ((entryAt p).num + 1).toNat = true) :
    Stores alloc v1 v2 p stale ↔ (entryAt p).Fits stale v1 v2 := by
  rw [Stores, imp_iff_right hnum, imp_iff_right halloc]

theorem fits_long (h : (entryAt p).long) : (entryAt p).Fits stale v1 v2 ↔
    (v1 ∈ (entryAt p).ids → (entryAt p).num ≤ (entryAt p).ids.length ∨ v2 ∈ (entryAt p).ids) :=
  ⟨fun hfits => hfits.filled_long h, fun hlong => ⟨fun hs => absurd h hs, fun _ => hlong, fun hs => absurd h hs⟩⟩

theorem fits_short (h : ¬ (entryAt p).long) : (entryAt p).Fits stale v1 v2 ↔
    (entryAt p).ids.length ≤ INIT_LIST_SIZE ∧ (v1 ∈ (entryAt p).ids → (entryAt p).num < INIT_LIST_SIZE ∧
      ((entryAt p).num ≤ (overlay (entryAt p).ids stale).length ∨
        v2 ∈ (overlay (entryAt p).ids stale).take (entryAt p).num.toNat)) :=
  ⟨fun hfits => ⟨hfits.room h, hfits.filled_short h⟩,
    fun hs => ⟨fun _ => hs.1, fun hl => absurd hl h, fun _ => hs.2⟩⟩

section Places

variable {P : List Char → List Nat → Prop}

theorem reached_last (h : (entryAt p).num ≠ 0 → ((entryAt p).long → alloc ((entryAt p).num + 1).toNat = true) →
    v1 ∈ (entryAt p).ids) : (∀ p' stale', Reached alloc v1 p' stale' p stale → P p' stale') ↔ P p stale := by
  refine ⟨fun hall => hall p stale .here, fun hP p' stale' hreach => ?_⟩
  cases hreach with
  | here => exact hP
  | long hnum hlong halloc hnot _ => exact absurd (h hnum fun _ => halloc) hnot
  | short hnum hlong hnot _ => exact absurd (h hnum fun hl => absurd hl hlong) hnot

theorem reached_long (hnum : (entryAt p).num ≠ 0) (hlong : (entryAt p).long)
    (halloc : alloc ((entryAt p).num + 1).toNat = true) (hnot : v1 ∉ (entryAt p).ids) :
    (∀ p' stale', Reached alloc v1 p' stale' p stale → P p' stale') ↔
      P p stale ∧ ∀ p' stale', Reached alloc v1 p' stale' (entryAt p).rest stale → P p' stale' := by
  constructor
  · intro hall
    exact ⟨hall p stale .here, fun p' stale' h => hall p' stale' (.long hnum hlong halloc hnot h)⟩
  · rintro ⟨hP, hrest⟩ p' stale' hreach
    cases hreach with
    | here => exact hP
    | long _ _ _ _ h => exact hrest p' stale' h
    | short _ hshort _ _ => exact absurd hlong hshort

theorem reached_short (hnum : (entryAt p).num ≠ 0) (hlong : ¬ (entryAt p).long) (hnot : v1 ∉ (entryAt p).ids) :
    (∀ p' stale', Reached alloc v1 p' stale' p stale → P p' stale') ↔
      P p stale ∧ ∀ p' stale', Reached alloc v1 p' stale' (entryAt p).rest (overlay (entryAt p).ids stale) →
        P p' stale' := by
  constructor
  · intro hall
    exact ⟨hall p stale .here, fun p' stale' h => hall p' stale' (.short hnum hlong hnot h)⟩
  · rintro ⟨hP, hrest⟩ p' stale' hreach
    cases hreach with
    | here => exact hP
    | long _ h _ _ _ => exact absurd h hlong
    | short _ _ _ h => exact hrest p' stale' h

end Places

theorem end_ok_iff (hnum : (entryAt p).num = 0) :
    (∃ b, buildAndSearch alloc v1 v2 fuel p .null stale = .ok b) ↔
      ∀ p' stale', Reached alloc v1 p' stale' p stale → Stores alloc v1 v2 p' stale' := by
  rcases hr : readNum p with ⟨num, q⟩
  rcases hi : readIds num.toNat q with ⟨ids, rest⟩
  have he := entryAt_eq hr hi
  have hzero : num = 0 := by
    rw [he] at hnum
    exact hnum
  rw [build_end hr hzero, reached_last fun h => absurd hnum h]
  exact ⟨fun _ => stores_of_not fun h => h.1 hnum, fun _ => ⟨false, rfl⟩⟩

theorem build_ok_iff (hstale : Kept stale) (hfuel : p.length ≤ fuel) (hset : (entryAt p).num = 0 → pList = .null) :
    (∃ b, buildAndSearch alloc v1 v2 fuel p pList stale = .ok b) ↔
      ∀ p' stale', Reached alloc v1 p' stale' p stale → Stores alloc v1 v2 p' stale' := by
  induction fuel generalizing p pList stale with
  | zero =>
      by_cases hzero : (entryAt p).num = 0
      · rw [hset hzero, end_ok_iff hzero]
      · have := entryAt_rest_length hzero
        omega
  | succ fuel ih =>
      by_cases hzero : (entryAt p).num = 0
      · rw [hset hzero, end_ok_iff hzero]
      have hrest := entryAt_rest_length hzero
      rcases hr : readNum p with ⟨num, q⟩
      rcases hi : readIds num.toNat q with ⟨ids, rest⟩
      have he := entryAt_eq hr hi
      have hids := readIds_length num.toNat q
      have hne := readIds_ne_zero num.toNat q
      rw [hi] at hids hne
      dsimp only at hids hne
      have hnum : num ≠ 0 := by
        rw [he] at hzero
        exact hzero
      have hrest' : (entryAt p).rest.length ≤ fuel := by omega
      by_cases hlong : (entryAt p).long
      · have hlong' : INIT_LIST_SIZE < toInt (num + 1) := by
          rw [he] at hlong
          exact hlong
        cases halloc : alloc (num + 1).toNat with
        | false =>
            have hstop : ¬ ((entryAt p).long → alloc ((entryAt p).num + 1).toNat = true) := by
              intro h
              have h' := h hlong
              rw [he] at h'
              exact Bool.false_ne_true (halloc.symm.trans h')
            rw [build_refused hr hnum hlong' halloc, reached_last fun _ h => absurd h hstop]
            exact ⟨fun _ => stores_of_not fun h => hstop h.2, fun _ => ⟨false, rfl⟩⟩
        | true =>
            have halloc' : alloc ((entryAt p).num + 1).toNat = true := by
              rw [he]
              exact halloc
            have hstores : Stores alloc v1 v2 p stale ↔ (v1 ∈ ids → num ≤ ids.length ∨ v2 ∈ ids) := by
              rw [stores_iff hzero fun _ => halloc', fits_long hlong, he]
            rw [build_long hr hi hnum hlong' halloc]
            by_cases hmem : v1 ∈ ids
            · have hpos := List.length_pos_of_mem hmem
              have hlast : num.toNat < (num + 1).toNat := by omega
              rw [if_pos hmem, searchList_ok hne hlast, List.take_of_length_le hids,
                reached_last fun _ _ => by rw [he]; exact hmem, hstores, imp_iff_right hmem]
              exact or_congr_left Int.toNat_le
            · have hmem' : v1 ∉ (entryAt p).ids := by
                rw [he]
                exact hmem
              rw [if_neg hmem, reached_long hzero hlong halloc' hmem', hstores,
                and_iff_right fun h => absurd h hmem]
              rw [he] at hrest' ⊢
              exact ih hstale hrest' fun _ => rfl
      · have hlong' : ¬ INIT_LIST_SIZE < toInt (num + 1) := by
          rw [he] at hlong
          exact hlong
        have hstores : Stores alloc v1 v2 p stale ↔ ids.length ≤ INIT_LIST_SIZE ∧ (v1 ∈ ids → num < INIT_LIST_SIZE ∧
            (num ≤ (overlay ids stale).length ∨ v2 ∈ (overlay ids stale).take num.toNat)) := by
          rw [stores_iff hzero fun hl => absurd hl hlong, fits_short hlong, he]
        rw [build_short hr hi hnum hlong' hstale.room]
        by_cases hroom : ids.length ≤ INIT_LIST_SIZE
        swap
        · rw [if_neg hroom]
          refine ⟨fun h => ?_, fun h => absurd (hstores.mp (h p stale .here)).1 hroom⟩
          obtain ⟨b, hb⟩ := h
          cases hb
        have hkept := hstale.overlay hroom hne
        rw [if_pos hroom]
        by_cases hmem : v1 ∈ ids
        · rw [if_pos hmem, reached_last fun _ _ => by rw [he]; exact hmem, hstores, and_iff_right hroom,
            imp_iff_right hmem]
          by_cases hlast : num.toNat < INIT_LIST_SIZE
          · have hlast' : num < INIT_LIST_SIZE := by
              have hpos := List.length_pos_of_mem hmem
              omega
            rw [if_pos hlast, searchList_ok hkept.ne_zero hlast, and_iff_right hlast']
            exact or_congr_left Int.toNat_le
          · rw [if_neg hlast]
            have hlast' : ¬ num < INIT_LIST_SIZE := by
              have hpos := List.length_pos_of_mem hmem
              omega
            refine ⟨fun h => ?_, fun h => absurd h.1 hlast'⟩
            obtain ⟨b, hb⟩ := h
            cases hb
        · have hmem' : v1 ∉ (entryAt p).ids := by
            rw [he]
            exact hmem
          rw [if_neg hmem, reached_short hzero hlong hmem', hstores,
            and_iff_right (And.intro hroom fun h => absurd h hmem)]
          rw [he] at hrest' ⊢
          exact ih hkept hrest' fun _ => rfl

theorem areEquiv_ok_iff (s : PropString) :
    (∃ b, areEquiv alloc s v1 v2 = .ok b) ↔ Readable alloc v1 v2 s.chars := by
  have hrun : areEquiv alloc s v1 v2 = buildAndSearch alloc v1 v2 s.chars.length s.chars .unset [] := rfl
  rw [hrun, Readable]
  by_cases hzero : (entryAt s.chars).num = 0
  · refine ⟨fun h => ?_, fun h => absurd hzero h.1⟩
    rcases hr : readNum s.chars with ⟨num, q⟩
    rw [entryAt, entryOf_num, hr] at hzero
    rw [build_end hr hzero] at h
    obtain ⟨b, hb⟩ := h
    cases hb
  · rw [and_iff_right hzero]
    exact build_ok_iff ⟨Nat.zero_le _, nofun⟩ (Nat.le_refl _) fun h => absurd h hzero

end Rounds

def answer (alloc : Nat → Bool) (v1 v2 : Nat) : List (List Nat) → Bool
  | [] => false
  | ids :: lists =>
      if Usable alloc ids then if v1 ∈ ids then decide (v2 ∈ ids) else answer alloc v1 v2 lists else false

section Texts

variable {alloc : Nat → Bool} {v1 v2 fuel n : Nat} {b t u s rest : List Char} {pList : PList} {stale ids : List Nat}
  {lists : List (List Nat)} {r : Bool}

theorem toInt_of_lt (h : n < 2 ^ 31) : toInt n = n := by
  apply Int.bmod_eq_of_le_mul_two
  · omega
  · omega

theorem getNextEntry_text (hb : ∀ x ∈ b, isSpace x = true) (ht : Numeral t n) (hn : n ≤ ulongMax)
    (hrest : Ends rest) : getNextEntry (b ++ (t ++ rest)) = (n, rest) := by
  rw [getNextEntry, strtoul_numeral hb ht hn hrest]

theorem readNum_text (hb : ∀ x ∈ b, isSpace x = true) (ht : Numeral t n) (hn : n < 2 ^ 31) (hrest : Ends rest) :
    readNum (b ++ (t ++ rest)) = ((n : Int), rest) := by
  have hle : n ≤ ulongMax := by
    rw [ulongMax]
    omega
  rw [readNum, getNextEntry_text hb ht hle hrest, toInt_of_lt hn]

theorem Ids.ends (hu : Ids u ids) (hrest : Ends rest) : Ends (u ++ rest) := by
  cases hu with
  | nil => exact hrest
  | @cons b t u vid ids hb hblank ht hne hle h =>
      obtain ⟨x, b, rfl⟩ := List.exists_cons_of_ne_nil hb
      intro y hy
      obtain rfl : x = y := Option.some.inj hy
      rcases hblank x (List.mem_cons_self ..) with rfl | rfl
      · decide
      · decide

theorem Ids.length_le (hu : Ids u ids) : ids.length ≤ u.length := by
  induction hu with
  | nil => exact Nat.le_refl _
  | cons hb hblank ht hne hle h ih =>
      have hpos := List.length_pos_iff.mpr hb
      rw [List.length_cons, List.length_append, List.length_append]
      omega

theorem readIds_text (hu : Ids u ids) (hrest : Ends rest) : readIds ids.length (u ++ rest) = (ids, rest) := by
  induction hu with
  | nil => rfl
  | @cons b t u vid ids hb hblank ht hne hle h ih =>
      have hspace : ∀ x ∈ b, isSpace x = true := by
        intro x hx
        rcases hblank x hx with rfl | rfl
        · decide
        · decide
      obtain ⟨k, rfl⟩ := Nat.exists_eq_succ_of_ne_zero hne
      have hnext := getNextEntry_text hspace ht hle (h.ends hrest)
      rw [List.append_assoc, List.append_assoc, List.length_cons, readIds, hnext]
      change (k.succ :: (readIds ids.length (u ++ rest)).1, (readIds ids.length (u ++ rest)).2) = _
      rw [ih]

theorem searchList_whole {l : List Nat} {k : Nat} (hl : ∀ x ∈ l, x ≠ 0) (hk : k < n) (hlen : k ≤ l.length)
    (htake : l.take k = ids) : searchList v2 ((stored l n).set k (some 0)) = .ok (decide (v2 ∈ ids)) := by
  rw [searchList_stored hl hk, htake, if_pos hlen]
  by_cases hmem : v2 ∈ ids
  · rw [if_pos hmem, decide_eq_true hmem]
  · rw [if_neg hmem, decide_eq_false hmem]

theorem build_text (hb : ∀ x ∈ b, isSpace x = true) (ht : Numeral t ids.length) (hu : Ids u ids) (hrest : Ends rest)
    (hlen : (b ++ (t ++ (u ++ rest))).length ≤ 4 * 8192) (hfuel : (b ++ (t ++ (u ++ rest))).length ≤ fuel)
    (hstale : Kept stale) (hp : pList = .unset ∨ pList = .null)
    (hrun : buildAndSearch alloc v1 v2 fuel (b ++ (t ++ (u ++ rest))) pList stale = .ok r) :
    (¬ Usable alloc ids ∧ r = false) ∨ (Usable alloc ids ∧ v1 ∈ ids ∧ r = decide (v2 ∈ ids)) ∨
      (Usable alloc ids ∧ v1 ∉ ids ∧ ∃ fuel' stale', Kept stale' ∧ rest.length ≤ fuel' ∧
        buildAndSearch alloc v1 v2 fuel' rest .null stale' = .ok r) := by
  have hul := hu.length_le
  obtain ⟨d, t', rfl, -⟩ := ht.head_eq
  simp only [List.length_append, List.length_cons] at hlen hfuel
  have hr := readNum_text hb ht (by omega) (hu.ends hrest)
  have hi : readIds (ids.length : Int).toNat (u ++ rest) = (ids, rest) := by
    rw [Int.toNat_natCast]
    exact readIds_text hu hrest
  have hne := readIds_ne_zero (ids.length : Int).toNat (u ++ rest)
  rw [hi] at hne
  dsimp only at hne
  have hint : toInt ((ids.length : Int) + 1) = (ids.length : Int) + 1 := by
    have h := toInt_of_lt (n := ids.length + 1) (by omega)
    rw [Int.natCast_succ] at h
    exact h
  have htake : ((ids.length : Int) + 1).toNat = ids.length + 1 := by omega
  by_cases hnil : ids = []
  · refine .inl ⟨fun h => h.1 hnil, ?_⟩
    have hzero : (ids.length : Int) = 0 := by
      rw [hnil]
      rfl
    rw [build_end hr hzero] at hrun
    rcases hp with rfl | rfl
    · cases hrun
    · cases hrun
      rfl
  have hpos := List.length_pos_iff.mpr hnil
  have hnum : (ids.length : Int) ≠ 0 := by omega
  obtain ⟨fuel, rfl⟩ := Nat.exists_eq_succ_of_ne_zero (n := fuel) (by omega)
  by_cases hlong : INIT_LIST_SIZE ≤ ids.length
  · have hlong' : INIT_LIST_SIZE < toInt ((ids.length : Int) + 1) := by
      rw [hint]
      omega
    cases halloc : alloc ((ids.length : Int) + 1).toNat with
    | false =>
        rw [build_refused hr hnum hlong' halloc] at hrun
        refine .inl ⟨fun h => ?_, (Except.ok.inj hrun).symm⟩
        rw [htake] at halloc
        exact Bool.false_ne_true (halloc.symm.trans (h.2 hlong))
    | true =>
        have husable : Usable alloc ids := by
          rw [htake] at halloc
          exact ⟨hnil, fun _ => halloc⟩
        rw [build_long hr hi hnum hlong' halloc, htake, Int.toNat_natCast] at hrun
        by_cases hmem : v1 ∈ ids
        · rw [if_pos hmem, searchList_whole hne (Nat.lt_succ_self _) (Nat.le_refl _) List.take_length] at hrun
          exact .inr (.inl ⟨husable, hmem, (Except.ok.inj hrun).symm⟩)
        · rw [if_neg hmem] at hrun
          exact .inr (.inr ⟨husable, hmem, fuel, stale, hstale, by omega, hrun⟩)
  · have hlong' : ¬ INIT_LIST_SIZE < toInt ((ids.length : Int) + 1) := by
      rw [hint]
      omega
    have husable : Usable alloc ids := ⟨hnil, fun h => absurd h hlong⟩
    have hroom : ids.length ≤ INIT_LIST_SIZE := by omega
    have hkept := hstale.overlay hroom hne
    rw [build_short hr hi hnum hlong' hstale.room, if_pos hroom] at hrun
    by_cases hmem : v1 ∈ ids
    · have hall : ids.length ≤ (overlay ids stale).length := by
        rw [overlay_length]
        exact le_max_left _ _
      rw [if_pos hmem, Int.toNat_natCast, if_pos (by omega),
        searchList_whole hkept.ne_zero (by omega) hall List.take_left] at hrun
      exact .inr (.inl ⟨husable, hmem, (Except.ok.inj hrun).symm⟩)
    · rw [if_neg hmem] at hrun
      exact .inr (.inr ⟨husable, hmem, fuel, _, hkept, by omega, hrun⟩)

theorem answer_cons (h : (¬ Usable alloc ids ∧ r = false) ∨ (Usable alloc ids ∧ v1 ∈ ids ∧ r = decide (v2 ∈ ids)) ∨
    (Usable alloc ids ∧ v1 ∉ ids ∧ r = answer alloc v1 v2 lists)) : r = answer alloc v1 v2 (ids :: lists) := by
  rw [answer]
  rcases h with ⟨hu, hr⟩ | ⟨hu, hmem, hr⟩ | ⟨hu, hmem, hr⟩
  · rw [if_neg hu, hr]
  · rw [if_pos hu, if_pos hmem, hr]
  · rw [if_pos hu, if_neg hmem, hr]

theorem ends_nil : Ends [] := nofun

theorem ends_newline (s : List Char) : Ends ('\n' :: s) := by
  intro x hx
  obtain rfl : '\n' = x := Option.some.inj hx
  decide

theorem build_blank (hb : ∀ x ∈ b, isSpace x = true) (hp : pList = .unset ∨ pList = .null)
    (hrun : buildAndSearch alloc v1 v2 fuel b pList stale = .ok r) : r = false := by
  have hr : readNum b = (toInt (0 : Nat), b) := by
    rw [readNum, getNextEntry, strtoul_blank hb]
  rw [build_end hr toInt_zero] at hrun
  rcases hp with rfl | rfl
  · cases hrun
  · cases hrun
    rfl

theorem build_answer (h : WellFormed s lists) (hb : ∀ x ∈ b, isSpace x = true) (hlen : (b ++ s).length ≤ 4 * 8192)
    (hfuel : (b ++ s).length ≤ fuel) (hstale : Kept stale) (hp : pList = .unset ∨ pList = .null)
    (hrun : buildAndSearch alloc v1 v2 fuel (b ++ s) pList stale = .ok r) : r = answer alloc v1 v2 lists := by
  induction h generalizing b fuel pList stale with
  | done =>
      rw [List.append_nil] at hrun
      exact build_blank hb hp hrun
  | @last t u ids ht hu =>
      rw [← List.append_nil u] at hlen hfuel hrun
      apply answer_cons
      refine (build_text hb ht hu ends_nil hlen hfuel hstale hp hrun).imp_right (Or.imp_right ?_)
      rintro ⟨husable, hmem, fuel', stale', -, -, hrest⟩
      exact ⟨husable, hmem, build_blank (by simp) (.inr rfl) hrest⟩
  | @line t u s ids lists ht hu h ih =>
      apply answer_cons
      refine (build_text hb ht hu (ends_newline s) hlen hfuel hstale hp hrun).imp_right (Or.imp_right ?_)
      rintro ⟨husable, hmem, fuel', stale', hkept, hfuel', hrest⟩
      refine ⟨husable, hmem, ih (b := ['\n']) ?_ ?_ hfuel' hkept (.inr rfl) hrest⟩
      · intro x hx
        rw [List.mem_singleton.mp hx]
        decide
      · simp only [List.length_append, List.length_cons, List.length_nil] at hlen ⊢
        omega

theorem answer_append {front back : List (List Nat)} {l : List Nat} (hfront : ∀ m ∈ front, v1 ∉ m) (h1 : v1 ∈ l)
    (h2 : v2 ∈ l) : answer alloc v1 v2 (front ++ l :: back) = true ↔ ∀ m ∈ front ++ [l], Usable alloc m := by
  induction front with
  | nil =>
      rw [List.nil_append, List.nil_append, answer, if_pos h1, decide_eq_true h2]
      simp
  | cons m front ih =>
      have hnot := hfront m (List.mem_cons_self ..)
      have ih := ih fun m' hm' => hfront m' (List.mem_cons_of_mem _ hm')
      rw [List.cons_append, answer, if_neg hnot, List.cons_append, List.forall_mem_cons, ← ih]
      by_cases hm : Usable alloc m
      · rw [if_pos hm, and_iff_right hm]
      · rw [if_neg hm]
        exact ⟨fun h => absurd h Bool.false_ne_true, fun h => absurd h.1 hm⟩

theorem answer_same (h : answer alloc v1 v2 lists = true) : ∃ l ∈ lists, v1 ∈ l ∧ v2 ∈ l := by
  induction lists with
  | nil => cases h
  | cons ids lists ih =>
      rw [answer] at h
      split at h
      · split at h
        · exact ⟨ids, List.mem_cons_self .., ‹_›, of_decide_eq_true h⟩
        · obtain ⟨l, hl, hv⟩ := ih h
          exact ⟨l, List.mem_cons_of_mem _ hl, hv⟩
      · cases h

theorem not_mem_front {front back : List (List Nat)} {l : List Nat} (h : (front ++ l :: back).Pairwise List.Disjoint)
    (h1 : v1 ∈ l) : ∀ m ∈ front, v1 ∉ m := by
  intro m hm hv
  exact (List.pairwise_append.mp h).2.2 m hm l (List.mem_cons_self ..) hv h1

theorem answer_iff (hd : lists.Pairwise List.Disjoint) :
    (answer alloc v1 v2 lists = true ↔ ∃ l ∈ lists, v1 ∈ l ∧ v2 ∈ l) ↔ Available alloc v1 v2 lists := by
  constructor
  · intro h front l back heq h1 h2
    subst heq
    have htrue := h.mpr ⟨l, List.mem_append_right _ (List.mem_cons_self ..), h1, h2⟩
    exact (answer_append (not_mem_front hd h1) h1 h2).mp htrue
  · intro h
    refine ⟨answer_same, ?_⟩
    rintro ⟨l, hl, h1, h2⟩
    obtain ⟨front, back, rfl⟩ := List.append_of_mem hl
    exact (answer_append (not_mem_front hd h1) h1 h2).mpr (h front l back rfl h1 h2)

end Texts

/-- The search ends, reads ids of the string only, and tells whether two ids are in one list of a well-formed
string, when every list it comes to fits and the lists up to that of the ids can be used, and only then. -/
theorem areEquiv_iff (alloc : Nat → Bool) (s : PropString) (v1 v2 : Nat) :
    (∃ r, areEquiv alloc s v1 v2 = .ok r ∧ ∀ lists, WellFormed s.chars lists → lists.Pairwise List.Disjoint →
      (r = true ↔ ∃ l ∈ lists, v1 ∈ l ∧ v2 ∈ l)) ↔
    Readable alloc v1 v2 s.chars ∧
      ∀ lists, WellFormed s.chars lists → lists.Pairwise List.Disjoint → Available alloc v1 v2 lists := by
  have hanswer : ∀ {r lists}, areEquiv alloc s v1 v2 = .ok r → WellFormed s.chars lists →
      r = answer alloc v1 v2 lists := by
    intro r lists hr h
    have hkept : Kept [] := ⟨Nat.zero_le _, fun _ h => by cases h⟩
    have hrun : buildAndSearch alloc v1 v2 s.chars.length ([] ++ s.chars) .unset [] = .ok r := hr
    have hblank : ∀ x ∈ ([] : List Char), isSpace x = true := fun _ h => by cases h
    exact build_answer h hblank s.fits (Nat.le_refl _) hkept (.inl rfl) hrun
  constructor
  · rintro ⟨r, hr, h⟩
    refine ⟨areEquiv_ok_iff s |>.mp ⟨r, hr⟩, fun lists hw hd => ?_⟩
    rw [← answer_iff hd, ← hanswer hr hw]
    exact h lists hw hd
  · rintro ⟨hread, h⟩
    obtain ⟨r, hr⟩ := (areEquiv_ok_iff s).mpr hread
    refine ⟨r, hr, fun lists hw hd => ?_⟩
    rw [hanswer hr hw, answer_iff hd]
    exact h lists hw hd

/-- A list that announces three ids and has one. -/
theorem areEquiv_unread :
    ¬ ∃ r, areEquiv (fun _ => true) ⟨"3 34".toList, by decide, by decide⟩ 34 35 = .ok r ∧
      ∀ lists, WellFormed "3 34".toList lists → lists.Pairwise List.Disjoint →
        (r = true ↔ ∃ l ∈ lists, 34 ∈ l ∧ 35 ∈ l) := by
  have hrun : areEquiv (fun _ => true) ⟨"3 34".toList, by decide, by decide⟩ 34 35 = .error .badRead := by
    decide +kernel
  rintro ⟨r, hr, -⟩
  rw [hrun] at hr
  cases hr

end OiUserland.Xmu.ColormapEquivalence
