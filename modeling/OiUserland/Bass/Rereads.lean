import OiUserland.Bass.Tracking
import OiUserland.Bass.UserlandComponent

open OiUserland OiUserland.Bass
open Lib.KeptLines Makefiles Parses Written Edits Tracking OtherLines

namespace OiUserland.Bass.Rereads

open UserlandComponent

def shape (it : Item) : Option Nat × Nat × Line := (it.idx, it.length, it.value)

structure Fresh (mk : Makefile) (f : Reader) : Prop where
  scan : Reader.start.scan 0 mk.contents = .ok f
  vars : ∀ j, (mk.vars j).map shape = (f.vars j).map shape
  kept : Kept '\n' mk.contents
  returns : ∀ l ∈ mk.contents, '\r' ∉ l

def Plain (value : Line) : Prop := strip value = value ∧ ∀ c ∈ value, c ≠ '\n' ∧ c ≠ '\r' ∧ c ≠ '\\'

variable {k : Keyword} {it : Item} {idx n : Nat} {f s r : Reader} {c : List Line} {value : Line}
  {mk : Makefile} {file : List Char}

theorem universal_of_no_returns (h : '\r' ∉ file) : universal file = file := by
  induction file using universal.induct with
  | case1 => rfl
  | case2 s ih => exact absurd (List.mem_cons_self ..) h
  | case3 s hs ih => exact absurd (List.mem_cons_self ..) h
  | case4 x s hx hx' ih => rw [universal.eq_4 x s hx hx', ih fun hs => h (List.mem_cons_of_mem _ hs)]

theorem Fresh.reread (h : Fresh mk f) : readMakefile mk.text = .ok (made f mk.contents) := by
  have hreturns : '\r' ∉ mk.text := fun hc => by
    obtain ⟨l, hl, hcl⟩ := List.mem_flatten.mp hc
    exact h.returns l hl hcl
  rw [readMakefile, universal_of_no_returns hreturns, Makefile.ofText, Makefile.text, lines_flatten h.kept]
  exact update_of_scan h.scan

theorem Fresh.var (h : Fresh mk f) (hit : f.vars k = some it) :
    ∃ it', mk.vars k = some it' ∧ it'.idx = it.idx ∧ it'.length = it.length ∧ it'.value = it.value := by
  have hvars := h.vars k
  rw [hit, Option.map_some] at hvars
  obtain ⟨it', hit', hshape⟩ := Option.map_eq_some_iff.mp hvars
  exact ⟨it', hit', congrArg Prod.fst hshape, congrArg (fun p => p.2.1) hshape, congrArg (fun p => p.2.2) hshape⟩

theorem Fresh.none (h : Fresh mk f) (hk : f.vars k = none) : mk.vars k = none := by
  have hvars := h.vars k
  rw [hk, Option.map_none] at hvars
  exact Option.map_eq_none_iff.mp hvars

theorem fresh_made (hs : Reader.start.scan 0 c = .ok f) (hkept : Kept '\n' c) (hreturns : ∀ l ∈ c, '\r' ∉ l) :
    Fresh (made f c) f :=
  ⟨hs, fun _ => rfl, hkept, hreturns⟩

theorem Plain.newline (h : Plain value) : '\n' ∉ value := fun hc => (h.2 _ hc).1 rfl

theorem Plain.backslash (h : Plain value) : '\\' ∉ value := fun hc => (h.2 _ hc).2.2 rfl

theorem Plain.reads (h : Plain value) : (Item.single idx (readBack value)).value = value :=
  (value_readBack h.newline).trans h.1

theorem written_returns (h : Plain value) (k : Keyword) : '\r' ∉ written k value := by
  obtain ⟨n, hn⟩ := written_eq k value
  rw [hn]
  intro hc
  rcases List.mem_append.mp hc with hc | hc
  · exact absurd (mem_name hc).2.2.2 (by decide)
  · rcases List.mem_cons.mp hc with hc | hc
    · exact absurd hc (by decide)
    · rcases List.mem_append.mp hc with hc | hc
      · exact absurd (List.eq_of_mem_replicate hc) (by decide)
      · rcases List.mem_append.mp hc with hc | hc
        · exact (h.2 _ (mem_strip hc)).2.1 rfl
        · exact absurd hc (by decide)

theorem value_setValue (idx : Option Nat) (h : Plain value) : (Item.setValue idx value).value = value := by
  have hfilter : (strip value ++ ['\n']).filter (· ≠ '\n') = value := by
    rw [h.1, List.filter_append, filter_newline h.newline]
    exact List.append_nil _
  rw [Item.value, setValue_str idx h.newline, List.flatten_singleton, hfilter, h.1]

theorem kept_written_at (h : Fresh mk f) (hlt : idx < mk.contents.length) (hvalue : Plain value) (n : Nat) :
    Kept '\n' (mk.contents.take idx ++ ([written k value] ++ mk.contents.drop (idx + n))) := by
  have hsplit : Kept '\n' (mk.contents.take idx ++ mk.contents.drop idx) := by
    rw [List.take_append_drop]
    exact h.kept
  have hbelow : mk.contents.drop idx ≠ [] := List.drop_eq_nil_iff.not.mpr (Nat.not_le.mpr hlt)
  exact kept_inserted (kept_others h.kept idx n) hvalue.newline (hsplit.ended hbelow)

theorem returns_edited (h : Fresh mk f) {W : List Line} (hW : ∀ l ∈ W, '\r' ∉ l) (idx i : Nat) :
    ∀ l ∈ mk.contents.take idx ++ (W ++ mk.contents.drop i), '\r' ∉ l := by
  intro l hl
  rcases List.mem_append.mp hl with hl | hl
  · exact h.returns l ((List.take_subset ..) hl)
  · rcases List.mem_append.mp hl with hl | hl
    · exact hW l hl
    · exact h.returns l ((List.drop_subset ..) hl)

theorem returns_written (hvalue : Plain value) : ∀ l ∈ [written k value], '\r' ∉ l := by
  intro l hl
  rw [List.mem_singleton.mp hl]
  exact written_returns hvalue k

theorem moveVariable_one (hlt : idx < mk.contents.length) (hvalue : '\n' ∉ value) :
    mk.moveVariable k idx 1 value idx = .ok { mk.setItem k (.setValue (some idx) value) with
      contents := mk.contents.take idx ++ ([written k value] ++ mk.contents.drop (idx + 1)) } := by
  rw [Makefile.moveVariable]
  simp only [variableAssignment_written _ k hvalue, setValue_length _ hvalue, and_self, if_true, if_pos hlt]
  rw [List.set_eq_take_append_cons_drop, if_pos hlt]
  rfl

theorem moveVariable_more (hn : n ≠ 1) (hvalue : '\n' ∉ value) :
    mk.moveVariable k idx n value idx =
      Makefile.update (mk.contents.take idx ++ ([written k value] ++ mk.contents.drop (idx + n))) := by
  rw [Makefile.moveVariable]
  simp only [variableAssignment_written _ k hvalue, setValue_length _ hvalue, true_and, if_neg hn, Nat.le_refl, if_true,
    List.drop_take_self, List.append_nil, List.append_assoc]

theorem moved_same {v : Option Item} : v.map (moved (shift idx 1 1)) = v := by
  cases v with
  | none => rfl
  | some it =>
      obtain ⟨i, str, hne⟩ := it
      cases i with
      | none => rfl
      | some a =>
          have hsame : shift idx 1 1 a = a := by
            rw [shift]
            split
            · rfl
            · omega
          exact congrArg (fun b => some (Item.mk (some b) str hne)) hsame

theorem set_fresh (h : Fresh mk f) (hf : f.vars k = some it) (hidx : it.idx = some idx)
    (hstands : Stands mk.contents k it idx n f s r) (hle : n ≤ 2) (hd : s.d = none) (hvalue : Plain value) :
    ∃ mk' f', mk.setVariable k value none = .ok mk' ∧ Fresh mk' f' ∧
      mk'.contents = mk.contents.take idx ++ ([written k value] ++ mk.contents.drop (idx + n)) ∧
      f'.vars k = some (.single idx (readBack value)) ∧
      ∀ j, j ≠ k → f'.vars j = (f.vars j).map (moved (shift idx n [written k value].length)) := by
  obtain ⟨f', hs', hk, hothers, -⟩ := scan_replaced hstands hf hidx hle hd hvalue.backslash
  obtain ⟨it', hit', hidx', hlength', -⟩ := h.var hf
  have hset : mk.setVariable k value none = mk.moveVariable k idx n value idx := by
    rw [Makefile.setVariable, hit']
    dsimp only
    rw [hidx', hidx]
    dsimp only
    rw [hlength', hstands.length]
    rfl
  have hkept := kept_written_at (k := k) h hstands.lt hvalue n
  have hreturns := returns_edited h (returns_written (k := k) hvalue) idx (idx + n)
  rw [hset]
  by_cases hn : n = 1
  · subst hn
    refine ⟨_, f', moveVariable_one hstands.lt hvalue.newline, ⟨hs', fun j => ?_, hkept, hreturns⟩, rfl, hk, hothers⟩
    change (Function.update mk.vars k (some (.setValue (some idx) value)) j).map shape = _
    by_cases hj : j = k
    · subst hj
      rw [Function.update_self, hk, Option.map_some, Option.map_some, shape, shape, value_setValue _ hvalue,
        setValue_length _ hvalue.newline, hvalue.reads]
      rfl
    · rw [Function.update_of_ne hj, hothers j hj, moved_same]
      exact h.vars j
  · refine ⟨made f' _, f', ?_, fresh_made hs' hkept hreturns, rfl, hk, hothers⟩
    rw [moveVariable_more hn hvalue.newline]
    exact update_of_scan hs'

theorem remove_fresh (h : Fresh mk f) (hf : f.vars k = some it) (hidx : it.idx = some idx)
    (hstands : Stands mk.contents k it idx 1 f s r) :
    ∃ mk' f', mk.removeVariable k = .ok mk' ∧ Fresh mk' f' ∧
      mk'.contents = mk.contents.take idx ++ ([] ++ mk.contents.drop (idx + 1)) ∧
      f'.vars k = s.vars k ∧ ∀ j, j ≠ k → f'.vars j = (f.vars j).map (moved (shift idx 1 ([] : List Line).length)) := by
  obtain ⟨f', hs', hk, hothers, -⟩ := scan_removed hstands hf hidx (by decide)
  obtain ⟨it', hit', hidx', -⟩ := h.var hf
  have hremove : mk.removeVariable k = Makefile.update (mk.contents.take idx ++ mk.contents.drop (idx + 1)) := by
    rw [Makefile.removeVariable, hit']
    dsimp only
    rw [hidx', hidx]
    dsimp only
    rw [if_pos hstands.lt, List.eraseIdx_eq_take_drop_succ]
  have hreturns := returns_edited h (W := []) (fun _ h => by cases h) idx (idx + 1)
  refine ⟨made f' _, f', ?_, fresh_made hs' (kept_others h.kept idx 1) hreturns, rfl, hk, hothers⟩
  rw [hremove]
  exact update_of_scan hs'

end OiUserland.Bass.Rereads

namespace OiUserland.Bass.Stages

open Rereads

def Short (mk : Makefile) (k : Keyword) : Prop :=
  ∀ idx, (mk.vars k).bind Item.idx = some idx → definitionLines (mk.contents.drop idx) ≤ 2

def Replaceable (mk : Makefile) (k : Keyword) : Prop :=
  ∀ idx, (mk.vars k).bind Item.idx = some idx → definitionLines (mk.contents.drop idx) ≤ 2 ∧
    OutsideRecipe mk.contents idx

def Removable (mk : Makefile) (k : Keyword) : Prop :=
  ∀ idx, (mk.vars k).bind Item.idx = some idx → definitionLines (mk.contents.drop idx) = 1 ∧
    ∀ s, Reader.start.scan 0 (mk.contents.take idx) = .ok s → s.vars k = none

structure Follows (k : Keyword) (mk' mk : Makefile) : Prop where
  value : (mk'.vars k).map Item.value = (mk.vars k).map Item.value
  place : ∀ i, (mk'.vars k).bind Item.idx = some i → ∃ idx, (mk.vars k).bind Item.idx = some idx ∧
    definitionLines (mk'.contents.drop i) = definitionLines (mk.contents.drop idx) ∧
    ∀ s, Reader.start.scan 0 (mk'.contents.take i) = .ok s →
      ∃ g, Reader.start.scan 0 (mk.contents.take idx) = .ok g ∧ s.d = g.d ∧ (g.vars k = none → s.vars k = none)

structure Stage (ks : List Keyword) (lines : List Line) (mk : Makefile) (f : Reader) : Prop where
  fresh : Fresh mk f
  short : ∀ k ∈ ks, Short (made f mk.contents) k
  others : otherLines ks (made f mk.contents) = lines

variable {k j : Keyword} {ks : List Keyword} {it : Item} {idx n : Nat} {f f' s r : Reader}
    {c W lines : List Line} {value : Line}
  {mk mk' : Makefile}

theorem Follows.removable (h : Follows k mk' mk) (hk : Removable mk k) : Removable mk' k := by
  intro i hi
  obtain ⟨idx, hidx, hlines, hplace⟩ := h.place i hi
  obtain ⟨hone, habove⟩ := hk idx hidx
  refine ⟨hlines.trans hone, fun s hs => ?_⟩
  obtain ⟨g, hg, -, hnone⟩ := hplace s hs
  exact hnone (habove g hg)

theorem Follows.short (h : Follows k mk' mk) (hk : Short mk k) : Short mk' k := by
  intro i hi
  obtain ⟨idx, hidx, hlines, -⟩ := h.place i hi
  exact hlines.trans_le (hk idx hidx)

theorem value_moved {σ : Nat → Nat} {v v' : Option Item} (h : v' = v.map (moved σ)) :
    v'.map Item.value = v.map Item.value := by
  rw [h]
  cases v <;> rfl

theorem follows_edited (h : Stands c k it idx n f s r) (hf : f.vars k = some it)
    (hidx : it.idx = some idx) (hle : n ≤ 2)
    (htracks : Tracks c k idx n W) (hj : j ≠ k) (hshort : Short (made f c) j)
    (hmoved : f'.vars j = (f.vars j).map (moved (shift idx n W.length))) :
    Follows j (made f' (c.take idx ++ (W ++ c.drop (idx + n)))) (made f c) := by
  refine ⟨value_moved hmoved, fun i hi => ?_⟩
  have hi' : (f'.vars j).bind Item.idx = some i := hi
  rw [idx_moved hmoved] at hi'
  obtain ⟨b, hb, rfl⟩ := Option.map_eq_some_iff.mp hi'
  obtain ⟨it', hit', hidx'⟩ := Option.bind_eq_some_iff.mp hb
  have hapart := stands_apart h hf hidx hle hj hit' hidx'
  have hends : b < idx → b + definitionLines (c.drop b) ≤ idx :=
    fun hlt => stands_ends h hit' hidx' hlt (hshort b hb)
  have hne : c.drop idx ≠ [] := List.drop_eq_nil_iff.not.mpr (Nat.not_le.mpr h.lt)
  refine ⟨b, hb, lines_moved h hapart hends hne, fun s hs => ?_⟩
  obtain ⟨g, hg, hd, hvars⟩ := above_edited htracks (Nat.le_of_lt h.lt) hapart hs
  refine ⟨g, hg, hd, fun hnone => ?_⟩
  rw [hvars j hj, hnone, Option.map_none]

theorem recorded (hs : Reader.start.scan 0 c = .ok f) (hf : f.vars k = some it) : ∃ idx, it.idx = some idx := by
  rcases scan_place k hs with ⟨idx, hplace, -⟩ | hplace
  · rw [place, hf] at hplace
    exact ⟨idx, Option.some.inj hplace⟩
  · rw [place, hf] at hplace
    cases hplace

theorem fresh_stands (h : Fresh mk f) (hf : f.vars k = some it) (hidx : it.idx = some idx)
    (hle : definitionLines (mk.contents.drop idx) ≤ 2)
    (hd : definitionLines (mk.contents.drop idx) ≤ 1 ∨ OutsideRecipe mk.contents idx) :
    ∃ s r, Stands mk.contents k it idx (definitionLines (mk.contents.drop idx)) f s r :=
  old_definition (physical_of_kept h.kept) h.scan hf hidx rfl hle hd

theorem bind_idx (hf : f.vars k = some it) (hidx : it.idx = some idx) : (f.vars k).bind Item.idx = some idx := by
  rw [hf]
  exact hidx

theorem Stage.set (h : Stage ks lines mk f) (hk : k ∈ ks) (hf : f.vars k = some it)
    (hcan : Replaceable (made f mk.contents) k)
    (hvalue : Plain value) :
    ∃ mk' f', mk.setVariable k value none = .ok mk' ∧ Stage ks lines mk' f' ∧
    (f'.vars k).map Item.value = some value ∧
      (∀ j ∈ ks, j ≠ k → Follows j (made f' mk'.contents) (made f mk.contents)) ∧
      ∀ j, j ≠ k → (f'.vars j).map Item.value = (f.vars j).map Item.value := by
  obtain ⟨idx, hidx⟩ := recorded h.fresh.scan hf
  obtain ⟨hle, hout⟩ := hcan idx (bind_idx hf hidx)
  obtain ⟨s, r, hstands⟩ := fresh_stands h.fresh hf hidx hle (.inr hout)
  have hd : s.d = none := hout s hstands.above
  obtain ⟨mk', f', hset, hfresh, hcontents, hk', hmoved⟩ := set_fresh h.fresh hf hidx hstands hle hd hvalue
  have htracks := tracks_replaced hstands hidx hle hd hvalue.backslash
  have hfollows : ∀ j ∈ ks, j ≠ k → Follows j (made f' mk'.contents) (made f mk.contents) := fun j hj hjk => by
    rw [hcontents]
    exact follows_edited hstands hf hidx hle htracks hjk (h.short j hj) (hmoved j hjk)
  have hown := owns_written hk' (Nat.le_of_lt hstands.lt) hvalue.backslash
    (mk.contents.drop (idx + definitionLines (mk.contents.drop idx)))
  refine ⟨mk', f', hset, ⟨hfresh, fun j hj => ?_, ?_⟩, ?_, hfollows, fun j hj => value_moved (hmoved j hj)⟩
  · by_cases hjk : j = k
    · rw [hjk]
      intro i hi
      have hi' : (f'.vars k).bind Item.idx = some i := hi
      rw [hk'] at hi'
      obtain rfl : idx = i := Option.some.inj hi'
      have hdrop : mk'.contents.drop idx = written k value :: mk.contents.drop
        (idx + definitionLines (mk.contents.drop idx)) := by
        rw [hcontents, List.drop_append_of_le_length
          (by rw [List.length_take_of_le (Nat.le_of_lt hstands.lt)]), List.drop_take_self,
          List.nil_append]
        rfl
      change definitionLines (mk'.contents.drop idx) ≤ 2
      rw [hdrop, definitionLines_written hvalue.backslash]
      decide
    · exact (hfollows j hj hjk).short (h.short j hj)
  · rw [hcontents, ← h.others]
    exact otherLines_edited hstands hf hidx hle rfl hk h.short hmoved hown
  · rw [hk', Option.map_some, hvalue.reads]

theorem Stage.remove (h : Stage ks lines mk f) (hk : k ∈ ks) (hf : f.vars k = some it)
    (hcan : Removable (made f mk.contents) k) :
    ∃ mk' f', mk.removeVariable k = .ok mk' ∧ Stage ks lines mk' f' ∧ f'.vars k = none ∧
      (∀ j ∈ ks, j ≠ k → Follows j (made f' mk'.contents) (made f mk.contents)) ∧
      ∀ j, j ≠ k → (f'.vars j).map Item.value = (f.vars j).map Item.value := by
  obtain ⟨idx, hidx⟩ := recorded h.fresh.scan hf
  obtain ⟨hone, habove⟩ := hcan idx (bind_idx hf hidx)
  have hone' : definitionLines (mk.contents.drop idx) = 1 := hone
  obtain ⟨s, r, hstands⟩ := fresh_stands h.fresh hf hidx (by omega) (.inl (by omega))
  rw [hone'] at hstands
  obtain ⟨mk', f', hremove, hfresh, hcontents, hk', hmoved⟩ := remove_fresh h.fresh hf hidx hstands
  have hnone : f'.vars k = none := hk'.trans (habove s hstands.above)
  have htracks := tracks_removed hstands hidx (by decide)
  have hfollows : ∀ j ∈ ks, j ≠ k → Follows j (made f' mk'.contents) (made f mk.contents) := fun j hj hjk => by
    rw [hcontents]
    exact follows_edited hstands hf hidx (by decide) htracks hjk (h.short j hj) (hmoved j hjk)
  have hnone' : (f'.vars k).bind Item.idx = none := by
    rw [hnone]
    rfl
  refine ⟨mk', f', hremove, ⟨hfresh, fun j hj => ?_, ?_⟩, hnone, hfollows, fun j hj => value_moved (hmoved j hj)⟩
  · by_cases hjk : j = k
    · rw [hjk]
      intro i hi
      exact absurd (hnone'.symm.trans hi) nofun
    · exact (hfollows j hj hjk).short (h.short j hj)
  · rw [hcontents, ← h.others]
    refine otherLines_edited hstands hf hidx (by decide) hone'.symm hk h.short hmoved fun i => ?_
    rw [owns_none hnone', decide_eq_false]
    rw [List.length_nil]
    omega

end OiUserland.Bass.Stages
