import Mathlib.Data.Char
import Mathlib.Data.Int.Order.Basic
import Mathlib.Data.List.Induction
import Mathlib.Data.List.Lex
import OiUserland.Lib.CStrings

namespace OiUserland.HealthMonitor.DiskNames

open Lib.CStrings

section Lists

def strcmp (a b : List Char) : Ordering := if a < b then .lt else if a = b then .eq else .gt

inductive DevType
  | disk
  | tape
  deriving DecidableEq

/-- disk_list_t: the names of the partitions have been allocated or are NULL. -/
structure DiskListEnt (ndkmap : Nat) where
  dtype : List Char
  dnum : Int
  dsk : List Char
  dpart : Fin ndkmap → Option (List Char)

/-- What insert_dlist_ent is called with, and which of its allocations succeed. -/
structure Insertion where
  nm : List Char
  dn : Int
  dty : Option (List Char)
  devtype : DevType
  allocated : Bool := true
  parts : Nat → Bool := fun _ => true

variable {ndkmap : Nat}

def Insertion.dpart (x : Insertion) (i : Fin ndkmap) : Option (List Char) :=
  if x.devtype = .disk then if x.parts i then some (x.nm ++ 's' :: decimal i) else none else none

def Insertion.entry (x : Insertion) (dty : List Char) : DiskListEnt ndkmap := ⟨dty, x.dn, x.nm, x.dpart⟩

def followTypes (dtype : List Char) (follw : List (DiskListEnt ndkmap)) :
    List (DiskListEnt ndkmap) → Option Ordering → List (DiskListEnt ndkmap) × List (DiskListEnt ndkmap) × Option Ordering
  | [], mv => (follw, [], mv)
  | e :: stuff, _ =>
      let mv := strcmp dtype e.dtype
      if mv = .lt then followTypes dtype (e :: follw) stuff (some mv) else (follw, e :: stuff, some mv)

def followNums (dtype : List Char) (dn : Int) (follw : List (DiskListEnt ndkmap)) :
    List (DiskListEnt ndkmap) → List (DiskListEnt ndkmap) × List (DiskListEnt ndkmap)
  | [] => (follw, [])
  | e :: stuff =>
      if strcmp dtype e.dtype ≠ .eq then (follw, e :: stuff)
      else if e.dnum < dn then followNums dtype dn (e :: follw) stuff
      else (follw, e :: stuff)

def linkEntry (entry : DiskListEnt ndkmap) (follw stuff : List (DiskListEnt ndkmap)) (mv : Option Ordering) :
    List (DiskListEnt ndkmap) :=
  if mv ≠ some .lt then
    if follw = [] then entry :: stuff else follw.reverse ++ entry :: stuff
  else follw.reverse ++ [entry]

def insertDlistEnt (x : Insertion) (hd : List (DiskListEnt ndkmap)) : List (DiskListEnt ndkmap) :=
  match x.dty with
  | none => hd
  | some dty =>
      if hd.any fun stuff => stuff.dsk = x.nm then hd
      else if x.allocated = false then hd
      else if hd = [] then [x.entry dty]
      else
        let (follw, stuff, mv) := followTypes dty [] hd none
        let (follw, stuff) := if mv = some .eq then followNums dty x.dn follw stuff else (follw, stuff)
        linkEntry (x.entry dty) follw stuff mv

def mkListOfDisks (ndkmap : Nat) (xs : List Insertion) : List (DiskListEnt ndkmap) := xs.foldl (fun hd x => insertDlistEnt x hd) []

end Lists

section Lookup

variable {ndkmap : Nat}

structure Text (ndkmap : Nat) where
  ent : DiskListEnt ndkmap
  partition : Option (Fin ndkmap)

def atoi (s : List Char) : Int := (strtol s).1.bmod (2 ^ 32)

/-- The string is ended by a NUL. -/
def partitionOf (ndkmap : Nat) (devNm : List Char) : Int :=
  match devNm.dropWhile (· ≠ ',') with
  | [] => -1
  | _ :: s =>
      let partition := ((s.headD '\x00').toNat : Int) - 'a'.toNat
      if partition < 0 ∨ ndkmap < partition then -1 else partition

def textOf (list : DiskListEnt ndkmap) (partition : Int) : Option (Text ndkmap) :=
  if partition ≠ -1 then
    if h : partition.toNat < ndkmap then
      if (list.dpart ⟨partition.toNat, h⟩).isSome then some ⟨list, some ⟨partition.toNat, h⟩⟩ else some ⟨list, none⟩
    else none
  else some ⟨list, none⟩

def findEntry (cmpbuf : List Char) (dv : Int) (list : List (DiskListEnt ndkmap)) : Option (Option (DiskListEnt ndkmap)) :=
  let (_, list, mv) := followTypes cmpbuf [] list none
  match mv with
  | none => none
  | some .eq =>
      match list.dropWhile fun e => e.dnum < dv with
      | [] => some none
      | e :: _ => if e.dnum = dv then some (some e) else some none
  | some _ => some none

def lookupKsName (devNm : List Char) (list : List (DiskListEnt ndkmap)) : Option (Option (Text ndkmap)) :=
  let nm := devNm.takeWhile (· ≠ ',')
  let cmpbuf := nm.takeWhile Char.isAlpha
  let nm := nm.dropWhile Char.isAlpha
  if nm ≠ [] then
    match findEntry cmpbuf (atoi nm) list with
    | none => none
    | some none => some none
    | some (some e) => (textOf e (partitionOf ndkmap devNm)).map some
  else some none

end Lookup

section Scans

variable {ndkmap : Nat} {dtype : List Char} {dn : Int} {x y : DiskListEnt ndkmap} {l follw : List (DiskListEnt ndkmap)}
  {mv : Option Ordering}

def Le (x y : DiskListEnt ndkmap) : Prop := y.dtype < x.dtype ∨ x.dtype = y.dtype ∧ x.dnum ≤ y.dnum

theorem Le.dtype_le (h : Le x y) : y.dtype ≤ x.dtype := h.elim le_of_lt fun h => h.1.ge

theorem Le.trans {z : DiskListEnt ndkmap} (h : Le x y) (h' : Le y z) : Le x z := by
  rcases h with hlt | ⟨heq, hle⟩
  · exact .inl (lt_of_le_of_lt h'.dtype_le hlt)
  · rcases h' with hlt' | ⟨heq', hle'⟩
    · exact .inl (heq ▸ hlt')
    · exact .inr ⟨heq.trans heq', hle.trans hle'⟩

theorem strcmp_lt {a b : List Char} : strcmp a b = .lt ↔ a < b := by
  unfold strcmp
  split_ifs with hlt heq
  · exact iff_of_true rfl hlt
  · exact iff_of_false nofun hlt
  · exact iff_of_false nofun hlt

theorem strcmp_eq {a b : List Char} : strcmp a b = .eq ↔ a = b := by
  unfold strcmp
  split_ifs with hlt heq
  · exact iff_of_false nofun hlt.ne
  · exact iff_of_true rfl heq
  · exact iff_of_false nofun heq

theorem followTypes_spec (dtype : List Char) (follw l : List (DiskListEnt ndkmap)) (mv : Option Ordering) (hl : l ≠ []) :
    ∃ p r, l = p ++ r ∧ (∀ x ∈ p, dtype < x.dtype) ∧
      (r = [] ∧ followTypes dtype follw l mv = (p.reverse ++ follw, r, some .lt) ∨
        ∃ e stuff, r = e :: stuff ∧ ¬ dtype < e.dtype ∧
          followTypes dtype follw l mv = (p.reverse ++ follw, r, some (strcmp dtype e.dtype))) := by
  induction l generalizing follw mv with
  | nil => exact absurd rfl hl
  | cons e l ih =>
      rw [followTypes]
      by_cases hlt : dtype < e.dtype
      · rw [if_pos (strcmp_lt.mpr hlt), strcmp_lt.mpr hlt]
        cases l with
        | nil => exact ⟨[e], [], rfl, List.forall_mem_singleton.mpr hlt, .inl ⟨rfl, rfl⟩⟩
        | cons x l =>
            obtain ⟨p, r, hl', hp, hr⟩ := ih (e :: follw) (some .lt) (List.cons_ne_nil _ _)
            refine ⟨e :: p, r, by rw [hl', List.cons_append], List.forall_mem_cons.mpr ⟨hlt, hp⟩, ?_⟩
            rw [List.reverse_cons, List.append_assoc, List.singleton_append]
            exact hr
      · rw [if_neg fun h => hlt (strcmp_lt.mp h)]
        exact ⟨[], e :: l, rfl, nofun, .inr ⟨e, l, rfl, hlt, rfl⟩⟩

theorem followNums_spec (dtype : List Char) (dn : Int) (follw l : List (DiskListEnt ndkmap)) :
    ∃ p r, l = p ++ r ∧ followNums dtype dn follw l = (p.reverse ++ follw, r) ∧ (∀ x ∈ p, x.dtype = dtype ∧ x.dnum < dn) ∧
      ∀ e stuff, r = e :: stuff → e.dtype = dtype → dn ≤ e.dnum := by
  induction l generalizing follw with
  | nil => exact ⟨[], [], rfl, rfl, nofun, nofun⟩
  | cons e l ih =>
      rw [followNums]
      by_cases htype : dtype = e.dtype
      · rw [if_neg (not_not.mpr (strcmp_eq.mpr htype))]
        by_cases hlt : e.dnum < dn
        · rw [if_pos hlt]
          obtain ⟨p, r, rfl, hrun, hp, hr⟩ := ih (e :: follw)
          refine ⟨e :: p, r, rfl, ?_, List.forall_mem_cons.mpr ⟨⟨htype.symm, hlt⟩, hp⟩, hr⟩
          rw [hrun, List.reverse_cons, List.append_assoc, List.singleton_append]
        · rw [if_neg hlt]
          refine ⟨[], e :: l, rfl, rfl, nofun, ?_⟩
          rintro _ _ ⟨rfl, rfl⟩ -
          exact not_lt.mp hlt
      · rw [if_pos fun h => htype (strcmp_eq.mp h)]
        refine ⟨[], e :: l, rfl, rfl, nofun, ?_⟩
        rintro _ _ ⟨rfl, rfl⟩ h
        exact absurd h.symm htype

end Scans

section Insertions

variable {ndkmap : Nat} {x : Insertion} {dty : List Char} {hd r : List (DiskListEnt ndkmap)} {e : DiskListEnt ndkmap}

theorem linkEntry_eq {follw stuff : List (DiskListEnt ndkmap)} {mv : Option Ordering} (h : mv = some .lt → stuff = []) :
    linkEntry e follw stuff mv = follw.reverse ++ e :: stuff := by
  unfold linkEntry
  by_cases hmv : mv = some .lt
  · rw [if_neg (not_not.mpr hmv), h hmv]
  · rw [if_pos hmv]
    cases follw with
    | nil => exact if_pos rfl
    | cons b follw => exact if_neg (List.cons_ne_nil _ _)

theorem le_of_sorted_cons (hsorted : (e :: r).Pairwise Le) : ∀ y ∈ e :: r, y.dtype ≤ e.dtype := by
  intro y hy
  rcases List.mem_cons.mp hy with rfl | hin
  · exact le_refl _
  · exact (List.rel_of_pairwise_cons hsorted hin).dtype_le

theorem insertDlistEnt_split (hdty : x.dty = some dty) (hnew : ∀ e ∈ hd, e.dsk ≠ x.nm) (hentry : x.allocated = true)
    (hsorted : hd.Pairwise Le) :
    ∃ p r, hd = p ++ r ∧ insertDlistEnt x hd = p ++ x.entry dty :: r ∧ (∀ e ∈ p, Le e (x.entry dty)) ∧
      ∀ e ∈ r, Le (x.entry dty) e := by
  have hnone : ¬ (hd.any fun stuff => stuff.dsk = x.nm) = true := by
    rw [List.any_eq_true]
    rintro ⟨e, he, hname⟩
    exact hnew e he (of_decide_eq_true hname)
  have hallocated : ¬ x.allocated = false := by
    rw [hentry]
    exact nofun
  rw [insertDlistEnt, hdty]
  dsimp only
  rw [if_neg hnone, if_neg hallocated]
  by_cases hnil : hd = []
  · rw [if_pos hnil, hnil]
    exact ⟨[], [], rfl, rfl, nofun, nofun⟩
  · rw [if_neg hnil]
    obtain ⟨p, r, rfl, hp, hr⟩ := followTypes_spec dty [] hd none hnil
    have hle : ∀ e ∈ p, Le e (x.entry dty) := fun e he => .inl (hp e he)
    have hrest := (List.pairwise_append.mp hsorted).2.1
    rcases hr with ⟨rfl, hrun⟩ | ⟨e, stuff, rfl, hge, hrun⟩
    · rw [hrun]
      refine ⟨p, [], rfl, ?_, hle, nofun⟩
      dsimp only
      rw [if_neg (by decide), linkEntry_eq fun _ => rfl, List.append_nil, List.reverse_reverse]
    · have hfirst := le_of_sorted_cons hrest
      rw [hrun]
      by_cases heq : dty = e.dtype
      · obtain ⟨p', r', hsplit, hrun', hp', hr'⟩ := followNums_spec dty x.dn p.reverse (e :: stuff)
        rw [strcmp_eq.mpr heq]
        refine ⟨p ++ p', r', by rw [hsplit, List.append_assoc], ?_, ?_, ?_⟩
        · dsimp only
          rw [if_pos rfl, List.append_nil, hrun', linkEntry_eq (fun h => by cases h), List.reverse_append,
            List.reverse_reverse, List.reverse_reverse]
        · intro y hy
          rcases List.mem_append.mp hy with hin | hin
          · exact hle y hin
          · exact .inr ⟨(hp' y hin).1, (hp' y hin).2.le⟩
        · cases r' with
          | nil => exact nofun
          | cons y ys =>
              have hy : Le (x.entry dty) y := by
                by_cases htype : y.dtype = dty
                · exact .inr ⟨htype.symm, hr' y ys rfl htype⟩
                · have hin : y ∈ e :: stuff := hsplit ▸ List.mem_append_right _ (List.mem_cons_self ..)
                  exact .inl (lt_of_le_of_ne (heq ▸ hfirst y hin) htype)
              have htail : (y :: ys).Pairwise Le := (List.pairwise_append.mp (hsplit ▸ hrest)).2.1
              exact List.forall_mem_cons.mpr ⟨hy, fun z hz => hy.trans (List.rel_of_pairwise_cons htail hz)⟩
      · have hlt : e.dtype < dty := lt_of_le_of_ne (not_lt.mp hge) (Ne.symm heq)
        have hne : strcmp dty e.dtype ≠ .eq := fun h => heq (strcmp_eq.mp h)
        have hnlt : strcmp dty e.dtype ≠ .lt := fun h => hge (strcmp_lt.mp h)
        refine ⟨p, e :: stuff, rfl, ?_, hle, fun y hy => .inl (lt_of_le_of_lt (hfirst y hy) hlt)⟩
        dsimp only
        rw [if_neg fun h => hne (Option.some.inj h), linkEntry_eq fun h => absurd (Option.some.inj h) hnlt, List.append_nil,
          List.reverse_reverse]

theorem insertDlistEnt_cases (x : Insertion) (hd : List (DiskListEnt ndkmap)) (hsorted : hd.Pairwise Le) :
    (insertDlistEnt x hd = hd ∧ (x.dty = none ∨ x.allocated = false ∨ x.nm ∈ hd.map DiskListEnt.dsk)) ∨
      ∃ dty p r, x.dty = some dty ∧ x.allocated = true ∧ x.nm ∉ hd.map DiskListEnt.dsk ∧ hd = p ++ r ∧
        insertDlistEnt x hd = p ++ x.entry dty :: r ∧ (∀ e ∈ p, Le e (x.entry dty)) ∧ ∀ e ∈ r, Le (x.entry dty) e := by
  cases hdty : x.dty with
  | none =>
      refine .inl ⟨?_, .inl rfl⟩
      rw [insertDlistEnt, hdty]
  | some dty =>
      by_cases hin : x.nm ∈ hd.map DiskListEnt.dsk
      · refine .inl ⟨?_, .inr (.inr hin)⟩
        obtain ⟨e, he, hname⟩ := List.mem_map.mp hin
        rw [insertDlistEnt, hdty]
        exact if_pos (List.any_eq_true.mpr ⟨e, he, decide_eq_true hname⟩)
      · have hnew : ∀ e ∈ hd, e.dsk ≠ x.nm := fun e he hname => hin (List.mem_map.mpr ⟨e, he, hname⟩)
        cases hentry : x.allocated with
        | false =>
            refine .inl ⟨?_, .inr (.inl rfl)⟩
            rw [insertDlistEnt, hdty]
            dsimp only
            rw [if_pos hentry, ite_self]
        | true =>
            obtain ⟨p, r, hsplit, hrun, hp, hr⟩ := insertDlistEnt_split hdty hnew hentry hsorted
            exact .inr ⟨dty, p, r, rfl, rfl, hin, hsplit, hrun, hp, hr⟩

structure Built (xs : List Insertion) (l : List (DiskListEnt ndkmap)) : Prop where
  sorted : l.Pairwise Le
  once : (l.map DiskListEnt.dsk).Nodup
  names : ∀ nm, nm ∈ l.map DiskListEnt.dsk ↔ ∃ x ∈ xs, x.nm = nm ∧ x.dty.isSome = true ∧ x.allocated = true
  source : ∀ e ∈ l, ∃ x ∈ xs, ∃ dty, x.dty = some dty ∧ e = x.entry dty

theorem Built.insert {xs : List Insertion} {l : List (DiskListEnt ndkmap)} (h : Built xs l) (x : Insertion) :
    Built (xs ++ [x]) (insertDlistEnt x l) := by
  have hsource : ∀ e ∈ l, ∃ y ∈ xs ++ [x], ∃ dty, y.dty = some dty ∧ e = y.entry dty := fun e he => by
    obtain ⟨y, hy, hentry⟩ := h.source e he
    exact ⟨y, List.mem_append_left _ hy, hentry⟩
  have hnames (nm : List Char) : (∃ y ∈ xs ++ [x], y.nm = nm ∧ y.dty.isSome = true ∧ y.allocated = true) ↔
      nm ∈ l.map DiskListEnt.dsk ∨ x.nm = nm ∧ x.dty.isSome = true ∧ x.allocated = true := by
    rw [h.names]
    simp only [List.mem_append, List.mem_singleton, or_and_right, exists_or, exists_eq_left]
  rcases insertDlistEnt_cases x l h.sorted with ⟨hsame, hidle⟩ | ⟨dty, p, r, hdty, hentry, hnew, rfl, hrun, hp, hr⟩
  · rw [hsame]
    refine ⟨h.sorted, h.once, fun nm => ?_, hsource⟩
    rw [hnames]
    refine (or_iff_left_of_imp ?_).symm
    rintro ⟨rfl, hsome, hallocated⟩
    rcases hidle with hnone | hnot | hin
    · rw [hnone] at hsome
      cases hsome
    · rw [hnot] at hallocated
      cases hallocated
    · exact hin
  · rw [hrun]
    obtain ⟨hps, hrs, hpr⟩ := List.pairwise_append.mp h.sorted
    refine ⟨?_, ?_, fun nm => ?_, fun e he => ?_⟩
    · refine List.pairwise_append.mpr ⟨hps, List.pairwise_cons.mpr ⟨hr, hrs⟩, fun a ha b hb => ?_⟩
      rcases List.mem_cons.mp hb with rfl | hb
      · exact hp a ha
      · exact hpr a ha b hb
    · have hperm : (p ++ x.entry dty :: r).Perm (x.entry dty :: (p ++ r)) := List.perm_middle
      exact (hperm.map _).nodup_iff.mpr (List.nodup_cons.mpr ⟨hnew, h.once⟩)
    · rw [hnames]
      have hperm : (p ++ x.entry dty :: r).Perm (x.entry dty :: (p ++ r)) := List.perm_middle
      rw [(hperm.map _).mem_iff, List.map_cons, List.mem_cons, hdty, hentry, or_comm, and_iff_left ⟨rfl, rfl⟩]
      exact or_congr_right eq_comm
    · rcases List.mem_append.mp he with hin | hin
      · exact hsource e (List.mem_append_left _ hin)
      · rcases List.mem_cons.mp hin with rfl | hin
        · exact ⟨x, List.mem_append_right _ (List.mem_singleton_self x), dty, hdty, rfl⟩
        · exact hsource e (List.mem_append_right _ hin)

theorem mkListOfDisks_built (ndkmap : Nat) (xs : List Insertion) : Built xs (mkListOfDisks ndkmap xs) := by
  induction xs using List.reverseRecOn with
  | nil => exact ⟨.nil, List.nodup_nil, fun nm => by simp [mkListOfDisks], nofun⟩
  | append_singleton xs x ih =>
      have hsnoc : mkListOfDisks ndkmap (xs ++ [x]) = insertDlistEnt x (mkListOfDisks ndkmap xs) := List.foldl_append ..
      rw [hsnoc]
      exact ih.insert x

end Insertions

section Finds

variable {ndkmap : Nat} {cmpbuf : List Char} {dv : Int} {l : List (DiskListEnt ndkmap)} {e : DiskListEnt ndkmap}

def Exact (l : List (DiskListEnt ndkmap)) (dtype : List Char) (dnum : Int) : Prop := ∃ e ∈ l, e.dtype = dtype ∧ e.dnum = dnum

structure Landed (l : List (DiskListEnt ndkmap)) (dtype : List Char) (dnum : Int) (e : DiskListEnt ndkmap) : Prop where
  typed : ∃ x ∈ l, x.dtype = dtype
  first : ∃ l₁ l₂, l = l₁ ++ e :: l₂ ∧ ∀ x ∈ l₁, x.dtype ≤ dtype → x.dnum < dnum
  dtype_le : e.dtype ≤ dtype
  dnum_eq : e.dnum = dnum

theorem head_dropWhile {r : List (DiskListEnt ndkmap)} : (∃ stuff, (r.dropWhile fun x => x.dnum < dv) = e :: stuff ∧ e.dnum = dv) ↔
    (∃ l₁ l₂, r = l₁ ++ e :: l₂ ∧ ∀ x ∈ l₁, x.dnum < dv) ∧ e.dnum = dv := by
  constructor
  · rintro ⟨stuff, hdrop, heq⟩
    refine ⟨⟨r.takeWhile fun x => x.dnum < dv, stuff, ?_, fun x hx => ?_⟩, heq⟩
    · rw [← hdrop, List.takeWhile_append_dropWhile]
    · have hlt : decide (x.dnum < dv) = true := List.mem_takeWhile_imp (p := fun x : DiskListEnt ndkmap => decide (x.dnum < dv)) hx
      exact of_decide_eq_true hlt
  · rintro ⟨⟨l₁, l₂, rfl, hl₁⟩, heq⟩
    refine ⟨l₂, ?_, heq⟩
    rw [List.dropWhile_append_of_pos fun x hx => decide_eq_true (hl₁ x hx), List.dropWhile_cons_of_neg]
    rw [heq, decide_eq_true_eq]
    exact lt_irrefl dv

theorem landed_append {p r : List (DiskListEnt ndkmap)} (hp : ∀ x ∈ p, cmpbuf < x.dtype) (hr : ∀ x ∈ r, x.dtype ≤ cmpbuf) :
    Landed (p ++ r) cmpbuf dv e ↔
      (∃ x ∈ r, x.dtype = cmpbuf) ∧ (∃ l₁ l₂, r = l₁ ++ e :: l₂ ∧ ∀ x ∈ l₁, x.dnum < dv) ∧ e.dnum = dv := by
  constructor
  · intro h
    refine ⟨?_, ?_, h.dnum_eq⟩
    · obtain ⟨x, hx, htype⟩ := h.typed
      rcases List.mem_append.mp hx with hin | hin
      · exact absurd htype (hp x hin).ne'
      · exact ⟨x, hin, htype⟩
    · obtain ⟨l₁, l₂, hsplit, hl₁⟩ := h.first
      rcases List.append_eq_append_iff.mp hsplit with ⟨as, rfl, rfl⟩ | ⟨bs, rfl, hbs⟩
      · exact ⟨as, l₂, rfl, fun x hx => hl₁ x (List.mem_append_right _ hx) (hr x (List.mem_append_left _ hx))⟩
      · cases bs with
        | nil => exact ⟨[], l₂, hbs.symm, nofun⟩
        | cons b bs =>
            obtain ⟨rfl, -⟩ := List.cons.inj hbs
            exact absurd h.dtype_le (not_le.mpr (hp e (List.mem_append_right _ (List.mem_cons_self ..))))
  · rintro ⟨⟨x, hx, htype⟩, ⟨l₁, l₂, rfl, hl₁⟩, hnum⟩
    refine ⟨⟨x, List.mem_append_right _ hx, htype⟩, ⟨p ++ l₁, l₂, (List.append_assoc ..).symm, fun y hy hle => ?_⟩,
      hr e (List.mem_append_right _ (List.mem_cons_self ..)), hnum⟩
    rcases List.mem_append.mp hy with hin | hin
    · exact absurd hle (not_le.mpr (hp y hin))
    · exact hl₁ y hin

theorem findEntry_spec (cmpbuf : List Char) (dv : Int) (hsorted : l.Pairwise Le) (hne : l ≠ []) :
    ∃ found, findEntry cmpbuf dv l = some found ∧ ∀ e, found = some e ↔ Landed l cmpbuf dv e := by
  obtain ⟨p, r, rfl, hp, hr⟩ := followTypes_spec cmpbuf [] l none hne
  have hrest := (List.pairwise_append.mp hsorted).2.1
  unfold findEntry
  rcases hr with ⟨rfl, hrun⟩ | ⟨x, stuff, rfl, hge, hrun⟩
  · rw [hrun]
    refine ⟨none, rfl, fun e => iff_of_false nofun fun h => ?_⟩
    obtain ⟨x, hx, htype⟩ := h.typed
    rw [List.append_nil] at hx
    exact (hp x hx).ne htype.symm
  · have hfirst := le_of_sorted_cons hrest
    have hle : ∀ y ∈ x :: stuff, y.dtype ≤ cmpbuf := fun y hy => (hfirst y hy).trans (not_lt.mp hge)
    rw [hrun]
    dsimp only
    by_cases htype : cmpbuf = x.dtype
    · have hlanded (e : DiskListEnt ndkmap) :
          Landed (p ++ x :: stuff) cmpbuf dv e ↔ ∃ s, ((x :: stuff).dropWhile fun x => x.dnum < dv) = e :: s ∧ e.dnum = dv := by
        rw [landed_append hp hle, head_dropWhile]
        exact and_iff_right ⟨x, List.mem_cons_self .., htype.symm⟩
      rw [strcmp_eq.mpr htype]
      cases hdrop : (x :: stuff).dropWhile fun x => x.dnum < dv with
      | nil =>
          refine ⟨none, rfl, fun e => iff_of_false nofun fun h => ?_⟩
          obtain ⟨s, hs, -⟩ := (hlanded e).mp h
          rw [hdrop] at hs
          cases hs
      | cons y s =>
          dsimp only
          by_cases hnum : y.dnum = dv
          · rw [if_pos hnum]
            refine ⟨some y, rfl, fun e => ?_⟩
            rw [hlanded, hdrop]
            constructor
            · rintro ⟨rfl⟩
              exact ⟨s, rfl, hnum⟩
            · rintro ⟨s', hs, -⟩
              rw [(List.cons.inj hs).1]
          · rw [if_neg hnum]
            refine ⟨none, rfl, fun e => iff_of_false nofun fun h => ?_⟩
            obtain ⟨s', hs, heq⟩ := (hlanded e).mp h
            rw [hdrop] at hs
            obtain ⟨rfl, -⟩ := List.cons.inj hs
            exact hnum heq
    · have hgt : strcmp cmpbuf x.dtype = .gt := by
        unfold strcmp
        rw [if_neg hge, if_neg htype]
      rw [hgt]
      refine ⟨none, rfl, fun e => iff_of_false nofun fun h => ?_⟩
      obtain ⟨⟨y, hy, heq⟩, -⟩ := (landed_append hp hle).mp h
      have hlt : x.dtype < cmpbuf := lt_of_le_of_ne (not_lt.mp hge) (Ne.symm htype)
      exact (lt_of_le_of_lt (hfirst y hy) hlt).ne heq

theorem Landed.mem (h : Landed l cmpbuf dv e) : e ∈ l := by
  obtain ⟨l₁, l₂, rfl, -⟩ := h.first
  exact List.mem_append_right _ (List.mem_cons_self ..)

theorem Exact.landed (h : Exact l cmpbuf dv) (hsorted : l.Pairwise Le) : ∃ e, Landed l cmpbuf dv e ∧ e.dtype = cmpbuf := by
  obtain ⟨x, hx, htype, hnum⟩ := h
  cases hfind : l.find? (fun e => e.dtype = cmpbuf ∧ e.dnum = dv) with
  | none => exact absurd (decide_eq_true ⟨htype, hnum⟩) (List.find?_eq_none.mp hfind x hx)
  | some e =>
      obtain ⟨he, l₁, l₂, hsplit, hl₁⟩ := List.find?_eq_some_iff_append.mp hfind
      obtain ⟨hetype, henum⟩ := of_decide_eq_true he
      refine ⟨e, ⟨⟨x, hx, htype⟩, ⟨l₁, l₂, hsplit, fun y hy hle => ?_⟩, hetype.le, henum⟩, hetype⟩
      have hnot : ¬ (y.dtype = cmpbuf ∧ y.dnum = dv) := by
        have hy' := hl₁ y hy
        rw [Bool.not_eq_true', decide_eq_false_iff_not] at hy'
        exact hy'
      rcases (List.pairwise_append.mp (hsplit ▸ hsorted)).2.2 y hy e (List.mem_cons_self ..) with hlt | ⟨hsame, hle'⟩
      · exact absurd hle (not_le.mpr (hetype ▸ hlt))
      · exact lt_of_le_of_ne (henum ▸ hle') fun heq => hnot ⟨hsame.trans hetype, heq⟩

theorem Landed.unique {e' : DiskListEnt ndkmap} (hsorted : l.Pairwise Le) (h : Landed l cmpbuf dv e) (h' : Landed l cmpbuf dv e') :
    e = e' := by
  obtain ⟨found, -, hfound⟩ := findEntry_spec cmpbuf dv hsorted (List.ne_nil_of_mem h.mem)
  exact Option.some.inj (((hfound e).mpr h).symm.trans ((hfound e').mpr h'))

def Strays (l : List (DiskListEnt ndkmap)) (dtype : List Char) (dnum : Int) : Prop := ∃ e, Landed l dtype dnum e ∧ e.dtype ≠ dtype

theorem not_strays (h : Exact l cmpbuf dv) (hsorted : l.Pairwise Le) : ¬ Strays l cmpbuf dv := by
  rintro ⟨e, he, hne⟩
  obtain ⟨e', he', htype⟩ := h.landed hsorted
  exact hne (he.unique hsorted he' ▸ htype)

theorem not_landed_iff (hsorted : l.Pairwise Le) : (∀ e, ¬ Landed l cmpbuf dv e) ↔ ¬ Exact l cmpbuf dv ∧ ¬ Strays l cmpbuf dv := by
  constructor
  · intro h
    refine ⟨fun hexact => ?_, fun ⟨e, he, _⟩ => h e he⟩
    obtain ⟨e, he, -⟩ := hexact.landed hsorted
    exact h e he
  · rintro ⟨hexact, hstrays⟩ e he
    by_cases htype : e.dtype = cmpbuf
    · exact hexact ⟨e, he.mem, htype, he.dnum_eq⟩
    · exact hstrays ⟨e, he, htype⟩

end Finds

section Lookups

variable {ndkmap : Nat} {l : List (DiskListEnt ndkmap)} {e : DiskListEnt ndkmap}

/-- The name of a kstat: the driver, the instance, and the letter of a partition. -/
structure KsName where
  driver : List Char
  num : Nat
  letter : Option Char
  isInt : num < 2 ^ 31

def KsName.text (k : KsName) : List Char :=
  k.driver ++ decimal k.num ++ match k.letter with
    | none => []
    | some c => [',', c]

def indexOf (ndkmap : Nat) (c : Char) : Option (Fin ndkmap) :=
  if h : 'a'.toNat ≤ c.toNat ∧ c.toNat - 'a'.toNat < ndkmap then some ⟨c.toNat - 'a'.toNat, h.2⟩ else none

def KsName.nameOf (k : KsName) (e : DiskListEnt ndkmap) : Text ndkmap :=
  ⟨e, (k.letter.bind (indexOf ndkmap)).filter fun i => (e.dpart i).isSome⟩

/-- What the lookup has to give. -/
structure Named (l : List (DiskListEnt ndkmap)) (k : KsName) : Prop where
  found : Exact l k.driver k.num →
    ∃ e ∈ l, e.dtype = k.driver ∧ e.dnum = k.num ∧ lookupKsName k.text l = some (some (k.nameOf e))
  none : ¬ Exact l k.driver k.num → lookupKsName k.text l = some none

def KsName.behind (k : KsName) (ndkmap : Nat) : Prop := ∃ c, k.letter = some c ∧ c.toNat = 'a'.toNat + ndkmap

theorem digit_ne {n : Nat} {c : Char} (hc : c ∈ decimal n) : c ≠ ',' ∧ c.isAlpha = false := by
  have hcodes := isDigit_codes (isDigit_of_mem_decimal hc)
  refine ⟨fun h => ?_, ?_⟩
  · rw [h] at hcodes
    exact absurd hcodes (by decide)
  · rw [Bool.eq_false_iff]
    intro halpha
    have hlt : 57 < c.toNat := by
      rcases Bool.or_eq_true_iff.mp halpha with h | h
      · exact lt_of_lt_of_le (by decide) (UInt32.le_iff_toNat_le.mp (of_decide_eq_true h).1)
      · exact lt_of_lt_of_le (by decide) (UInt32.le_iff_toNat_le.mp (of_decide_eq_true (Bool.and_eq_true_iff.mp h).1))
    omega

theorem partitionOf_none (k : KsName) (hcomma : ',' ∉ k.driver) (hletter : k.letter = none) : partitionOf ndkmap k.text = -1 := by
  have hall : ∀ c ∈ k.driver ++ decimal k.num, decide (c ≠ ',') = true := by
    intro c hc
    rcases List.mem_append.mp hc with hc | hc
    · exact decide_eq_true fun h => hcomma (h ▸ hc)
    · exact decide_eq_true (digit_ne hc).1
  unfold partitionOf KsName.text
  rw [hletter, List.append_nil, List.dropWhile_eq_nil_iff.mpr hall]

theorem partitionOf_some (k : KsName) (hcomma : ',' ∉ k.driver) {c : Char} (hletter : k.letter = some c) :
    partitionOf ndkmap k.text =
      if (c.toNat : Int) - 'a'.toNat < 0 ∨ ndkmap < (c.toNat : Int) - 'a'.toNat then -1 else (c.toNat : Int) - 'a'.toNat := by
  have hall : ∀ c ∈ k.driver ++ decimal k.num, decide (c ≠ ',') = true := by
    intro c hc
    rcases List.mem_append.mp hc with hc | hc
    · exact decide_eq_true fun h => hcomma (h ▸ hc)
    · exact decide_eq_true (digit_ne hc).1
  unfold partitionOf KsName.text
  rw [hletter, List.dropWhile_append_of_pos hall]
  rfl

theorem textOf_index (e : DiskListEnt ndkmap) (i : Fin ndkmap) :
    textOf e (i.val : Int) = some ⟨e, (some i).filter fun i => (e.dpart i).isSome⟩ := by
  have hi : (i.val : Int).toNat < ndkmap := i.isLt
  rw [textOf, if_pos (by omega), dif_pos hi]
  change (if (e.dpart i).isSome = true then some (⟨e, some i⟩ : Text ndkmap) else some ⟨e, none⟩) = _
  by_cases hsome : (e.dpart i).isSome = true
  · rw [if_pos hsome, Option.filter_some, if_pos hsome]
  · rw [if_neg hsome, Option.filter_some, if_neg hsome]

theorem textOf_partitionOf (k : KsName) (e : DiskListEnt ndkmap) (hcomma : ',' ∉ k.driver) :
    textOf e (partitionOf ndkmap k.text) = some (k.nameOf e) ↔ ¬ k.behind ndkmap := by
  cases hletter : k.letter with
  | none =>
      rw [partitionOf_none k hcomma hletter]
      refine iff_of_true ?_ ?_
      · rw [textOf, if_neg (not_not.mpr rfl), KsName.nameOf, hletter]
        rfl
      · rintro ⟨c, hc, -⟩
        rw [hletter] at hc
        cases hc
  | some c =>
      have hbehind : k.behind ndkmap ↔ c.toNat = 'a'.toNat + ndkmap := by
        constructor
        · rintro ⟨c', hc', heq⟩
          rw [hletter] at hc'
          exact Option.some.inj hc' ▸ heq
        · exact fun heq => ⟨c, hletter, heq⟩
      rw [partitionOf_some k hcomma hletter, hbehind, KsName.nameOf, hletter, Option.bind_some]
      by_cases hout : (c.toNat : Int) - 'a'.toNat < 0 ∨ ndkmap < (c.toNat : Int) - 'a'.toNat
      · rw [if_pos hout, textOf, if_neg (not_not.mpr rfl), indexOf, dif_neg (by omega)]
        exact iff_of_true rfl (by omega)
      · rw [if_neg hout]
        by_cases hlt : c.toNat - 'a'.toNat < ndkmap
        · have hindex : (c.toNat : Int) - 'a'.toNat = ((⟨c.toNat - 'a'.toNat, hlt⟩ : Fin ndkmap).val : Int) := by
            dsimp only
            omega
          rw [hindex, textOf_index, indexOf, dif_pos ⟨by omega, hlt⟩]
          exact iff_of_true rfl (by omega)
        · rw [textOf, if_pos (by omega), dif_neg (by omega)]
          exact iff_of_false nofun (by omega)

theorem alpha_driver (k : KsName) (h : ∀ c ∈ k.driver, c.isAlpha = true) :
    (k.text.takeWhile (· ≠ ',')).takeWhile Char.isAlpha = k.driver ∧
      (k.text.takeWhile (· ≠ ',')).dropWhile Char.isAlpha = decimal k.num := by
  have hcomma : ',' ∉ k.driver := fun hin => absurd (h ',' hin) (by decide)
  have hall : ∀ c ∈ k.driver ++ decimal k.num, decide (c ≠ ',') = true := by
    intro c hc
    rcases List.mem_append.mp hc with hc | hc
    · exact decide_eq_true fun h => hcomma (h ▸ hc)
    · exact decide_eq_true (digit_ne hc).1
  have hnm : k.text.takeWhile (· ≠ ',') = k.driver ++ decimal k.num := by
    unfold KsName.text
    rw [List.takeWhile_append_of_pos hall]
    cases k.letter with
    | none => exact List.append_nil _
    | some c => exact List.append_nil _
  rw [hnm, List.takeWhile_append_of_pos h, List.dropWhile_append_of_pos h]
  cases hdec : decimal k.num with
  | nil => exact ⟨List.append_nil _, rfl⟩
  | cons c s =>
      have hc : ¬ c.isAlpha = true := Bool.eq_false_iff.mp (digit_ne (hdec ▸ List.mem_cons_self ..)).2
      rw [List.takeWhile_cons_of_neg hc, List.dropWhile_cons_of_neg hc]
      exact ⟨List.append_nil _, rfl⟩

theorem atoi_decimal {n : Nat} (h : n < 2 ^ 31) : atoi (decimal n) = n := by
  have hle : (n : Int) ≤ longMax := by
    rw [longMax]
    omega
  rw [atoi, strtol_decimal hle]
  exact Int.bmod_eq_of_le (by omega) (by omega)

theorem decimal_ne_nil (n : Nat) : decimal n ≠ [] := Nat.toDigits_ne_nil

def letters (devNm : List Char) : List Char := (devNm.takeWhile (· ≠ ',')).takeWhile Char.isAlpha

def rest (devNm : List Char) : List Char := (devNm.takeWhile (· ≠ ',')).dropWhile Char.isAlpha

/-- With a driver of letters the instance does not stray to another type, and if the entry exists the
letter is not the one behind the partitions. With another driver there is no such entry, and what
is read instead finds none. -/
structure Readable (l : List (DiskListEnt ndkmap)) (k : KsName) : Prop where
  alpha : (∀ c ∈ k.driver, c.isAlpha = true) →
    ¬ Strays l k.driver k.num ∧ (Exact l k.driver k.num → ¬ k.behind ndkmap)
  other : ¬ (∀ c ∈ k.driver, c.isAlpha = true) →
    ¬ Exact l k.driver k.num ∧
      (rest k.text ≠ [] → ¬ Exact l (letters k.text) (atoi (rest k.text)) ∧ ¬ Strays l (letters k.text) (atoi (rest k.text)))

theorem textOf_ent {p : Int} {t : Text ndkmap} (h : textOf e p = some t) : t.ent = e := by
  unfold textOf at h
  split_ifs at h <;> cases h <;> rfl

theorem lookup_eq (s : List Char) (l : List (DiskListEnt ndkmap)) :
    lookupKsName s l =
      if rest s ≠ [] then
        match findEntry (letters s) (atoi (rest s)) l with
        | none => none
        | some none => some none
        | some (some e) => (textOf e (partitionOf ndkmap s)).map some
      else some none := rfl

theorem lookup_landed (hsorted : l.Pairwise Le) {s : List Char} (hrest : rest s ≠ []) (he : Landed l (letters s) (atoi (rest s)) e) :
    lookupKsName s l = (textOf e (partitionOf ndkmap s)).map some := by
  obtain ⟨found, hfind, hfound⟩ := findEntry_spec (letters s) (atoi (rest s)) hsorted (List.ne_nil_of_mem he.mem)
  obtain rfl := (hfound e).mpr he
  rw [lookup_eq, if_pos hrest, hfind]

theorem lookup_nothing (hsorted : l.Pairwise Le) (hne : l ≠ []) {s : List Char}
    (h : rest s ≠ [] → ∀ e, ¬ Landed l (letters s) (atoi (rest s)) e) : lookupKsName s l = some none := by
  rw [lookup_eq]
  by_cases hrest : rest s = []
  · exact if_neg (not_not.mpr hrest)
  · obtain ⟨found, hfind, hfound⟩ := findEntry_spec (letters s) (atoi (rest s)) hsorted hne
    rw [if_pos hrest, hfind]
    cases found with
    | none => rfl
    | some e => exact absurd ((hfound e).mp rfl) (h hrest e)

theorem lookup_some {s : List Char} {t : Text ndkmap} (hsorted : l.Pairwise Le) (hne : l ≠ []) (h : lookupKsName s l = some (some t)) :
    rest s ≠ [] ∧ Landed l (letters s) (atoi (rest s)) t.ent ∧ textOf t.ent (partitionOf ndkmap s) = some t := by
  have hnot : ¬ (rest s ≠ [] → ∀ e, ¬ Landed l (letters s) (atoi (rest s)) e) := fun hnone => by
    rw [lookup_nothing hsorted hne hnone] at h
    cases h
  push Not at hnot
  obtain ⟨hrest, e, he⟩ := hnot
  rw [lookup_landed hsorted hrest he] at h
  obtain ⟨t', ht', heq⟩ := Option.map_eq_some_iff.mp h
  obtain rfl := Option.some.inj heq
  have hent := textOf_ent ht'
  rw [hent]
  exact ⟨hrest, he, ht'⟩

theorem named_alpha {k : KsName} (hsorted : l.Pairwise Le) (hne : l ≠ []) (halpha : ∀ c ∈ k.driver, c.isAlpha = true) :
    Named l k ↔ ¬ Strays l k.driver k.num ∧ (Exact l k.driver k.num → ¬ k.behind ndkmap) := by
  have hcomma : ',' ∉ k.driver := fun hin => absurd (halpha ',' hin) (by decide)
  obtain ⟨hletters, hrest⟩ := alpha_driver k halpha
  have hletters : letters k.text = k.driver := hletters
  have hrest : rest k.text = decimal k.num := hrest
  have hatoi : atoi (rest k.text) = k.num := by rw [hrest, atoi_decimal k.isInt]
  have hrest' : rest k.text ≠ [] := hrest ▸ decimal_ne_nil k.num
  constructor
  · intro h
    refine ⟨?_, fun hexact => ?_⟩
    · rintro ⟨e, he, hne'⟩
      have hexact : ¬ Exact l k.driver k.num := fun hexact => not_strays hexact hsorted ⟨e, he, hne'⟩
      have hnone := h.none hexact
      rw [lookup_landed hsorted hrest' (by rwa [hletters, hatoi])] at hnone
      obtain ⟨t, -, ht⟩ := Option.map_eq_some_iff.mp hnone
      cases ht
    · obtain ⟨e, -, -, -, hlookup⟩ := h.found hexact
      exact (textOf_partitionOf k e hcomma).mp (lookup_some hsorted hne hlookup).2.2
  · rintro ⟨hstrays, hbehind⟩
    refine ⟨fun hexact => ?_, fun hexact => ?_⟩
    · obtain ⟨e, he, htype⟩ := hexact.landed hsorted
      refine ⟨e, he.mem, htype, he.dnum_eq, ?_⟩
      rw [lookup_landed hsorted hrest' (by rwa [hletters, hatoi]), (textOf_partitionOf k e hcomma).mpr (hbehind hexact)]
      rfl
    · refine lookup_nothing hsorted hne fun _ => ?_
      rw [hletters, hatoi]
      exact (not_landed_iff hsorted).mpr ⟨hexact, hstrays⟩

theorem lt_append_cons (a : List Char) (c : Char) (b : List Char) : a < a ++ c :: b := by
  induction a with
  | nil => exact List.nil_lt_cons c b
  | cons x a ih => exact List.cons_lt_cons_iff.mpr (.inr ⟨rfl, ih⟩)

theorem letters_lt (k : KsName) (h : ¬ ∀ c ∈ k.driver, c.isAlpha = true) : letters k.text < k.driver := by
  have hdrop : k.driver.dropWhile Char.isAlpha ≠ [] := fun hnil => h (List.dropWhile_eq_nil_iff.mp hnil)
  obtain ⟨c, b, hcb⟩ := List.exists_cons_of_ne_nil hdrop
  have hc : ¬ c.isAlpha = true := by
    have hnot := List.head?_dropWhile_not Char.isAlpha k.driver
    rw [hcb] at hnot
    exact Bool.eq_false_iff.mp hnot
  generalize ha : k.driver.takeWhile Char.isAlpha = a at *
  have hdriver : k.driver = a ++ c :: b := by rw [← hcb, ← ha, List.takeWhile_append_dropWhile]
  have halpha : ∀ x ∈ a, x.isAlpha = true := fun x hx => List.mem_takeWhile_imp (ha ▸ hx)
  have hcomma : ∀ x ∈ a, decide (x ≠ ',') = true := fun x hx => decide_eq_true fun heq => by
    have hx' := halpha x hx
    rw [heq] at hx'
    exact absurd hx' (by decide)
  have hletters : letters k.text = a := by
    unfold letters KsName.text
    rw [hdriver, List.append_assoc, List.append_assoc, List.takeWhile_append_of_pos hcomma, List.takeWhile_append_of_pos halpha,
      List.cons_append]
    by_cases heq : c = ','
    · rw [List.takeWhile_cons_of_neg (by simpa using heq)]
      exact List.append_nil a
    · rw [List.takeWhile_cons_of_pos (by simpa using heq), List.takeWhile_cons_of_neg hc, List.append_nil]
  rw [hletters, hdriver]
  exact lt_append_cons a c b

theorem named_other {k : KsName} (hsorted : l.Pairwise Le) (hne : l ≠ []) (hother : ¬ ∀ c ∈ k.driver, c.isAlpha = true) :
    Named l k ↔ ¬ Exact l k.driver k.num ∧
      (rest k.text ≠ [] → ¬ Exact l (letters k.text) (atoi (rest k.text)) ∧ ¬ Strays l (letters k.text) (atoi (rest k.text))) := by
  constructor
  · intro h
    have hexact : ¬ Exact l k.driver k.num := by
      intro hexact
      obtain ⟨e, -, htype, -, hlookup⟩ := h.found hexact
      have hlanded := (lookup_some hsorted hne hlookup).2.1
      exact absurd htype (lt_of_le_of_lt hlanded.dtype_le (letters_lt k hother)).ne
    refine ⟨hexact, fun hrest => (not_landed_iff hsorted).mp fun e he => ?_⟩
    have hnone := h.none hexact
    rw [lookup_landed hsorted hrest he] at hnone
    obtain ⟨t, -, ht⟩ := Option.map_eq_some_iff.mp hnone
    cases ht
  · rintro ⟨hexact, hnone⟩
    exact ⟨fun h => absurd h hexact,
      fun _ => lookup_nothing hsorted hne fun hrest => (not_landed_iff hsorted).mpr (hnone hrest)⟩

end Lookups

theorem names_looked_up (ndkmap : Nat) (xs : List Insertion) :
    Built xs (mkListOfDisks ndkmap xs) ∧
      (mkListOfDisks ndkmap xs ≠ [] →
        ∀ k, Named (mkListOfDisks ndkmap xs) k ↔ Readable (mkListOfDisks ndkmap xs) k) := by
  have hbuilt := mkListOfDisks_built ndkmap xs
  refine ⟨hbuilt, fun hne k => ?_⟩
  by_cases halpha : ∀ c ∈ k.driver, c.isAlpha = true
  · rw [named_alpha hbuilt.sorted hne halpha]
    exact ⟨fun h => ⟨fun _ => h, fun hother => absurd halpha hother⟩, fun h => h.alpha halpha⟩
  · rw [named_other hbuilt.sorted hne halpha]
    exact ⟨fun h => ⟨fun h' => absurd h' halpha, fun _ => h⟩, fun h => h.other halpha⟩

def disk (dty nm : List Char) (dn : Int) : Insertion where
  nm := nm
  dn := dn
  dty := some dty
  devtype := .disk

def twoDisks : List Insertion := [disk ['s', 'd'] ['c', '1'] 0, disk ['c', 'm', 'd', 'k'] ['c', '0'] 1]

def sd1 : KsName := ⟨['s', 'd'], 1, none, by decide⟩

theorem names_looked_up_two : Built twoDisks (mkListOfDisks 16 twoDisks) ∧
    (Named (mkListOfDisks 16 twoDisks) sd1 ↔ Readable (mkListOfDisks 16 twoDisks) sd1) := by
  obtain ⟨hbuilt, hnamed⟩ := names_looked_up 16 twoDisks
  exact ⟨hbuilt, hnamed (List.cons_ne_nil _ _) sd1⟩

/-- There is no sd1, and the name of cmdk1 is returned. -/
theorem other_disk_found : ¬ ∀ (ndkmap : Nat) (xs : List Insertion),
    Built xs (mkListOfDisks ndkmap xs) ∧
      (mkListOfDisks ndkmap xs ≠ [] → ∀ k, Named (mkListOfDisks ndkmap xs) k) := by
  intro hall
  have hnamed := (hall 16 twoDisks).2 (List.cons_ne_nil _ _) sd1
  have hnot : ¬ Exact (mkListOfDisks 16 twoDisks) sd1.driver sd1.num := by
    rintro ⟨e, he, htype, hnum⟩
    rcases List.mem_cons.mp he with rfl | he
    · exact absurd hnum (by decide)
    · obtain rfl := List.mem_singleton.mp he
      exact absurd htype (by decide)
  have hlookup : (lookupKsName sd1.text (mkListOfDisks 16 twoDisks)).map Option.isSome = some true := rfl
  rw [hnamed.none hnot] at hlookup
  cases hlookup

end OiUserland.HealthMonitor.DiskNames
