import Mathlib.Tactic.IntervalCases
import OiUserland.Lib.Runs
import OiUserland.Wrapper.Searches

namespace OiUserland.Wrapper.BusLists

open Lib.Chains Lib.Runs Plugins FindBusses Searches

section Splice

variable {h h' h'' : Heap UsbBus} {tmp last head head' a b c e : Nat} {bs xs ys l : List Nat} {lists : List (List Nat)}

abbrev next (h : Heap UsbBus) : Nat → Option Nat := linkOf UsbBus.next h

theorem lastBus_iff (ha : a ≠ 0) : lastBus h a = some e ↔ ∃ l, IsChain (next h) a l ∧ l.getLast? = some e := endOf_iff ha

structure Spliced (h h' : Heap UsbBus) : Prop where
  keeps : Keeps (next h) (next h')
  isSome : ∀ c, (next h' c).isSome = (next h c).isSome
  devices : ∀ c, (h'.lookup c).map UsbBus.devices = (h.lookup c).map UsbBus.devices

theorem Spliced.refl (h : Heap UsbBus) : Spliced h h := ⟨.refl _, fun _ => rfl, fun _ => rfl⟩

theorem Spliced.trans (hs : Spliced h h') (hs' : Spliced h' h'') : Spliced h h'' :=
  ⟨hs.keeps.trans hs'.keeps, fun c => (hs'.isSome c).trans (hs.isSome c), fun c => (hs'.devices c).trans (hs.devices c)⟩

theorem spliced_setNext (hlast : next h last = some 0) : Spliced h (setNext last b h) :=
  ⟨keeps_of_ne hlast fun _ hc => link_setNext_ne hc, fun _ => isSome_setNext, fun _ => devices_setNext⟩

theorem next_setNext (hlast : next h last = some 0) : next (setNext last b h) last = some b :=
  link_setNext (Option.isSome_iff_exists.mpr ⟨0, hlast⟩)

theorem splice_filter (tmp last head : Nat) (bs : List Nat) (h : Heap UsbBus) :
    splice tmp last head (bs.filter (· ≠ 0)) h = splice tmp last head bs h := by
  induction bs generalizing tmp last head h with
  | nil => rfl
  | cons b bs ih =>
      by_cases hb : b = 0
      · subst hb
        rw [List.filter_cons_of_neg (by simp), ih, splice, if_pos rfl, if_pos rfl, ite_self]
      · have hkeep : (b :: bs).filter (· ≠ 0) = b :: bs.filter (· ≠ 0) := List.filter_cons_of_pos (by simpa using hb)
        rw [hkeep, splice, splice]
        simp only [ih, if_neg hb]

/-- One round of the loop. The cell that is linked to the bus led nowhere. -/
theorem splice_cons_cases (hb : b ≠ 0) (hlast : tmp ≠ 0 → next h last = some 0)
    (hs : splice tmp last head (b :: bs) h = some (head', h'')) :
    ∃ h₁ tmp' e head₁, (tmp = 0 → h₁ = h) ∧ (tmp ≠ 0 → h₁ = setNext last b h) ∧ Spliced h h₁ ∧ lastBus h₁ b = some e ∧
      tmp' ≠ 0 ∧ splice tmp' e head₁ bs h₁ = some (head', h'') := by
  rw [splice] at hs
  by_cases htmp : tmp = 0
  · rw [if_pos htmp, if_neg hb, Option.bind_eq_some_iff] at hs
    obtain ⟨e, he, hs⟩ := hs
    exact ⟨h, b, e, b, fun _ => rfl, fun hne => absurd htmp hne, .refl h, he, hb, hs⟩
  · rw [if_neg htmp, if_neg hb, Option.bind_eq_some_iff] at hs
    obtain ⟨e, he, hs⟩ := hs
    exact ⟨_, tmp, e, head, fun hne => absurd hne htmp, fun _ => rfl, spliced_setNext (hlast htmp), he, htmp, hs⟩

theorem lastBus_last (hb : b ≠ 0) (he : lastBus h b = some e) : next h e = some 0 := by
  obtain ⟨l, hl, hlast⟩ := (lastBus_iff hb).mp he
  exact hl.link_last hlast

theorem splice_spliced (hbs : 0 ∉ bs) (hlast : tmp ≠ 0 → next h last = some 0)
    (hs : splice tmp last head bs h = some (head', h')) : Spliced h h' := by
  induction bs generalizing tmp last head h with
  | nil =>
      obtain ⟨-, rfl⟩ := Prod.mk.inj (Option.some.inj hs)
      exact .refl h
  | cons b bs ih =>
      have hb : b ≠ 0 := fun hb => hbs (hb ▸ List.mem_cons_self ..)
      obtain ⟨h₁, tmp', e, head₁, -, -, hstep, he, -, hs⟩ := splice_cons_cases hb hlast hs
      exact hstep.trans (ih (fun hin => hbs (List.mem_cons_of_mem _ hin)) (fun _ => lastBus_last hb he) hs)

theorem splice_pair (hbs : 0 ∉ xs ++ c :: b :: ys) (hlast : tmp ≠ 0 → next h last = some 0)
    (hs : splice tmp last head (xs ++ c :: b :: ys) h = some (head', h')) :
    ∃ h₁ l e, Spliced h h₁ ∧ IsChain (next h₁) c l ∧ l.getLast? = some e ∧ Spliced h₁ h' ∧ next h' e = some b := by
  induction xs generalizing tmp last head h with
  | nil =>
      rw [List.nil_append, List.mem_cons, List.mem_cons, not_or, not_or] at hbs
      obtain ⟨hc, hb, hys⟩ := hbs
      obtain ⟨h₁, tmp', e, head₁, -, -, hstep, he, htmp', hs⟩ := splice_cons_cases (Ne.symm hc) hlast hs
      have he0 := lastBus_last (Ne.symm hc) he
      obtain ⟨l, hl, hle⟩ := (lastBus_iff (Ne.symm hc)).mp he
      obtain ⟨h₂, tmp'', e', head₂, -, hset, hstep', he', -, hs⟩ := splice_cons_cases (Ne.symm hb) (fun _ => he0) hs
      have hrest := splice_spliced hys (fun _ => lastBus_last (Ne.symm hb) he') hs
      refine ⟨h₁, l, e, hstep, hl, hle, hstep'.trans hrest, hrest.keeps e b ?_ (Ne.symm hb)⟩
      rw [hset htmp']
      exact next_setNext he0
  | cons x xs ih =>
      rw [List.cons_append, List.mem_cons, not_or] at hbs
      obtain ⟨h₁, tmp', e, head₁, -, -, hstep, he, -, hs⟩ := splice_cons_cases (Ne.symm hbs.1) hlast hs
      obtain ⟨h₂, l, e', hs₁, hrest⟩ := ih hbs.2 (fun _ => lastBus_last (Ne.symm hbs.1) he) hs
      exact ⟨h₂, l, e', hstep.trans hs₁, hrest⟩

theorem headD_ne_zero (hl : IsChain (next h) (l.headD 0) l) (hne : l ≠ []) : l.headD 0 ≠ 0 := by
  intro hzero
  rw [hzero] at hl
  exact hne hl.zero

theorem splice_joins {sofar : List Nat} (htmp : tmp ≠ 0) (hsofar : IsChain (next h) head sofar)
    (hlast : sofar.getLast? = some last) (hlists : ∀ l ∈ lists, IsChain (next h) (l.headD 0) l)
    (hdisj : (sofar :: lists).Pairwise List.Disjoint) :
    ∃ h', splice tmp last head (lists.map fun l => l.headD 0) h = some (head, h') ∧
      IsChain (next h') head (sofar ++ lists.flatten) := by
  induction lists generalizing sofar last h with
  | nil => exact ⟨h, rfl, by rwa [List.flatten_nil, List.append_nil]⟩
  | cons l lists ih =>
      obtain ⟨hsofar', hlists'⟩ := List.pairwise_cons.mp hdisj
      have hl := hlists l (List.mem_cons_self ..)
      by_cases hne : l = []
      · subst hne
        have hdisj' : (sofar :: lists).Pairwise List.Disjoint :=
          List.pairwise_cons.mpr ⟨fun m hm => hsofar' m (List.mem_cons_of_mem _ hm), (List.pairwise_cons.mp hlists').2⟩
        obtain ⟨h', hs, hchain⟩ := ih hsofar hlast (fun m hm => hlists m (List.mem_cons_of_mem _ hm)) hdisj'
        refine ⟨h', ?_, hchain⟩
        rw [List.map_cons, splice, if_neg htmp]
        exact hs
      · have hb := headD_ne_zero hl hne
        have hlast0 := hsofar.link_last hlast
        have hmem := List.mem_of_getLast? hlast
        have hothers (m : List Nat) (hm : sofar.Disjoint m) (hchain : IsChain (next h) (m.headD 0) m) :
            IsChain (next (setNext last (l.headD 0) h)) (m.headD 0) m :=
          hchain.congr fun c hc => link_setNext_ne fun hce => hm hmem (hce ▸ hc)
        have hdisjl : sofar.Disjoint l := hsofar' l (List.mem_cons_self ..)
        have hjoined := hsofar.join hl hlast hdisjl (next_setNext (b := l.headD 0) hlast0) fun c hc => link_setNext_ne hc
        have hend : (sofar ++ l).getLast? = some (l.getLast hne) := by
          rw [List.getLast?_append_of_ne_nil _ hne, List.getLast?_eq_some_getLast hne]
        have hdisj' : ((sofar ++ l) :: lists).Pairwise List.Disjoint := by
          obtain ⟨hl', hlists''⟩ := List.pairwise_cons.mp hlists'
          refine List.pairwise_cons.mpr ⟨fun m hm => List.disjoint_append_left.mpr ⟨?_, hl' m hm⟩, hlists''⟩
          exact hsofar' m (List.mem_cons_of_mem _ hm)
        obtain ⟨h', hs, hchain⟩ := ih hjoined hend (fun m hm => hothers m (hsofar' m (List.mem_cons_of_mem _ hm))
          (hlists m (List.mem_cons_of_mem _ hm))) hdisj'
        refine ⟨h', ?_, by rwa [List.flatten_cons, ← List.append_assoc]⟩
        have he : lastBus (setNext last (l.headD 0) h) (l.headD 0) = some (l.getLast hne) :=
          (lastBus_iff hb).mpr ⟨l, hothers l hdisjl hl, List.getLast?_eq_some_getLast hne⟩
        rw [List.map_cons, splice, if_neg htmp, if_neg hb, he, Option.bind_some]
        exact hs

theorem splice_all (last : Nat) (hhead : (∀ l ∈ lists, l = []) → head = 0) (hlists : ∀ l ∈ lists, IsChain (next h) (l.headD 0) l)
    (hdisj : lists.Pairwise List.Disjoint) :
    ∃ head' h', splice 0 last head (lists.map fun l => l.headD 0) h = some (head', h') ∧
      IsChain (next h') head' lists.flatten := by
  induction lists with
  | nil =>
      refine ⟨head, h, rfl, ?_⟩
      rw [hhead (by simp)]
      exact .nil
  | cons l lists ih =>
      obtain ⟨hl', hlists'⟩ := List.pairwise_cons.mp hdisj
      have hl := hlists l (List.mem_cons_self ..)
      by_cases hne : l = []
      · subst hne
        obtain ⟨head', h', hs, hchain⟩ := ih
          (fun hall => hhead fun m hm => (List.mem_cons.mp hm).elim (fun hm => hm) (hall m))
          (fun m hm => hlists m (List.mem_cons_of_mem _ hm)) hlists'
        exact ⟨head', h', by rw [List.map_cons, splice, if_pos rfl]; exact hs, hchain⟩
      · have hb := headD_ne_zero hl hne
        have he : lastBus h (l.headD 0) = some (l.getLast hne) :=
          (lastBus_iff hb).mpr ⟨l, hl, List.getLast?_eq_some_getLast hne⟩
        obtain ⟨h', hs, hchain⟩ := splice_joins hb hl (List.getLast?_eq_some_getLast hne)
          (fun m hm => hlists m (List.mem_cons_of_mem _ hm)) hdisj
        refine ⟨_, h', ?_, hchain⟩
        rw [List.map_cons, splice, if_pos rfl, if_neg hb, he, Option.bind_some]
        exact hs

end Splice

section Calls

variable {s s' t : WrapperState} {found : Nat → Search}

def allBusses (s : WrapperState) : List Nat := (List.range s.ploaded).flatMap s.own

def Joined (s : WrapperState) : Prop := IsChain s.link s.usbBusses (allBusses s) ∧ (allBusses s).Nodup

/-- The plug-ins are loaded, and none has been searched. -/
structure Fresh (s : WrapperState) : Prop where
  chain : ∀ i, IsChain s.link ((s.own i).headD 0) (s.own i)
  apart : ∀ i j a, a ∈ s.own i → a ∈ s.own j → i = j
  hidden : ∀ i, ¬ Exports s i → s.own i = []
  busp : ∀ i, (s.pInfo i).busp = 0
  headBusp : s.headBusp = 0
  usbBusses : s.usbBusses = 0

/-- No list has been put behind that of a plug-in whose busses others will follow, unless
the plug-in itself puts a new bus there. -/
def NotSpliced (found : Nat → Search) (s : WrapperState) : Prop :=
  ∀ i j, i < j → Exports s i → Exports s j → (found j).list ≠ [] →
    ∀ e, (found i).list.getLast? = some e → (s.own i).getLast? = some e → s.link e = some 0

/-- What holds between calls. The list of the last plug-in that has busses ends. -/
structure Tidy (s : WrapperState) : Prop where
  kept : Kept s
  hidden : Hidden s
  empty : (∀ i, s.own i = []) → s.headBusp = 0 ∧ s.usbBusses = 0
  ends : ∀ i e, (s.own i).getLast? = some e → (∀ j, i < j → s.own j = []) → s.link e = some 0

theorem Fresh.tidy (h : Fresh s) : Tidy s := by
  refine ⟨⟨fun i => leads_of_isChain (h.chain i), fun i a ha => (h.chain i).isSome ha, fun i => (h.chain i).nodup,
    fun i hi => (h.chain i).ne_zero hi rfl, h.apart⟩, ⟨h.hidden, fun i _ => h.busp i⟩,
    fun _ => ⟨h.headBusp, h.usbBusses⟩, fun i e he _ => (h.chain i).link_last he⟩

theorem own_of_not_lt (hh : Hidden s) {i : Nat} (hi : ¬ i < s.ploaded) : s.own i = [] := hh.own i fun h => hi h.1

theorem disjoint_own (hk : Kept s) (n : Nat) : ((List.range n).map s.own).Pairwise List.Disjoint := by
  rw [List.pairwise_map]
  refine List.nodup_range.imp fun hij a hi hj => hij (hk.apart _ _ a hi hj)

theorem ended (ht : Tidy s) (hx : Extends s found) (hs : NotSpliced found s) (is : List Nat) (hf : Found found is s t)
    (hall : ∀ i, i < s.ploaded → i ∈ is) {i e : Nat} (he : (t.own i).getLast? = some e) : t.link e = some 0 := by
  have hlast := hf.grown.last i e he
  split at hlast
  · rename_i hold
    rw [hlast]
    have hexp {j : Nat} (hj : t.own j ≠ []) : Exports s j := by
      by_contra hno
      exact hj (hf.hidden.own j fun h => hno ((hf.grown.exports j).mp h))
    have hlist {j : Nat} (hj : Exports s j) : t.own j = (found j).list := hf.lists j (hall j hj.1) hj
    by_cases hlater : ∃ j, i < j ∧ t.own j ≠ []
    · obtain ⟨j, hij, hj⟩ := hlater
      have hi := hexp fun hnil : t.own i = [] => by rw [hnil] at he; cases he
      exact hs i j hij hi (hexp hj) (hlist (hexp hj) ▸ hj) e (hlist hi ▸ he) hold
    · refine ht.ends i e hold fun j hij => ?_
      by_contra hj
      refine hlater ⟨j, hij, ?_⟩
      have hexp' : Exports s j := by
        by_contra hno
        exact hj (ht.hidden.own j hno)
      rw [hlist hexp']
      exact fun hnil => hj (List.sublist_nil.mp (hnil ▸ hx.sublist j hexp'))
  · exact hlast

theorem map_busp (hf : Found found (List.range s.ploaded) s t) :
    ((List.range t.ploaded).map fun i => (t.pInfo i).busp) = ((List.range s.ploaded).map t.own).map fun l => l.headD 0 := by
  rw [hf.grown.ploaded, List.map_map]
  exact List.map_congr_left fun i hi => hf.pointed i (.inr hi)

theorem allBusses_eq (s : WrapperState) : allBusses s = ((List.range s.ploaded).map s.own).flatten := List.flatMap_def

theorem own_nil_of_found (hx : Extends s found) {is : List Nat} (hf : Found found is s t)
    (hnil : ∀ i, t.own i = []) : ∀ i, s.own i = [] := by
  intro i
  rcases hf.grown.own i with hown | ⟨hexp, hown⟩
  · rw [← hown, hnil i]
  · exact List.sublist_nil.mp (hnil i ▸ hown ▸ hx.sublist i hexp)

theorem getLast?_allBusses (hh : Hidden s) {i e : Nat} (he : (s.own i).getLast? = some e)
    (hlater : ∀ j, i < j → s.own j = []) : (allBusses s).getLast? = some e := by
  have hi : i < s.ploaded := by
    by_contra hi
    rw [own_of_not_lt hh hi] at he
    cases he
  have hne : s.own i ≠ [] := fun hnil => by rw [hnil] at he; cases he
  obtain ⟨k, hk⟩ : ∃ k, s.ploaded = i + 1 + k := ⟨s.ploaded - (i + 1), by omega⟩
  have hrest : (((List.range k).map (i + 1 + ·)).flatMap s.own) = [] := by
    refine List.flatMap_eq_nil_iff.mpr fun j hj => ?_
    obtain ⟨d, -, rfl⟩ := List.mem_map.mp hj
    exact hlater _ (by omega)
  rw [allBusses, hk, List.range_add, List.flatMap_append, hrest, List.append_nil, List.range_succ, List.flatMap_append,
    List.flatMap_singleton, List.getLast?_append_of_ne_nil _ hne, he]

theorem tidy_spliced (hf : Found found (List.range s.ploaded) s t) {h' : Heap UsbBus}
    {head : Nat} (hs : Spliced t.busses h') (hjoined : Joined { t with busses := h', headBusp := head, usbBusses := head }) :
    Tidy { t with busses := h', headBusp := head, usbBusses := head } := by
  refine ⟨⟨fun i => leads_of_keeps (hf.kept.leads i) (hf.kept.nonzero i) hs.keeps, fun i a ha => ?_, hf.kept.nodup,
    hf.kept.nonzero, hf.kept.apart⟩, ⟨hf.hidden.own, hf.hidden.busp⟩, fun hnil => ?_, fun i e he hlater => ?_⟩
  · have hsome := hs.isSome a
    rw [WrapperState.link, hsome]
    exact hf.kept.allocated i a ha
  · have hchain := hjoined.1
    have hall : allBusses { t with busses := h', headBusp := head, usbBusses := head } = [] :=
      List.flatMap_eq_nil_iff.mpr fun i _ => hnil i
    rw [hall] at hchain
    have hzero : head = 0 := by
      cases hchain
      rfl
    exact ⟨hzero, hzero⟩
  · exact hjoined.1.link_last (getLast?_allBusses ⟨hf.hidden.own, hf.hidden.busp⟩ he hlater)

theorem usbFindBusses_joins (ht : Tidy s) (hx : Extends s found) (hs : NotSpliced found s) :
    ∃ r s', usbFindBusses found s = some (r, s') ∧ Joined s' ∧ Tidy s' ∧
      ∃ t, Found found (List.range s.ploaded) s t ∧ s'.pInfo = t.pInfo ∧ s'.own = t.own := by
  obtain ⟨hf, hany⟩ := findEach_found (List.range s.ploaded) (fun i hi => List.mem_range.mp hi) ht.kept ht.hidden hx
  rcases hfind : findEach found (List.range s.ploaded) s with ⟨any, ret, t⟩
  rw [hfind] at hf hany
  simp only at hf hany
  cases any with
  | false =>
      have hnone (i : Nat) : ¬ Exports s i := fun hi => nomatch hany.mpr ⟨i, List.mem_range.mpr hi.1, hi⟩
      have hown (i : Nat) : t.own i = [] := hf.hidden.own i fun hi => hnone i ((hf.grown.exports i).mp hi)
      obtain ⟨hhead, hbusses⟩ := ht.empty fun i => ht.hidden.own i (hnone i)
      have hall : allBusses t = [] := List.flatMap_eq_nil_iff.mpr fun i _ => hown i
      refine ⟨failure, t, ?_, ⟨?_, ?_⟩, ⟨hf.kept, hf.hidden, fun _ => ⟨hf.grown.head.trans hhead, hf.grown.busses.trans hbusses⟩,
        fun i e he _ => ?_⟩, t, hf, rfl, rfl⟩
      · rw [usbFindBusses, hfind]
        rfl
      · rw [hall, hf.grown.busses, hbusses]
        exact .nil
      · rw [hall]
        exact List.nodup_nil
      · rw [hown i] at he
        cases he
  | true =>
      have hchain : ∀ l ∈ (List.range s.ploaded).map t.own, IsChain (next t.busses) (l.headD 0) l := by
        intro l hl
        obtain ⟨i, -, rfl⟩ := List.mem_map.mp hl
        exact isChain_of_leads (hf.kept.leads i) (hf.kept.nonzero i) fun e he =>
          ended ht hx hs _ hf (fun i hi => List.mem_range.mpr hi) he
      have hhead (hnil : ∀ l ∈ (List.range s.ploaded).map t.own, l = []) : t.headBusp = 0 := by
        rw [hf.grown.head]
        refine (ht.empty (own_nil_of_found hx hf fun i => ?_)).1
        by_cases hi : i < s.ploaded
        · exact hnil _ (List.mem_map.mpr ⟨i, List.mem_range.mpr hi, rfl⟩)
        · exact own_of_not_lt hf.hidden (hf.grown.ploaded ▸ hi)
      obtain ⟨head, h', hsplice, hjoined⟩ := splice_all 0 hhead hchain (disjoint_own hf.kept _)
      rw [← map_busp hf, hf.grown.ploaded] at hsplice
      have hlist : Joined { t with busses := h', headBusp := head, usbBusses := head } := by
        have heq : allBusses { t with busses := h', headBusp := head, usbBusses := head } =
            ((List.range s.ploaded).map t.own).flatten := by
          rw [allBusses_eq]
          exact congrArg (fun n => ((List.range n).map t.own).flatten) hf.grown.ploaded
        rw [Joined, heq]
        exact ⟨hjoined, hjoined.nodup⟩
      have hdump : dumpBusses h' head = some () := by
        rw [dumpBusses]
        split
        · rfl
        · rename_i hne
          have hlast := List.getLast?_eq_some_getLast (hjoined.ne_nil hne)
          rw [(lastBus_iff hne).mpr ⟨_, hjoined, hlast⟩]
          rfl
      have hspliced : Spliced t.busses h' := by
        rw [← splice_filter] at hsplice
        exact splice_spliced (by simp) (fun h => absurd rfl h) hsplice
      refine ⟨ret, _, ?_, hlist, tidy_spliced hf hspliced hlist, t, hf, rfl, rfl⟩
      rw [usbFindBusses, hfind]
      simp only [Bool.not_true, Bool.false_eq_true, if_false, hf.grown.ploaded, hsplice, hdump, Option.bind_eq_bind,
        Option.bind_some]

theorem next_plugin {f : Nat → List Nat} {n i j : Nat} (hij : i < j) (hj : j < n) (hi : f i ≠ []) (hfj : f j ≠ []) :
    ∃ xs k ys, (List.range n).filter (fun m => f m ≠ []) = xs ++ i :: k :: ys ∧ f k ≠ [] := by
  have hmem {m : Nat} (hm : m < n) (hne : f m ≠ []) : m ∈ (List.range n).filter fun m => f m ≠ [] :=
    List.mem_filter.mpr ⟨List.mem_range.mpr hm, decide_eq_true hne⟩
  have hsorted : ((List.range n).filter fun m => f m ≠ []).Pairwise (· < ·) := List.pairwise_lt_range.filter _
  have hjmem := hmem hj hfj
  obtain ⟨xs, ys, heq⟩ := List.append_of_mem (hmem (Nat.lt_trans hij hj) hi)
  rw [heq] at hsorted hjmem
  cases ys with
  | nil =>
      rcases List.mem_append.mp hjmem with hin | hin
      · have := (List.pairwise_append.mp hsorted).2.2 j hin i (List.mem_singleton_self i)
        omega
      · exact absurd (List.mem_singleton.mp hin) (by omega)
  | cons k ys =>
      refine ⟨xs, k, ys, heq, ?_⟩
      have hk : k ∈ (List.range n).filter fun m => f m ≠ [] := by
        rw [heq]
        simp
      exact of_decide_eq_true (List.mem_filter.mp hk).2

theorem flatten_filter (f : Nat → List Nat) (l : List Nat) : l.flatMap f = (l.filter fun m => f m ≠ []).flatMap f := by
  induction l with
  | nil => rfl
  | cons a l ih =>
      by_cases ha : f a = []
      · rw [List.filter_cons_of_neg (by simpa using ha), List.flatMap_cons, ha, List.nil_append, ih]
      · rw [List.filter_cons_of_pos (by simpa using ha), List.flatMap_cons, List.flatMap_cons, ih]

theorem not_joined {h h₁ h' : Heap UsbBus} {own own' l front back : List Nat} {a b c e last : Nat}
    (hown : own.IsChain (Leads (next h))) (hzero : 0 ∉ own) (hhead : own.head? = some a) (hend : own.getLast? = some e)
    (hstale : next h e = some b) (hb : b ≠ 0) (hs : Spliced h h₁) (hl : IsChain (next h₁) a l) (hlast : l.getLast? = some last)
    (hs' : Spliced h₁ h') (hhead' : own'.head? = some b) (hback : next h' last = some b) :
    ¬ IsChain (next h') c (front ++ own ++ (own' ++ back)) := by
  intro hchain
  obtain ⟨rest, rfl⟩ : ∃ rest, own = a :: rest := ⟨own.tail, (List.cons_head?_tail hhead).symm⟩
  have hpath : (a :: (rest ++ [b])).IsChain (Leads (next h₁)) := by
    rw [← List.cons_append]
    refine List.IsChain.append (leads_of_keeps hown hzero hs.keeps) (.singleton b) ?_
    intro x hx y hy
    rw [hend, Option.mem_some_iff] at hx
    rw [List.head?_singleton, Option.mem_some_iff] at hy
    subst hx hy
    exact hs.keeps _ _ hstale hb
  have hbl : b ∈ l := hl.mem_of_leads hpath (by simpa [Ne.symm hb] using hzero) b (by simp)
  refine hl.not_ring hlast hbl hs'.keeps hback hchain ?_
  exact List.mem_append_right _ (List.mem_append_left _ (List.mem_of_mem_head? hhead'))

theorem busps_eq (hf : Found found (List.range s.ploaded) s t) :
    (((List.range t.ploaded).map fun i => (t.pInfo i).busp).filter (· ≠ 0)) =
      ((List.range t.ploaded).filter fun m => t.own m ≠ []).map fun m => (t.own m).headD 0 := by
  rw [map_busp hf, ← hf.grown.ploaded, List.filter_map, List.filter_map, List.map_map]
  have hsame : (List.range t.ploaded).filter (((fun x => decide (x ≠ 0)) ∘ fun l : List Nat => l.headD 0) ∘ t.own) =
      (List.range t.ploaded).filter fun m => t.own m ≠ [] := by
    refine List.filter_congr fun m _ => decide_eq_decide.mpr ?_
    have hzero := hf.kept.nonzero m
    cases h : t.own m with
    | nil => simp
    | cons a l =>
        rw [h] at hzero
        simpa using fun ha : a = 0 => hzero (ha ▸ List.mem_cons_self ..)
  rw [hsame]
  rfl

theorem notSpliced_of_joined (ht : Tidy s) (hx : Extends s found) {r : Int} (hcall : usbFindBusses found s = some (r, s'))
    (hjoined : Joined s') : NotSpliced found s := by
  obtain ⟨hf, hany⟩ := findEach_found (List.range s.ploaded) (fun i hi => List.mem_range.mp hi) ht.kept ht.hidden hx
  rcases hfind : findEach found (List.range s.ploaded) s with ⟨any, ret, t⟩
  rw [hfind] at hf hany
  simp only at hf hany
  intro i j hij hi hj hlist e he hold
  have hiown := hf.lists i (List.mem_range.mpr hi.1) hi
  have hjown := hf.lists j (List.mem_range.mpr hj.1) hj
  have hlink : t.link e = s.link e := by
    have hlast := hf.grown.last i e (hiown ▸ he)
    rwa [if_pos hold] at hlast
  obtain ⟨b, hb⟩ := Option.isSome_iff_exists.mp (ht.kept.allocated i e (List.mem_of_getLast? hold))
  by_contra hstale
  have hb0 : b ≠ 0 := fun hb0 => hstale (hb0 ▸ hb)
  -- the plug-in behind `i`, and the two loops
  have hine : t.own i ≠ [] := fun hnil => by rw [hiown] at hnil; rw [hnil] at he; cases he
  obtain ⟨xs, k, ys, hfilter, hk⟩ := next_plugin (f := t.own) hij hj.1 hine (hjown ▸ hlist)
  rw [usbFindBusses, hfind, hany.mpr ⟨i, List.mem_range.mpr hi.1, hi⟩] at hcall
  simp only [Bool.not_true, Bool.false_eq_true, if_false, Option.bind_eq_bind, Option.bind_eq_some_iff] at hcall
  obtain ⟨⟨head, h'⟩, hsplice, -, -, hcall⟩ := hcall
  obtain ⟨-, rfl⟩ := Prod.mk.inj (Option.some.inj hcall)
  rw [← splice_filter, busps_eq hf, hf.grown.ploaded, hfilter, List.map_append, List.map_cons, List.map_cons] at hsplice
  have hnonzero : 0 ∉ xs.map (fun m => (t.own m).headD 0) ++ (t.own i).headD 0 :: (t.own k).headD 0 ::
      ys.map fun m => (t.own m).headD 0 := by
    have hbusps := busps_eq hf
    rw [hf.grown.ploaded, hfilter, List.map_append, List.map_cons, List.map_cons] at hbusps
    rw [← hbusps]
    simp
  obtain ⟨h₁, l, last, hs, hl, hlast, hs', hback⟩ := splice_pair hnonzero (fun h => absurd rfl h) hsplice
  have hall : allBusses { t with busses := h', headBusp := head, usbBusses := head } =
      xs.flatMap t.own ++ t.own i ++ (t.own k ++ ys.flatMap t.own) := by
    rw [allBusses]
    change (List.range t.ploaded).flatMap t.own = _
    rw [flatten_filter, hf.grown.ploaded, hfilter, List.flatMap_append, List.flatMap_cons, List.flatMap_cons,
      List.append_assoc]
  have hchain := hjoined.1
  rw [hall] at hchain
  -- the stale link is the one that the joined list has
  have hkept := (hs.trans hs').keeps e b (hlink.trans hb) hb0
  have hkhead : (t.own k).head? = some ((t.own k).headD 0) := by
    cases hown : t.own k with
    | nil => exact absurd hown hk
    | cons a l => rfl
  have hbk : b = (t.own k).headD 0 := by
    have hleads := leads_of_isChain hchain
    rw [List.append_assoc] at hleads
    have hpair := (List.isChain_append.mp (List.isChain_append.mp hleads).2.1).2.2 e (hiown ▸ he) ((t.own k).headD 0)
      (by rw [List.head?_append, hkhead]; rfl)
    exact Option.some.inj (hkept.symm.trans hpair)
  refine not_joined (hf.kept.leads i) (hf.kept.nonzero i) ?_ (hiown ▸ he) (hlink.trans hb) hb0 hs hl hlast hs' (hbk ▸ hkhead)
    (hbk ▸ hback) hchain
  cases hown : t.own i with
  | nil => exact absurd hown hine
  | cons a l => rfl

/-- A call of usb_find_busses. -/
def call (found : Nat → Search) (s : WrapperState) : Option WrapperState := (usbFindBusses found s).map Prod.snd

theorem tidy_run (h : Reachable call (fun found s => Extends s found ∧ NotSpliced found s) Fresh s) : Tidy s := by
  refine h.invariant Tidy (fun _ => Fresh.tidy) fun found s s' ht hok hcall => ?_
  obtain ⟨r, t, hs, -, htidy, -⟩ := usbFindBusses_joins ht hok.1 hok.2
  rw [call, hs] at hcall
  obtain rfl := Option.some.inj hcall
  exact htidy

/-- Calls that find no list spliced behind that of a plug-in leave all busses in one list
that ends, and no other call does. -/
theorem busses_joined_iff (h : Reachable call (fun found s => Extends s found ∧ NotSpliced found s) Fresh s)
    (hx : Extends s found) : (∃ r s', usbFindBusses found s = some (r, s') ∧ Joined s') ↔ NotSpliced found s := by
  constructor
  · rintro ⟨r, s', hcall, hjoined⟩
    exact notSpliced_of_joined (tidy_run h) hx hcall hjoined
  · intro hs
    obtain ⟨r, s', hcall, hjoined, -⟩ := usbFindBusses_joins (tidy_run h) hx hs
    exact ⟨r, s', hcall, hjoined⟩

/-- Two plug-ins with all their symbols. -/
def twoPlugins : WrapperState where
  ploaded := 2
  lastPindex := 0
  activeIndex := -1
  exclusiveIndex := -1
  headBusp := 0
  usbBusses := 0
  pInfo := fun _ => ⟨true, true, false, true, [], 0, fun _ => true⟩
  busses := ∅
  own := fun _ => []

def oneBusEach (i : Nat) : Search where
  list := [i + 1]
  devices := fun _ => []
  ret := 1

theorem fresh_twoPlugins : Fresh twoPlugins where
  chain := fun _ => .nil
  apart := fun _ _ _ h => absurd h List.not_mem_nil
  hidden := fun _ _ => rfl
  busp := fun _ => rfl
  headBusp := rfl
  usbBusses := rfl

theorem extends_oneBusEach (hown : ∀ i, Exports s i → s.own i = [] ∨ s.own i = [i + 1])
    (hfree : ∀ i, Exports s i → i + 1 ∉ s.own i → s.busses.lookup (i + 1) = none) : Extends s oneBusEach := by
  have hmem {i a : Nat} (ha : a ∈ (oneBusEach i).list) : a = i + 1 := List.mem_singleton.mp ha
  refine ⟨fun i hi => ?_, fun _ _ => List.nodup_singleton _, fun i _ h => (nomatch hmem h), fun i hi a ha => ?_,
    fun i j _ _ a hi hj => Nat.succ.inj ((hmem hi).symm.trans (hmem hj))⟩
  · rcases hown i hi with h | h
    · rw [h]
      exact List.nil_sublist _
    · rw [h]
      exact .refl _
  · rw [hmem ha]
    exact hfree i hi

theorem extends_twoPlugins : Extends twoPlugins oneBusEach := extends_oneBusEach (fun _ _ => .inl rfl) fun _ _ _ => rfl

theorem busses_joined_iff_two : (∃ r s', usbFindBusses oneBusEach twoPlugins = some (r, s') ∧ Joined s') ↔
    NotSpliced oneBusEach twoPlugins :=
  busses_joined_iff (.start fresh_twoPlugins) extends_twoPlugins

/-- The second call never comes back from the list that the first one has made. -/
theorem busses_not_joined : ¬ ∀ s found, Reachable call (fun found s => Extends s found) Fresh s → Extends s found →
    ∃ r s', usbFindBusses found s = some (r, s') ∧ Joined s' := by
  intro hall
  have hrun : (call oneBusEach twoPlugins).any (fun s => decide (s.ploaded = 2 ∧ s.own 0 = [1] ∧ s.own 1 = [2] ∧
      (usbFindBusses oneBusEach s).isNone)) = true := by decide +kernel
  obtain ⟨s, hs, hdec⟩ := (Option.any_eq_true _ _).mp hrun
  obtain ⟨hloaded, hown0, hown1, hnone⟩ := of_decide_eq_true hdec
  have hreach : Reachable call (fun found s => Extends s found) Fresh s :=
    .next oneBusEach (.start fresh_twoPlugins) extends_twoPlugins hs
  have hown (i : Nat) (hi : Exports s i) : s.own i = [i + 1] := by
    have hlt := hloaded ▸ hi.1
    interval_cases i
    · exact hown0
    · exact hown1
  have hx : Extends s oneBusEach :=
    extends_oneBusEach (fun i hi => .inr (hown i hi)) fun i hi hout => absurd (by rw [hown i hi]; simp) hout
  obtain ⟨r, s', hcall, -⟩ := hall s oneBusEach hreach hx
  rw [hcall] at hnone
  cases hnone

end Calls

end OiUserland.Wrapper.BusLists
