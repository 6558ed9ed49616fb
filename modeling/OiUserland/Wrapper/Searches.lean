import OiUserland.Wrapper.Startup

namespace OiUserland.Wrapper.Searches

open Lib.Chains Plugins FindBusses

section Memory

variable {h : Heap UsbBus} {devices : Nat → List Nat} {l old new : List Nat} {c e : Nat}

theorem link_allocate (devices : Nat → List Nat) (l : List Nat) (h : Heap UsbBus) (c : Nat) :
    linkOf UsbBus.next (allocate devices l h) c = if c ∈ l then some 0 else linkOf UsbBus.next h c := by
  induction l generalizing h with
  | nil => rfl
  | cons a l ih =>
      rw [allocate, ih]
      by_cases hl : c ∈ l
      · rw [if_pos hl, if_pos (List.mem_cons_of_mem _ hl)]
      · rw [if_neg hl]
        by_cases hc : c = a
        · subst hc
          rw [linkOf_insert, if_pos (List.mem_cons_self ..)]
        · rw [linkOf_insert_ne hc, if_neg fun hin => (List.mem_cons.mp hin).elim hc hl]

theorem link_linkUp (hc : c ∉ l.dropLast) : linkOf UsbBus.next (linkUp l h) c = linkOf UsbBus.next h c := by
  induction l, h using linkUp.induct with
  | case1 h => rfl
  | case2 a h => rfl
  | case3 a b l h ih =>
      rw [List.dropLast_cons_cons, List.mem_cons, not_or] at hc
      rw [linkUp, ih hc.2, link_setNext_ne hc.1]

theorem isSome_linkUp : (linkOf UsbBus.next (linkUp l h) c).isSome = (linkOf UsbBus.next h c).isSome := by
  induction l, h using linkUp.induct with
  | case1 h => rfl
  | case2 a h => rfl
  | case3 a b l h ih => rw [linkUp, ih, isSome_setNext]

theorem leads_linkUp (hnodup : l.Nodup) (halloc : ∀ a ∈ l, (linkOf UsbBus.next h a).isSome) :
    l.IsChain (Leads (linkOf UsbBus.next (linkUp l h))) := by
  induction l, h using linkUp.induct with
  | case1 h => exact .nil
  | case2 a h => exact .singleton a
  | case3 a b l h ih =>
      obtain ⟨ha, hnodup⟩ := List.nodup_cons.mp hnodup
      refine List.isChain_cons_cons.mpr ⟨?_, ih hnodup fun c hc => ?_⟩
      · have hkept : linkOf UsbBus.next (linkUp (b :: l) (setNext a b h)) a = _ :=
          link_linkUp fun hin => ha (List.dropLast_subset _ hin)
        rw [Leads, linkUp, hkept, link_setNext (halloc a (List.mem_cons_self ..))]
      · rw [isSome_setNext]
        exact halloc c (List.mem_cons_of_mem _ hc)

theorem getLast?_of_sublist (hs : old.Sublist new) (hnodup : new.Nodup) (he : new.getLast? = some e) (hold : e ∈ old) :
    old.getLast? = some e := by
  obtain ⟨init, rfl⟩ := List.getLast?_eq_some_iff.mp he
  obtain ⟨l, r, rfl, hl, hr⟩ := List.sublist_append_iff.mp hs
  rcases List.sublist_singleton.mp hr with rfl | rfl
  · rw [List.append_nil] at hold
    exact absurd rfl ((List.nodup_append.mp hnodup).2.2 e (hl.mem hold) e (List.mem_singleton_self e))
  · rw [List.getLast?_append, List.getLast?_singleton, Option.some_or]

end Memory

/-- The busses of a plug-in are seen through two of its symbols. -/
def Exports (s : WrapperState) (i : Nat) : Prop :=
  i < s.ploaded ∧ checkSymHdl (s.pInfo i) .usbFindBusses = true ∧ checkSymHdl (s.pInfo i) .usbBusses = true

/-- The busses of each plug-in lead to each other, and no plug-in has another one's. Where
the last bus of a plug-in leads is left open. -/
structure Kept (s : WrapperState) : Prop where
  leads : ∀ i, (s.own i).IsChain (Leads s.link)
  allocated : ∀ i, ∀ a ∈ s.own i, (s.link a).isSome
  nodup : ∀ i, (s.own i).Nodup
  nonzero : ∀ i, 0 ∉ s.own i
  apart : ∀ i j a, a ∈ s.own i → a ∈ s.own j → i = j

/-- The plug-ins leave their lists as they are or extend them by new busses. -/
structure Extends (s : WrapperState) (found : Nat → Search) : Prop where
  sublist : ∀ i, Exports s i → (s.own i).Sublist (found i).list
  nodup : ∀ i, Exports s i → (found i).list.Nodup
  nonzero : ∀ i, Exports s i → 0 ∉ (found i).list
  fresh : ∀ i, Exports s i → ∀ a ∈ (found i).list, a ∉ s.own i → s.busses.lookup a = none
  apart : ∀ i j, Exports s i → Exports s j → ∀ a, a ∈ (found i).list → a ∈ (found j).list → i = j

structure Grown (found : Nat → Search) (s t : WrapperState) : Prop where
  ploaded : t.ploaded = s.ploaded
  symbols : ∀ i sym, checkSymHdl (t.pInfo i) sym = checkSymHdl (s.pInfo i) sym
  head : t.headBusp = s.headBusp
  busses : t.usbBusses = s.usbBusses
  own : ∀ i, t.own i = s.own i ∨ Exports s i ∧ t.own i = (found i).list
  last : ∀ i e, (t.own i).getLast? = some e →
    if (s.own i).getLast? = some e then t.link e = s.link e else t.link e = some 0

variable {s t u : WrapperState} {found : Nat → Search} {i : Nat}

theorem Grown.exports (h : Grown found s t) (i : Nat) : Exports t i ↔ Exports s i := by
  rw [Exports, Exports, h.ploaded, h.symbols, h.symbols]

theorem Grown.refl (found : Nat → Search) (s : WrapperState) : Grown found s s := by
  refine ⟨rfl, fun _ _ => rfl, rfl, rfl, fun _ => .inl rfl, fun i e he => ?_⟩
  rw [if_pos he]

theorem Grown.trans (h : Grown found s t) (h' : Grown found t u) : Grown found s u := by
  refine ⟨h'.ploaded.trans h.ploaded, fun i sym => (h'.symbols i sym).trans (h.symbols i sym), h'.head.trans h.head,
    h'.busses.trans h.busses, fun i => ?_, fun i e he => ?_⟩
  · rcases h'.own i with hown | ⟨hx, hown⟩
    · exact (h.own i).imp hown.trans fun ⟨hx, hlist⟩ => ⟨hx, hown.trans hlist⟩
    · exact .inr ⟨(h.exports i).mp hx, hown⟩
  · have hlast' := h'.last i e he
    by_cases ht : (t.own i).getLast? = some e
    · rw [if_pos ht] at hlast'
      rw [hlast']
      exact h.last i e ht
    · rw [if_neg ht] at hlast'
      -- the list of `t` is neither the one before nor the one behind
      have hs : (s.own i).getLast? ≠ some e := by
        rcases h.own i with hown | ⟨-, hown⟩
        · rwa [← hown]
        · rcases h'.own i with hown' | ⟨-, hown'⟩
          · exact absurd (hown' ▸ he) ht
          · exact absurd (hown ▸ hown' ▸ he) ht
      rw [if_neg hs]
      exact hlast'

def searched (s : WrapperState) (found : Nat → Search) (i : Nat) : WrapperState :=
  { s.putInfo i { s.pInfo i with busp := (found i).list.headD 0 } with
    busses := search (found i) (s.own i) s.busses
    own := Function.update s.own i (found i).list
    lastPindex := i }

theorem own_searched (s : WrapperState) (found : Nat → Search) (i : Nat) : (searched s found i).own i = (found i).list :=
  Function.update_self ..

theorem own_searched_of_ne {j : Nat} (hj : j ≠ i) : (searched s found i).own j = s.own j := Function.update_of_ne hj ..

theorem pInfo_searched (s : WrapperState) (found : Nat → Search) (i : Nat) :
    (searched s found i).pInfo i = { s.pInfo i with busp := (found i).list.headD 0 } :=
  Function.update_self ..

theorem pInfo_searched_of_ne {j : Nat} (hj : j ≠ i) : (searched s found i).pInfo j = s.pInfo j :=
  Function.update_of_ne hj ..

theorem checkSymHdl_searched (j : Nat) (sym : Sym) :
    checkSymHdl ((searched s found i).pInfo j) sym = checkSymHdl (s.pInfo j) sym := by
  by_cases hj : j = i
  · subst hj
    rw [pInfo_searched, checkSymHdl, checkSymHdl]
  · rw [pInfo_searched_of_ne hj]

section Step

variable (hk : Kept s) (hx : Extends s found) (hi : Exports s i)

theorem link_searched_of_not_mem {c : Nat} (hc : c ∉ (found i).list) : (searched s found i).link c = s.link c := by
  have hdrop : c ∉ (found i).list.dropLast := fun hin => hc (List.dropLast_subset _ hin)
  have hfilter : c ∉ (found i).list.filter fun a => a ∉ s.own i := fun hin => hc (List.mem_filter.mp hin).1
  rw [WrapperState.link, WrapperState.link, searched, search, link_linkUp hdrop, link_allocate, if_neg hfilter]

theorem isSome_searched (c : Nat) (hc : (s.link c).isSome ∨ c ∈ (found i).list ∧ c ∉ s.own i) :
    ((searched s found i).link c).isSome := by
  rw [WrapperState.link, searched, search, isSome_linkUp, link_allocate]
  split
  · rfl
  · rename_i hout
    refine hc.resolve_right fun hnew => hout (List.mem_filter.mpr ⟨hnew.1, ?_⟩)
    exact decide_eq_true hnew.2

include hk hx hi

theorem not_mem_of_own {j : Nat} (hj : j ≠ i) {c : Nat} (hc : c ∈ s.own j) : c ∉ (found i).list := by
  intro hin
  by_cases hown : c ∈ s.own i
  · exact hj (hk.apart j i c hc hown)
  · have hnone := hx.fresh i hi c hin hown
    have halloc := hk.allocated j c hc
    rw [WrapperState.link, linkOf, hnone] at halloc
    cases halloc

theorem kept_searched : Kept (searched s found i) := by
  constructor
  · intro j
    by_cases hj : j = i
    · subst hj
      rw [own_searched]
      refine leads_linkUp (hx.nodup j hi) fun a ha => ?_
      rw [link_allocate]
      split
      · rfl
      · rename_i hout
        have hown : a ∈ s.own j := by
          by_contra hown
          exact hout (List.mem_filter.mpr ⟨ha, decide_eq_true hown⟩)
        exact hk.allocated j a hown
    · rw [own_searched_of_ne hj]
      exact leads_congr (hk.leads j) fun a ha => link_searched_of_not_mem (not_mem_of_own hk hx hi hj ha)
  · intro j a ha
    by_cases hj : j = i
    · subst hj
      rw [own_searched] at ha
      refine isSome_searched a ?_
      by_cases hown : a ∈ s.own j
      · exact .inl (hk.allocated j a hown)
      · exact .inr ⟨ha, hown⟩
    · rw [own_searched_of_ne hj] at ha
      exact isSome_searched a (.inl (hk.allocated j a ha))
  · intro j
    by_cases hj : j = i
    · subst hj
      rw [own_searched]
      exact hx.nodup j hi
    · rw [own_searched_of_ne hj]
      exact hk.nodup j
  · intro j
    by_cases hj : j = i
    · subst hj
      rw [own_searched]
      exact hx.nonzero j hi
    · rw [own_searched_of_ne hj]
      exact hk.nonzero j
  · intro j k a hj hk'
    by_cases hji : j = i
    · subst hji
      by_cases hkj : k = j
      · exact hkj.symm
      · rw [own_searched] at hj
        rw [own_searched_of_ne hkj] at hk'
        exact absurd hj (not_mem_of_own hk hx hi hkj hk')
    · rw [own_searched_of_ne hji] at hj
      by_cases hki : k = i
      · subst hki
        rw [own_searched] at hk'
        exact absurd hk' (not_mem_of_own hk hx hi hji hj)
      · rw [own_searched_of_ne hki] at hk'
        exact hk.apart j k a hj hk'

omit hk in
theorem grown_searched_last {e : Nat} (he : (found i).list.getLast? = some e) :
    if (s.own i).getLast? = some e then (searched s found i).link e = s.link e
      else (searched s found i).link e = some 0 := by
  obtain ⟨init, hinit⟩ := List.getLast?_eq_some_iff.mp he
  have hnodup := hx.nodup i hi
  have hdrop : e ∉ (found i).list.dropLast := by
    rw [hinit] at hnodup ⊢
    rw [List.dropLast_concat]
    exact fun hin => (List.nodup_append.mp hnodup).2.2 e hin e (List.mem_singleton_self e) rfl
  have hlink : (searched s found i).link e =
      if e ∈ (found i).list.filter fun a => a ∉ s.own i then some 0 else s.link e := by
    rw [WrapperState.link, searched, search, link_linkUp hdrop, link_allocate]
  by_cases hlast : (s.own i).getLast? = some e
  · rw [if_pos hlast, hlink, if_neg]
    intro hin
    exact of_decide_eq_true (List.mem_filter.mp hin).2 (List.mem_of_getLast? hlast)
  · rw [if_neg hlast, hlink, if_pos]
    refine List.mem_filter.mpr ⟨List.mem_of_getLast? he, decide_eq_true fun hown => hlast ?_⟩
    exact getLast?_of_sublist (hx.sublist i hi) hnodup he hown

theorem grown_searched : Grown found s (searched s found i) := by
  refine ⟨rfl, checkSymHdl_searched, rfl, rfl, fun j => ?_, fun j e he => ?_⟩
  · by_cases hj : j = i
    · subst hj
      exact .inr ⟨hi, own_searched ..⟩
    · exact .inl (own_searched_of_ne hj)
  · by_cases hj : j = i
    · subst hj
      refine grown_searched_last hx hi ?_
      rwa [own_searched] at he
    · rw [own_searched_of_ne hj] at he
      rw [if_pos he]
      exact link_searched_of_not_mem (not_mem_of_own hk hx hi hj (List.mem_of_getLast? he))

theorem extends_searched : Extends (searched s found i) found := by
  have hexports := (grown_searched hk hx hi).exports
  refine ⟨fun j hj => ?_, fun j hj => hx.nodup j ((hexports j).mp hj), fun j hj => hx.nonzero j ((hexports j).mp hj),
    fun j hj a ha hown => ?_, fun j k hj hk => hx.apart j k ((hexports j).mp hj) ((hexports k).mp hk)⟩
  · by_cases hji : j = i
    · subst hji
      rw [own_searched]
    · rw [own_searched_of_ne hji]
      exact hx.sublist j ((hexports j).mp hj)
  · by_cases hji : j = i
    · subst hji
      rw [own_searched] at hown
      exact absurd ha hown
    · rw [own_searched_of_ne hji] at hown
      have hout : a ∉ (found i).list := fun hin => hji (hx.apart j i ((hexports j).mp hj) hi a ha hin)
      have hnone := hx.fresh j ((hexports j).mp hj) a ha hown
      have hlink : (searched s found i).link a = none := by
        rw [link_searched_of_not_mem hout, WrapperState.link, linkOf, hnone, Option.map_none]
      exact Option.map_eq_none_iff.mp hlink

end Step

structure Hidden (s : WrapperState) : Prop where
  own : ∀ i, ¬ Exports s i → s.own i = []
  busp : ∀ i, checkSymHdl (s.pInfo i) .usbFindBusses = false → (s.pInfo i).busp = 0

def Pointed (s : WrapperState) (i : Nat) : Prop := (s.pInfo i).busp = (s.own i).headD 0

theorem Kept.congr (hk : Kept s) (hown : t.own = s.own) (hbusses : t.busses = s.busses) : Kept t := by
  obtain ⟨hleads, halloc, hnodup, hnonzero, hapart⟩ := hk
  have hlink : t.link = s.link := by rw [WrapperState.link, hbusses]
  constructor
  · rw [hown, hlink]
    exact hleads
  · rw [hown, hlink]
    exact halloc
  · rw [hown]
    exact hnodup
  · rw [hown]
    exact hnonzero
  · rw [hown]
    exact hapart

theorem Extends.congr (hx : Extends s found) (hown : t.own = s.own) (hbusses : t.busses = s.busses)
    (hexports : ∀ i, Exports t i ↔ Exports s i) : Extends t found := by
  refine ⟨fun i hi => ?_, fun i hi => hx.nodup i ((hexports i).mp hi), fun i hi => hx.nonzero i ((hexports i).mp hi),
    fun i hi => ?_, fun i j hi hj => hx.apart i j ((hexports i).mp hi) ((hexports j).mp hj)⟩
  · rw [hown]
    exact hx.sublist i ((hexports i).mp hi)
  · rw [hown, hbusses]
    exact hx.fresh i ((hexports i).mp hi)

def blank (s : WrapperState) (i : Nat) : WrapperState := s.putInfo i { s.pInfo i with busp := 0 }

theorem pInfo_blank (s : WrapperState) (i : Nat) : (blank s i).pInfo i = { s.pInfo i with busp := 0 } :=
  Function.update_self ..

theorem pInfo_blank_of_ne {j : Nat} (hj : j ≠ i) : (blank s i).pInfo j = s.pInfo j := Function.update_of_ne hj ..

theorem grown_blank (found : Nat → Search) (s : WrapperState) (i : Nat) : Grown found s (blank s i) := by
  refine ⟨rfl, fun j sym => ?_, rfl, rfl, fun _ => .inl rfl, fun j e he => ?_⟩
  · by_cases hj : j = i
    · subst hj
      rw [pInfo_blank, checkSymHdl, checkSymHdl]
    · rw [pInfo_blank_of_ne hj]
  · have hown : (blank s i).own = s.own := rfl
    rw [hown] at he
    rw [if_pos he]
    rfl

theorem Hidden.grown (hh : Hidden s) (hg : Grown found s t)
    (hbusp : ∀ i, checkSymHdl (s.pInfo i) .usbFindBusses = false → (t.pInfo i).busp = (s.pInfo i).busp) : Hidden t := by
  refine ⟨fun i hi => ?_, fun i hi => ?_⟩
  · rw [hg.exports] at hi
    rcases hg.own i with hown | ⟨hx, -⟩
    · rw [hown, hh.own i hi]
    · exact absurd hx hi
  · rw [hg.symbols] at hi
    rw [hbusp i hi, hh.busp i hi]

theorem hidden_searched (hh : Hidden s) (hk : Kept s) (hx : Extends s found) (hi : Exports s i) :
    Hidden (searched s found i) := by
  refine hh.grown (grown_searched hk hx hi) fun j hj => ?_
  have hji : j ≠ i := by
    rintro rfl
    rw [hi.2.1] at hj
    cases hj
  rw [pInfo_searched_of_ne hji]

theorem hidden_blank (hh : Hidden s) (hfind : checkSymHdl (s.pInfo i) .usbFindBusses = true) : Hidden (blank s i) := by
  refine hh.grown (grown_blank (fun i => ⟨s.own i, fun _ => [], 0⟩) s i) fun j hj => congrArg PluginInfo.busp (pInfo_blank_of_ne ?_)
  rintro rfl
  rw [hfind] at hj
  cases hj

theorem pointed_searched (j : Nat) (hj : Pointed s j) : Pointed (searched s found i) j := by
  by_cases hji : j = i
  · subst hji
    rw [Pointed, own_searched, pInfo_searched]
  · rw [Pointed, own_searched_of_ne hji, pInfo_searched_of_ne hji]
    exact hj

structure Found (found : Nat → Search) (is : List Nat) (s t : WrapperState) : Prop where
  kept : Kept t
  hidden : Hidden t
  grown : Grown found s t
  lists : ∀ i ∈ is, Exports s i → t.own i = (found i).list
  pointed : ∀ i, Pointed s i ∨ i ∈ is → Pointed t i

theorem Found.cons {is : List Nat} (hg : Grown found s t) (hlist : Exports s i → t.own i = (found i).list)
    (hpointed : ∀ j, Pointed s j ∨ j = i → Pointed t j) (h : Found found is t u) : Found found (i :: is) s u := by
  refine ⟨h.kept, h.hidden, hg.trans h.grown, fun j hj hx => ?_, fun j hj => ?_⟩
  · rcases List.mem_cons.mp hj with rfl | hj
    · rcases h.grown.own j with hown | ⟨-, hown⟩
      · rw [hown, hlist hx]
      · exact hown
    · exact h.lists j hj ((hg.exports j).mpr hx)
  · rcases hj with hj | hj
    · exact h.pointed j (.inl (hpointed j (.inl hj)))
    · rcases List.mem_cons.mp hj with rfl | hj
      · exact h.pointed j (.inl (hpointed j (.inr rfl)))
      · exact h.pointed j (.inr hj)

theorem findEach_found (is : List Nat) (his : ∀ i ∈ is, i < s.ploaded) (hk : Kept s) (hh : Hidden s)
    (hx : Extends s found) : Found found is s (findEach found is s).2.2 ∧
      ((findEach found is s).1 = true ↔ ∃ i ∈ is, Exports s i) := by
  induction is generalizing s with
  | nil =>
      refine ⟨⟨hk, hh, .refl found s, fun i hi => absurd hi (by simp), fun i hi => hi.resolve_right (by simp)⟩, ?_⟩
      simp [findEach]
  | cons i is ih =>
      have hlt : i < s.ploaded := his i (List.mem_cons_self ..)
      have hrest : ∀ j ∈ is, j < s.ploaded := fun j hj => his j (List.mem_cons_of_mem _ hj)
      by_cases hfind : checkSymHdl (s.pInfo i) .usbFindBusses = true
      · by_cases hbusses : checkSymHdl (s.pInfo i) .usbBusses = true
        · have hi : Exports s i := ⟨hlt, hfind, hbusses⟩
          obtain ⟨hfound, -⟩ := ih (s := searched s found i) hrest (kept_searched hk hx hi) (hidden_searched hh hk hx hi)
            (extends_searched hk hx hi)
          have heq : findEach found (i :: is) s = (true, (found i).ret + (findEach found is (searched s found i)).2.1,
              (findEach found is (searched s found i)).2.2) := by
            rw [findEach, if_pos hfind, if_pos hbusses]
            rfl
          rw [heq]
          refine ⟨.cons (grown_searched hk hx hi) (fun _ => own_searched ..) (fun j hj => ?_) hfound, ?_⟩
          · rcases hj with hj | rfl
            · exact pointed_searched j hj
            · rw [Pointed, own_searched, pInfo_searched]
          · exact ⟨fun _ => ⟨i, List.mem_cons_self .., hi⟩, fun _ => rfl⟩
        · have hi : ¬ Exports s i := fun hi => hbusses hi.2.2
          have hg := grown_blank found s i
          obtain ⟨hfound, hany⟩ := ih (s := blank s i) hrest (hk.congr rfl rfl) (hidden_blank hh hfind)
            (hx.congr rfl rfl hg.exports)
          have heq : findEach found (i :: is) s = ((findEach found is (blank s i)).1,
              (found i).ret + (findEach found is (blank s i)).2.1, (findEach found is (blank s i)).2.2) := by
            rw [findEach, if_pos hfind, if_neg hbusses]
            rfl
          rw [heq]
          refine ⟨.cons hg (fun h => absurd h hi) (fun j hj => ?_) hfound, hany.trans ?_⟩
          · by_cases hji : j = i
            · subst hji
              have hown : (blank s j).own j = [] := hh.own j hi
              rw [Pointed, hown, pInfo_blank]
              rfl
            · rw [Pointed, pInfo_blank_of_ne hji]
              exact hj.resolve_right hji
          · simp [hg.exports, hi]
      · have hi : ¬ Exports s i := fun hi => hfind hi.2.1
        obtain ⟨hfound, hany⟩ := ih hrest hk hh hx
        have heq : findEach found (i :: is) s = findEach found is s := by rw [findEach, if_neg hfind]
        rw [heq]
        refine ⟨.cons (.refl found s) (fun h => absurd h hi) (fun j hj => ?_) hfound, hany.trans ?_⟩
        · rcases hj with hj | rfl
          · exact hj
          · rw [Pointed, hh.own j hi, hh.busp j (Bool.eq_false_iff.mpr hfind)]
            rfl
        · simp [hi]

end OiUserland.Wrapper.Searches
