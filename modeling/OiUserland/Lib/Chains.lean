import Mathlib.Data.List.AList
import Mathlib.Data.List.Chain

namespace OiUserland.Lib.Chains

/-- The cells that pointers run through from `a` to the null pointer. -/
inductive IsChain (link : Nat → Option Nat) : Nat → List Nat → Prop
  | nil : IsChain link 0 []
  | cons {a b : Nat} {l : List Nat} (ha : a ≠ 0) (hb : link a = some b) (h : IsChain link b l) :
      IsChain link a (a :: l)

namespace IsChain

variable {link link' : Nat → Option Nat} {a c : Nat} {l l' : List Nat}

theorem unique (h : IsChain link a l) (h' : IsChain link a l') : l = l' := by
  induction h generalizing l' with
  | nil =>
      cases h' with
      | nil => rfl
      | cons ha _ _ => exact absurd rfl ha
  | cons ha hb _ ih =>
      cases h' with
      | nil => exact absurd rfl ha
      | cons _ hb' ht =>
          obtain rfl := Option.some.inj (hb.symm.trans hb')
          rw [ih ht]

theorem ne_zero (h : IsChain link a l) (hc : c ∈ l) : c ≠ 0 := by
  induction h with
  | nil => exact absurd hc (by simp)
  | cons ha _ _ ih =>
      rcases List.mem_cons.mp hc with rfl | hc
      · exact ha
      · exact ih hc

theorem isSome (h : IsChain link a l) (hc : c ∈ l) : (link c).isSome := by
  induction h with
  | nil => exact absurd hc (by simp)
  | cons _ hb _ ih =>
      rcases List.mem_cons.mp hc with rfl | hc
      · simp [hb]
      · exact ih hc

theorem from_mem (h : IsChain link a l) (hc : c ∈ l) : ∃ r, IsChain link c (c :: r) ∧ (c :: r) <:+ l := by
  induction h with
  | nil => exact absurd hc (by simp)
  | cons ha hb ht ih =>
      rcases List.mem_cons.mp hc with rfl | hc
      · exact ⟨_, .cons ha hb ht, List.suffix_refl _⟩
      · obtain ⟨r, hr, hs⟩ := ih hc
        exact ⟨r, hr, hs.trans (List.suffix_cons _ _)⟩

/-- A list that came back to a cell would never end. -/
theorem nodup (h : IsChain link a l) : l.Nodup := by
  induction h with
  | nil => exact List.nodup_nil
  | cons ha hb ht ih =>
      refine List.nodup_cons.mpr ⟨fun hmem => ?_, ih⟩
      obtain ⟨r, hr, hs⟩ := from_mem ht hmem
      have hlen := hs.length_le
      rw [unique hr (.cons ha hb ht), List.length_cons] at hlen
      omega

theorem zero (h : IsChain link 0 l) : l = [] := unique h .nil

theorem head_mem (h : IsChain link a l) (ha : a ≠ 0) : ∃ b r, link a = some b ∧ IsChain link b r ∧ l = a :: r := by
  cases h with
  | nil => exact absurd rfl ha
  | cons _ hb ht => exact ⟨_, _, hb, ht, rfl⟩

theorem congr (h : IsChain link a l) (hl : ∀ c ∈ l, link' c = link c) : IsChain link' a l := by
  induction h with
  | nil => exact .nil
  | cons ha hb _ ih =>
      refine .cons ha ?_ (ih fun c hc => hl c (List.mem_cons_of_mem _ hc))
      rw [hl _ (List.mem_cons_self ..), hb]

end IsChain

structure IsChains {ι : Type} (link : Nat → Option Nat) (head : ι → Nat) (lists : ι → List Nat) : Prop where
  chain : ∀ i, IsChain link (head i) (lists i)
  apart : ∀ i j a, a ∈ lists i → a ∈ lists j → i = j

namespace IsChains

variable {ι : Type} {link link' : Nat → Option Nat} {head head' : ι → Nat} {lists : ι → List Nat} {a b : Nat} {i : ι}

theorem congr (h : IsChains link head lists) (hl : ∀ i, ∀ c ∈ lists i, link' c = link c) :
    IsChains link' head lists :=
  ⟨fun i => (h.chain i).congr (hl i), h.apart⟩

theorem pushed [DecidableEq ι] (h : IsChains link head lists) (ha : a ≠ 0) (hout : ∀ j, a ∉ lists j) (hlink : link' a = some (head i))
    (hothers : ∀ c, c ≠ a → link' c = link c) :
    IsChains link' (Function.update head i a) (Function.update lists i (a :: lists i)) := by
  have hsame (j : ι) : IsChain link' (head j) (lists j) := by
    refine (h.chain j).congr fun c hc => hothers c ?_
    rintro rfl
    exact hout j hc
  refine ⟨fun j => ?_, fun j k c hj hk => ?_⟩
  · by_cases hj : j = i
    · subst hj
      rw [Function.update_self, Function.update_self]
      exact .cons ha hlink (hsame j)
    · rw [Function.update_of_ne hj, Function.update_of_ne hj]
      exact hsame j
  · have hmem (j : ι) (hj : c ∈ Function.update lists i (a :: lists i) j) : c = a ∧ j = i ∨ c ∈ lists j := by
      by_cases hji : j = i
      · subst hji
        rw [Function.update_self] at hj
        exact (List.mem_cons.mp hj).imp_left fun hca => ⟨hca, rfl⟩
      · rw [Function.update_of_ne hji] at hj
        exact .inr hj
    rcases hmem j hj with ⟨rfl, rfl⟩ | hj'
    · rcases hmem k hk with ⟨-, rfl⟩ | hk'
      · rfl
      · exact absurd hk' (hout k)
    · rcases hmem k hk with ⟨rfl, -⟩ | hk'
      · exact absurd hj' (hout j)
      · exact h.apart j k c hj' hk'

theorem push [DecidableEq ι] (h : IsChains link head lists) (ha : a ≠ 0) (hout : ∀ j, a ∉ lists j)
    (hlink : link' a = some (head i)) (hothers : ∀ c, c ≠ a → link' c = link c) :
    ∃ lists', IsChains link' (Function.update head i a) lists' ∧
      ∀ j c, c ∈ lists' j → c = a ∧ j = i ∨ c ∈ lists j := by
  refine ⟨_, h.pushed ha hout hlink hothers, fun j c hc => ?_⟩
  by_cases hj : j = i
  · subst hj
    rw [Function.update_self] at hc
    exact (List.mem_cons.mp hc).imp_left fun hca => ⟨hca, rfl⟩
  · rw [Function.update_of_ne hj] at hc
    exact .inr hc

theorem pop [DecidableEq ι] (h : IsChains link head lists) (ha : head i ≠ 0) (hb : link (head i) = some b)
    (hothers : ∀ c, c ≠ head i → link' c = link c) :
    ∃ lists', IsChains link' (Function.update head i b) lists' ∧ (∀ j, head i ∉ lists' j) ∧
      ∀ j c, c ∈ lists' j → c ∈ lists j := by
  obtain ⟨b', r, hb', hr, hlist⟩ := (h.chain i).head_mem ha
  obtain rfl := Option.some.inj (hb.symm.trans hb')
  have hsub (j : ι) (c : Nat) (hc : c ∈ Function.update lists i r j) : c ∈ lists j := by
    by_cases hj : j = i
    · subst hj
      rw [Function.update_self] at hc
      rw [hlist]
      exact List.mem_cons_of_mem _ hc
    · rwa [Function.update_of_ne hj] at hc
  have hout (j : ι) : head i ∉ Function.update lists i r j := by
    intro hc
    by_cases hj : j = i
    · subst hj
      rw [Function.update_self] at hc
      have hnodup := (h.chain j).nodup
      rw [hlist] at hnodup
      exact (List.nodup_cons.mp hnodup).1 hc
    · refine hj (h.apart j i (head i) (hsub j _ hc) ?_)
      rw [hlist]
      exact List.mem_cons_self ..
  refine ⟨Function.update lists i r,
    ⟨fun j => ?_, fun j k c hj hk => h.apart j k c (hsub j c hj) (hsub k c hk)⟩, hout, hsub⟩
  by_cases hj : j = i
  · subst hj
    rw [Function.update_self, Function.update_self]
    refine hr.congr fun c hc => hothers c ?_
    rintro rfl
    exact hout j (by rwa [Function.update_self])
  · rw [Function.update_of_ne hj, Function.update_of_ne hj]
    refine (h.chain j).congr fun c hc => hothers c ?_
    rintro rfl
    exact hout j (by rwa [Function.update_of_ne hj])

theorem drop (h : IsChains link head lists) (hhead : ∀ j, head' j = head j ∨ head' j = 0) :
    ∃ lists', IsChains link head' lists' ∧ ∀ j c, c ∈ lists' j → c ∈ lists j := by
  have hsub (j : ι) (c : Nat) (hc : c ∈ if head' j = 0 then [] else lists j) : c ∈ lists j := by
    split at hc
    · exact absurd hc (by simp)
    · exact hc
  refine ⟨fun j => if head' j = 0 then [] else lists j,
    ⟨fun j => ?_, fun j k c hj hk => h.apart j k c (hsub j c hj) (hsub k c hk)⟩, hsub⟩
  split
  · rename_i hzero
    rw [hzero]
    exact .nil
  · rename_i hzero
    rw [(hhead j).resolve_right hzero]
    exact h.chain j

end IsChains

/-- Memory: the allocated addresses with what is stored there. -/
abbrev Heap (α : Type) := AList fun _ : Nat => α

variable {α : Type}

def linkOf (link : α → Nat) (h : Heap α) (a : Nat) : Option Nat := (h.lookup a).map link

variable {link : α → Nat} {h : Heap α} {a c : Nat} {v : α} {l : List Nat}

theorem linkOf_insert_ne (hca : c ≠ a) : linkOf link (h.insert a v) c = linkOf link h c := by
  rw [linkOf, linkOf, AList.lookup_insert_ne hca]

theorem linkOf_insert (h : Heap α) (a : Nat) (v : α) : linkOf link (h.insert a v) a = some (link v) := by
  rw [linkOf, AList.lookup_insert, Option.map_some]

theorem linkOf_erase_ne (hca : c ≠ a) : linkOf link (h.erase a) c = linkOf link h c := by
  rw [linkOf, linkOf, AList.lookup_erase_ne hca]

theorem linkOf_of_lookup (hv : h.lookup a = some v) : linkOf link h a = some (link v) := by
  rw [linkOf, hv, Option.map_some]

theorem linkOf_insert_same {w : α} (hv : h.lookup a = some v) (hw : link w = link v) (c : Nat) :
    linkOf link (h.insert a w) c = linkOf link h c := by
  by_cases hc : c = a
  · subst hc
    rw [linkOf_insert, linkOf_of_lookup hv, hw]
  · exact linkOf_insert_ne hc

theorem IsChain.lookup (hl : IsChain (linkOf link h) a l) (hc : c ∈ l) : ∃ v, h.lookup c = some v := by
  have := hl.isSome hc
  rw [linkOf, Option.isSome_map] at this
  exact Option.isSome_iff_exists.mp this

theorem IsChain.length_le (hl : IsChain (linkOf link h) a l) : l.length ≤ h.keys.length := by
  refine (List.subperm_of_subset hl.nodup fun c hc => ?_).length_le
  obtain ⟨v, hv⟩ := hl.lookup hc
  exact AList.lookup_isSome.mp (by simp [hv])

/-- Free the cells of a chain from its start. It fails at a cell that is not
allocated. Each round frees a cell, so `n` need not exceed their number. -/
def freeFrom (link : α → Nat) : Nat → Heap α → Nat → Option (Heap α)
  | 0, h, a => if a = 0 then some h else none
  | n + 1, h, a =>
      if a = 0 then some h
      else (h.lookup a).bind fun v => freeFrom link n (h.erase a) (link v)

theorem freeFrom_zero (n : Nat) (h : Heap α) : freeFrom link n h 0 = some h := by
  cases n <;> rfl

theorem freeFrom_chain {n : Nat} (hl : IsChain (linkOf link h) a l) (hn : l.length ≤ n) :
    freeFrom link n h a = some (l.foldl (fun h c => h.erase c) h) := by
  induction l generalizing a h n with
  | nil =>
      cases hl
      exact freeFrom_zero n h
  | cons c l ih =>
      have hnodup := hl.nodup
      cases hl with
      | cons ha hb ht =>
          obtain ⟨v, hv, rfl⟩ := Option.map_eq_some_iff.mp hb
          obtain ⟨m, rfl⟩ : ∃ m, n = m + 1 := ⟨n - 1, by simp only [List.length_cons] at hn; omega⟩
          rw [freeFrom, if_neg ha, hv, Option.bind_some, List.foldl_cons]
          refine ih (ht.congr fun d hd => linkOf_erase_ne ?_) (by simpa using hn)
          rintro rfl
          exact (List.nodup_cons.mp hnodup).1 hd

theorem lookup_foldl_erase (l : List Nat) (h : Heap α) (c : Nat) :
    (l.foldl (fun h c => h.erase c) h).lookup c = if c ∈ l then none else h.lookup c := by
  induction l generalizing h with
  | nil => simp
  | cons d l ih =>
      rw [List.foldl_cons, ih]
      by_cases hd : c = d
      · subst hd
        simp
      · by_cases hc : c ∈ l <;> simp [hd, hc, AList.lookup_erase_ne hd]

theorem freeFrom_lookup {n : Nat} (hl : IsChain (linkOf link h) a l) (hn : l.length ≤ n) :
    ∃ h', freeFrom link n h a = some h' ∧ ∀ c, h'.lookup c = if c ∈ l then none else h.lookup c :=
  ⟨_, freeFrom_chain hl hn, fun c => lookup_foldl_erase l h c⟩

end OiUserland.Lib.Chains

namespace OiUserland.Lib.Chains

/-- Follow the links from a cell to the last one. Every cell is visited at most
once on the way to the null pointer, so `n` need not exceed their number. -/
def endOf (link : Nat → Option Nat) : Nat → Nat → Option Nat
  | 0, _ => none
  | n + 1, a => (link a).bind fun b => if b = 0 then some a else endOf link n b

def Leads (link : Nat → Option Nat) (a b : Nat) : Prop := link a = some b

def Keeps (link link' : Nat → Option Nat) : Prop := ∀ a b, link a = some b → b ≠ 0 → link' a = some b

section Ends

variable {link link' link'' : Nat → Option Nat} {a b c e : Nat} {l l' : List Nat}

theorem Keeps.refl (link : Nat → Option Nat) : Keeps link link := fun _ _ h _ => h

theorem Keeps.trans (h : Keeps link link') (h' : Keeps link' link'') : Keeps link link'' :=
  fun a b hab hb => h' a b (h a b hab hb) hb

theorem keeps_of_ne (he : link e = some 0) (hothers : ∀ c, c ≠ e → link' c = link c) : Keeps link link' := by
  intro c b hcb hb
  by_cases hc : c = e
  · subst hc
    exact absurd (Option.some.inj (hcb.symm.trans he)) hb
  · rw [hothers c hc, hcb]

theorem IsChain.ne_nil (h : IsChain link a l) (ha : a ≠ 0) : l ≠ [] := by
  cases h with
  | nil => exact absurd rfl ha
  | cons _ _ _ => exact List.cons_ne_nil _ _

theorem IsChain.head? (h : IsChain link a l) (ha : a ≠ 0) : l.head? = some a := by
  cases h with
  | nil => exact absurd rfl ha
  | cons _ _ _ => rfl

theorem IsChain.link_last (h : IsChain link a l) (he : l.getLast? = some e) : link e = some 0 := by
  induction h with
  | nil => cases he
  | @cons a b l ha hb ht ih =>
      by_cases hb0 : b = 0
      · subst hb0
        obtain rfl := ht.zero
        obtain rfl : a = e := Option.some.inj he
        exact hb
      · refine ih ?_
        rwa [List.getLast?_cons_of_ne_nil (ht.ne_nil hb0)] at he

theorem endOf_chain {n : Nat} (h : IsChain link a l) (ha : a ≠ 0) (hn : l.length ≤ n) :
    endOf link n a = l.getLast? := by
  induction h generalizing n with
  | nil => exact absurd rfl ha
  | @cons a b l _ hb ht ih =>
      obtain ⟨m, rfl⟩ : ∃ m, n = m + 1 := ⟨n - 1, by simp only [List.length_cons] at hn; omega⟩
      rw [endOf, hb, Option.bind_some]
      by_cases hb0 : b = 0
      · subst hb0
        obtain rfl := ht.zero
        rw [if_pos rfl, List.getLast?_singleton]
      · rw [if_neg hb0, ih hb0 (by simpa using hn), List.getLast?_cons_of_ne_nil (ht.ne_nil hb0)]

theorem chain_of_endOf {n : Nat} (ha : a ≠ 0) (h : endOf link n a = some e) :
    ∃ l, IsChain link a l ∧ l.getLast? = some e := by
  induction n generalizing a with
  | zero => cases h
  | succ n ih =>
      simp only [endOf, Option.bind_eq_some_iff] at h
      obtain ⟨b, hb, h⟩ := h
      split at h
      · rename_i hb0
        subst hb0
        exact ⟨[a], .cons ha hb .nil, h⟩
      · rename_i hb0
        obtain ⟨l, hl, hlast⟩ := ih hb0 h
        refine ⟨a :: l, .cons ha hb hl, ?_⟩
        rw [List.getLast?_cons_of_ne_nil (hl.ne_nil hb0), hlast]

theorem endOf_iff {α : Type} {field : α → Nat} {h : Heap α} (ha : a ≠ 0) :
    endOf (linkOf field h) h.keys.length a = some e ↔ ∃ l, IsChain (linkOf field h) a l ∧ l.getLast? = some e := by
  constructor
  · exact chain_of_endOf ha
  · rintro ⟨l, hl, he⟩
    rw [endOf_chain hl ha hl.length_le, he]

theorem IsChain.join (h : IsChain link a l) (h' : IsChain link b l') (he : l.getLast? = some e)
    (hdisj : l.Disjoint l') (hlink : link' e = some b) (hothers : ∀ c, c ≠ e → link' c = link c) :
    IsChain link' a (l ++ l') := by
  have hmem : e ∈ l := List.mem_of_getLast? he
  have hkept : IsChain link' b l' := h'.congr fun c hc => hothers c fun hce => hdisj hmem (hce ▸ hc)
  have hnodup := h.nodup
  clear hmem hdisj h'
  induction h with
  | nil => cases he
  | @cons a c l ha hc ht ih =>
      by_cases hc0 : c = 0
      · subst hc0
        obtain rfl := ht.zero
        obtain rfl : a = e := Option.some.inj he
        exact .cons ha hlink hkept
      · rw [List.getLast?_cons_of_ne_nil (ht.ne_nil hc0)] at he
        have hae : a ≠ e := by
          rintro rfl
          exact (List.nodup_cons.mp hnodup).1 (List.mem_of_getLast? he)
        exact .cons ha ((hothers a hae).trans hc) (ih he (List.nodup_cons.mp hnodup).2)

theorem isChain_of_leads (hleads : l.IsChain (Leads link)) (hzero : 0 ∉ l)
    (hlast : ∀ e, l.getLast? = some e → link e = some 0) : IsChain link (l.headD 0) l := by
  induction l with
  | nil => exact .nil
  | cons a l ih =>
      have ha : a ≠ 0 := fun ha => hzero (ha ▸ List.mem_cons_self ..)
      have hzero' : 0 ∉ l := fun hin => hzero (List.mem_cons_of_mem _ hin)
      rw [List.headD_cons]
      cases l with
      | nil => exact .cons ha (hlast a rfl) .nil
      | cons b l =>
          obtain ⟨hab, htail⟩ := List.isChain_cons_cons.mp hleads
          exact .cons ha hab (ih htail hzero' hlast)

theorem leads_of_isChain (h : IsChain link a l) : l.IsChain (Leads link) := by
  induction h with
  | nil => exact .nil
  | @cons a b l _ hb ht ih =>
      cases ht with
      | nil => exact .singleton _
      | cons _ _ _ => exact List.isChain_cons_cons.mpr ⟨hb, ih⟩

theorem leads_congr (h : l.IsChain (Leads link)) (hl : ∀ c ∈ l, link' c = link c) : l.IsChain (Leads link') := by
  induction l with
  | nil => exact .nil
  | cons a l ih =>
      obtain ⟨hhead, htail⟩ := List.isChain_cons.mp h
      refine List.isChain_cons.mpr ⟨fun b hb => ?_, ih htail fun c hc => hl c (List.mem_cons_of_mem _ hc)⟩
      exact (hl a (List.mem_cons_self ..)).trans (hhead b hb)

theorem leads_of_keeps (h : l.IsChain (Leads link)) (hzero : 0 ∉ l) (hk : Keeps link link') : l.IsChain (Leads link') := by
  induction l with
  | nil => exact .nil
  | cons a l ih =>
      obtain ⟨hhead, htail⟩ := List.isChain_cons.mp h
      refine List.isChain_cons.mpr ⟨fun b hb => ?_, ih htail fun hin => hzero (List.mem_cons_of_mem _ hin)⟩
      exact hk a b (hhead b hb) fun hb0 => hzero (List.mem_cons_of_mem _ (hb0 ▸ List.mem_of_mem_head? hb))

theorem IsChain.mem_of_leads (h : IsChain link a l) (h' : (a :: l').IsChain (Leads link)) (hzero : 0 ∉ a :: l') :
    ∀ c ∈ a :: l', c ∈ l := by
  induction l' generalizing a l with
  | nil =>
      intro c hc
      rw [List.mem_singleton.mp hc]
      exact List.mem_of_mem_head? (h.head? fun ha => hzero (ha ▸ List.mem_cons_self ..))
  | cons b l' ih =>
      intro c hc
      obtain ⟨hab, htail⟩ := List.isChain_cons_cons.mp h'
      obtain ⟨b', r, hb', hr, rfl⟩ := h.head_mem fun ha => hzero (ha ▸ List.mem_cons_self ..)
      obtain rfl : b = b' := Option.some.inj (hab.symm.trans hb')
      rcases List.mem_cons.mp hc with rfl | hc
      · exact List.mem_cons_self ..
      · exact List.mem_cons_of_mem _ (ih hr htail (fun hin => hzero (List.mem_cons_of_mem _ hin)) c hc)

theorem IsChain.append_of_keeps (h : IsChain link a l) (h' : IsChain link' a l') (hk : Keeps link link')
    (he : l.getLast? = some e) : ∃ r, l' = l ++ r ∧ ∃ b, link' e = some b ∧ IsChain link' b r := by
  induction h generalizing l' with
  | nil => cases he
  | @cons a c l ha hc ht ih =>
      obtain ⟨b, r, hb, hr, rfl⟩ := h'.head_mem ha
      by_cases hc0 : c = 0
      · subst hc0
        obtain rfl := ht.zero
        obtain rfl : a = e := Option.some.inj he
        exact ⟨r, rfl, b, hb, hr⟩
      · rw [List.getLast?_cons_of_ne_nil (ht.ne_nil hc0)] at he
        obtain rfl := Option.some.inj ((hk a c hc hc0).symm.trans hb)
        obtain ⟨r', rfl, hrest⟩ := ih hr he
        exact ⟨r', rfl, hrest⟩

theorem IsChain.not_ring (h : IsChain link a l) (he : l.getLast? = some e) (hc : c ∈ l) (hk : Keeps link link')
    (hback : link' e = some c) (h' : IsChain link' b l') : c ∉ l' := by
  intro hmem
  obtain ⟨r, hr, -⟩ := h'.from_mem hmem
  obtain ⟨m, hm, hsuffix⟩ := h.from_mem hc
  have he : (c :: m).getLast? = some e := by
    obtain ⟨p, rfl⟩ := hsuffix
    rwa [List.getLast?_append_of_ne_nil _ (List.cons_ne_nil _ _)] at he
  obtain ⟨r', hlist, d, hd, hchain⟩ := hm.append_of_keeps hr hk he
  obtain rfl := Option.some.inj (hd.symm.trans hback)
  have hlen := congrArg List.length (hr.unique hchain)
  have hlen' := congrArg List.length hlist
  have hpos := List.length_pos_of_mem (List.mem_of_getLast? he)
  rw [List.length_append] at hlen'
  omega

end Ends

end OiUserland.Lib.Chains

namespace OiUserland.Lib.Contents

open Chains

variable {α β : Type}

inductive Holds (link : α → Nat) (data : α → β) (h : Heap α) : Nat → List (Nat × β) → Prop
  | nil : Holds link data h 0 []
  | cons {a : Nat} {v : α} {cells : List (Nat × β)} (ha : a ≠ 0) (hv : h.lookup a = some v)
      (ht : Holds link data h (link v) cells) : Holds link data h a ((a, data v) :: cells)

namespace Holds

variable {link : α → Nat} {data : α → β} {h h' : Heap α} {a c e : Nat} {b : β} {v w : α} {cells cells' xs : List (Nat × β)}

theorem chain (hl : Holds link data h a cells) : IsChain (linkOf link h) a (cells.map Prod.fst) := by
  induction hl with
  | nil => exact .nil
  | cons ha hv _ ih => exact .cons ha (linkOf_of_lookup hv) ih

theorem nodup (hl : Holds link data h a cells) : (cells.map Prod.fst).Nodup := hl.chain.nodup

theorem length_le (hl : Holds link data h a cells) : cells.length ≤ h.keys.length := by
  rw [← List.length_map Prod.fst]
  exact hl.chain.length_le

theorem unique (hl : Holds link data h a cells) (hl' : Holds link data h a cells') : cells = cells' := by
  induction hl generalizing cells' with
  | nil =>
      cases hl' with
      | nil => rfl
      | cons ha _ _ => exact absurd rfl ha
  | cons ha hv _ ih =>
      cases hl' with
      | nil => exact absurd rfl ha
      | cons _ hv' ht' =>
          obtain rfl := Option.some.inj (hv.symm.trans hv')
          rw [ih ht']

theorem zero (hl : Holds link data h 0 cells) : cells = [] := hl.unique .nil

theorem ne_zero (hl : Holds link data h a ((c, b) :: cells)) : a ≠ 0 := by
  rintro rfl
  cases hl.zero

theorem head (hl : Holds link data h a ((c, b) :: cells)) :
    a = c ∧ ∃ v, h.lookup c = some v ∧ data v = b ∧ Holds link data h (link v) cells := by
  cases hl with
  | cons _ hv ht => exact ⟨rfl, _, hv, rfl, ht⟩

theorem head_not_mem (hl : Holds link data h a ((c, b) :: cells)) : c ∉ cells.map Prod.fst :=
  (List.nodup_cons.mp hl.nodup).1

theorem congr (hl : Holds link data h a cells) (hsame : ∀ c ∈ cells.map Prod.fst, h'.lookup c = h.lookup c) :
    Holds link data h' a cells := by
  induction hl with
  | nil => exact .nil
  | cons ha hv _ ih =>
      refine .cons ha ?_ (ih fun c hc => hsame c (List.mem_cons_of_mem _ hc))
      rw [hsame _ (List.mem_cons_self ..), hv]

theorem insert_not_mem (hl : Holds link data h a cells) (hc : c ∉ cells.map Prod.fst) : Holds link data (h.insert c w) a cells := by
  refine hl.congr fun d hd => AList.lookup_insert_ne ?_
  rintro rfl
  exact hc hd

theorem erase_not_mem (hl : Holds link data h a cells) (hc : c ∉ cells.map Prod.fst) : Holds link data (h.erase c) a cells := by
  refine hl.congr fun d hd => AList.lookup_erase_ne ?_
  rintro rfl
  exact hc hd

theorem lookup (hl : Holds link data h a cells) (hc : c ∈ cells.map Prod.fst) : ∃ v, h.lookup c = some v :=
  hl.chain.lookup hc

theorem append (hl : Holds link data h a (xs ++ [(e, b)])) (hc : c ≠ 0) (hout : c ∉ (xs ++ [(e, b)]).map Prod.fst)
    (hv : h.lookup e = some v) (hlink : link w = c) (hdata : data w = data v) {u : α} (hnew : link u = 0) :
    Holds link data ((h.insert c u).insert e w) a (xs ++ [(e, b)] ++ [(c, data u)]) := by
  induction xs generalizing a with
  | nil =>
      obtain ⟨rfl, v', hv', rfl, ht⟩ := hl.head
      obtain rfl := Option.some.inj (hv.symm.trans hv')
      have hce : c ≠ a := fun hce => hout (hce ▸ List.mem_cons_self ..)
      rw [List.nil_append, ← hdata]
      refine .cons hl.ne_zero (AList.lookup_insert _) ?_
      rw [hlink]
      refine .cons hc ?_ (hnew ▸ .nil)
      rw [AList.lookup_insert_ne hce, AList.lookup_insert]
  | cons x xs ih =>
      obtain ⟨d, b'⟩ := x
      obtain ⟨rfl, v', hv', rfl, ht⟩ := hl.head
      have hcd : a ≠ c := fun hcd => hout (hcd ▸ List.mem_cons_self ..)
      have hed : a ≠ e := by
        rintro rfl
        have hlast : (a, b) ∈ xs ++ [(a, b)] := List.mem_append_right _ (List.mem_cons_self ..)
        exact hl.head_not_mem (List.mem_map_of_mem hlast)
      refine .cons hl.ne_zero ?_ (ih ht fun hin => hout (List.mem_cons_of_mem _ hin))
      rw [AList.lookup_insert_ne hed, AList.lookup_insert_ne hcd, hv']

end Holds

end OiUserland.Lib.Contents
