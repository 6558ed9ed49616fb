import OiUserland.Lib.Chains

namespace OiUserland.Lib.DoubleLinks

open Lib.Chains

/-- A cell of a list that is linked both ways. -/
structure Node (α : Type) where
  next : Nat
  prev : Nat
  item : α

section Links

structure Linked (next prev : Nat → Option Nat) (l : List Nat) : Prop where
  forth : IsChain next (l.headD 0) l
  back : IsChain prev (l.reverse.headD 0) l.reverse

variable {link link' next prev next' prev' : Nat → Option Nat} {a c : Nat} {l l₁ l₂ : List Nat}

theorem headD_of_isChain (h : IsChain link a l) : a = l.headD 0 := by
  cases h with
  | nil => rfl
  | cons _ _ _ => rfl

theorem link_of_isChain (h : IsChain link a (l₁ ++ c :: l₂)) : link c = some (l₂.headD 0) := by
  induction l₁ generalizing a with
  | nil =>
      cases h with
      | cons _ hb ht => rw [hb, headD_of_isChain ht]
  | cons x l₁ ih =>
      cases h with
      | cons _ _ ht => exact ih ht

theorem isChain_unlink (h : IsChain link ((l₁ ++ c :: l₂).headD 0) (l₁ ++ c :: l₂))
    (hbefore : ∀ e ∈ l₁.getLast?, link' e = some (l₂.headD 0))
    (hothers : ∀ d ∈ l₁ ++ l₂, d ∉ l₁.getLast? → link' d = link d) :
    IsChain link' ((l₁ ++ l₂).headD 0) (l₁ ++ l₂) := by
  have hnodup := h.nodup
  induction l₁ with
  | nil =>
      cases h with
      | cons _ _ ht =>
          rw [headD_of_isChain ht] at ht
          exact ht.congr fun d hd => hothers d hd nofun
  | cons x l₁ ih =>
      obtain ⟨hx, hnodup⟩ := List.nodup_cons.mp hnodup
      cases h with
      | cons hx0 hb ht =>
          rw [headD_of_isChain ht] at hb ht
          cases l₁ with
          | nil =>
              cases ht with
              | cons _ _ htail =>
                  rw [headD_of_isChain htail] at htail
                  refine .cons hx0 (hbefore x rfl)
                    (htail.congr fun d hd => hothers d (List.mem_cons_of_mem _ hd) ?_)
                  rintro ⟨rfl⟩
                  exact hx (List.mem_cons_of_mem _ hd)
          | cons y l₁ =>
              rw [List.getLast?_cons_cons] at hbefore hothers
              have hxy : x ∉ (y :: l₁).getLast? := fun hin => hx (List.mem_append_left _ (List.mem_of_getLast? hin))
              refine .cons hx0 ((hothers x (List.mem_cons_self ..) hxy).trans hb)
                (ih ht hbefore (fun d hd => ?_) hnodup)
              exact hothers d (List.mem_cons_of_mem _ hd)

theorem isChain_snoc (h : IsChain link a l) (hl : l ≠ []) (hc : c ≠ 0) (hc0 : link' c = some 0)
    (hlast : ∀ e ∈ l.getLast?, link' e = some c) (hothers : ∀ d ∈ l, d ∉ l.getLast? → link' d = link d) :
    IsChain link' a (l ++ [c]) := by
  have hnodup := h.nodup
  induction h with
  | nil => exact absurd rfl hl
  | @cons a b l ha hb ht ih =>
      obtain ⟨hnotin, hnodup⟩ := List.nodup_cons.mp hnodup
      cases l with
      | nil => exact .cons ha (hlast a rfl) (.cons hc hc0 .nil)
      | cons y l =>
          rw [List.getLast?_cons_cons] at hlast hothers
          have ha' : a ∉ (y :: l).getLast? := fun hin => hnotin (List.mem_of_getLast? hin)
          refine .cons ha ((hothers a (List.mem_cons_self ..) ha').trans hb) ?_
          exact ih (List.cons_ne_nil _ _) hlast (fun d hd => hothers d (List.mem_cons_of_mem _ hd)) hnodup

namespace Linked

theorem nil (next prev : Nat → Option Nat) : Linked next prev [] := ⟨.nil, .nil⟩

theorem reverse (h : Linked next prev l) : Linked prev next l.reverse := by
  refine ⟨h.back, ?_⟩
  rw [List.reverse_reverse]
  exact h.forth

theorem congr (h : Linked next prev l) (hn : ∀ c ∈ l, next' c = next c)
    (hp : ∀ c ∈ l, prev' c = prev c) : Linked next' prev' l :=
  ⟨h.forth.congr hn, h.back.congr fun c hc => hp c (List.mem_reverse.mp hc)⟩

theorem next_eq (h : Linked next prev (l₁ ++ c :: l₂)) : next c = some (l₂.headD 0) := link_of_isChain h.forth

theorem prev_eq (h : Linked next prev (l₁ ++ c :: l₂)) : prev c = some (l₁.reverse.headD 0) := by
  have hback := h.back
  rw [List.reverse_append, List.reverse_cons, List.append_assoc] at hback
  exact link_of_isChain hback

theorem unlink (h : Linked next prev (l₁ ++ c :: l₂)) (hn : ∀ e ∈ l₁.getLast?, next' e = next c)
    (hp : ∀ e ∈ l₂.head?, prev' e = prev c)
    (hno : ∀ d ∈ l₁ ++ l₂, d ∉ l₁.getLast? → next' d = next d)
    (hpo : ∀ d ∈ l₁ ++ l₂, d ∉ l₂.head? → prev' d = prev d) :
    Linked next' prev' (l₁ ++ l₂) := by
  have hback := h.back
  rw [List.reverse_append, List.reverse_cons, List.append_assoc] at hback
  refine ⟨isChain_unlink h.forth (fun e he => (hn e he).trans h.next_eq) hno, ?_⟩
  rw [List.reverse_append]
  refine isChain_unlink hback (fun e he => ?_) fun d hd hlast => ?_
  · rw [List.getLast?_reverse] at he
    exact (hp e he).trans h.prev_eq
  · rw [List.getLast?_reverse] at hlast
    exact hpo d (by simpa [or_comm] using hd) hlast

theorem push (h : Linked next prev l) (hc : c ≠ 0) (hn : next' c = some (l.headD 0)) (hp : prev' c = some 0)
    (hfirst : ∀ e ∈ l.head?, prev' e = some c) (hno : ∀ d ∈ l, next' d = next d)
    (hpo : ∀ d ∈ l, d ∉ l.head? → prev' d = prev d) : Linked next' prev' (c :: l) := by
  refine ⟨.cons hc hn (h.forth.congr hno), ?_⟩
  rw [List.reverse_cons]
  cases l with
  | nil => exact .cons hc hp .nil
  | cons e l =>
      have hne : (e :: l).reverse ≠ [] := List.reverse_ne_nil_iff.mpr (List.cons_ne_nil _ _)
      have hhead : ((e :: l).reverse ++ [c]).headD 0 = (e :: l).reverse.headD 0 := by
        cases hr : (e :: l).reverse with
        | nil => exact absurd hr hne
        | cons _ _ => rfl
      rw [hhead]
      refine isChain_snoc h.back hne hc hp (fun d hd => ?_) fun d hd hlast => ?_
      · rw [List.getLast?_reverse] at hd
        exact hfirst d hd
      · rw [List.getLast?_reverse] at hlast
        exact hpo d (List.mem_reverse.mp hd) hlast

theorem append (h : Linked next prev l) (hc : c ≠ 0) (hp : prev' c = some (l.reverse.headD 0))
    (hn : next' c = some 0)
    (hlast : ∀ e ∈ l.getLast?, next' e = some c) (hpo : ∀ d ∈ l, prev' d = prev d)
    (hno : ∀ d ∈ l, d ∉ l.getLast? → next' d = next d) : Linked next' prev' (l ++ [c]) := by
  have hpush : Linked prev' next' (c :: l.reverse) := by
    refine h.reverse.push hc hp hn (fun e he => ?_)
      (fun d hd => hpo d (List.mem_reverse.mp hd)) fun d hd hhead => ?_
    · rw [List.head?_reverse] at he
      exact hlast e he
    · rw [List.head?_reverse] at hhead
      exact hno d (List.mem_reverse.mp hd) hhead
  have hback := hpush.reverse
  rwa [List.reverse_cons, List.reverse_reverse] at hback

end Linked

end Links

section Memory

variable {α : Type}

abbrev Cells (α : Type) := Heap (Node α)

/-- A list in memory. -/
abbrev LinkedIn (h : Cells α) (l : List Nat) : Prop := Linked (linkOf Node.next h) (linkOf Node.prev h) l

def itemOf (h : Cells α) (a : Nat) : Option α := (h.lookup a).map Node.item

def setNext (a b : Nat) (h : Cells α) : Option (Cells α) :=
  (h.lookup a).map fun v => h.insert a { v with next := b }

def setPrev (a b : Nat) (h : Cells α) : Option (Cells α) :=
  (h.lookup a).map fun v => h.insert a { v with prev := b }

def linkForth (p n : Nat) (h : Cells α) : Option (Cells α) := if p = 0 then some h else setNext p n h

def linkBack (n p : Nat) (h : Cells α) : Option (Cells α) := if n = 0 then some h else setPrev n p h

def relinked (p n d : Nat) (v : Node α) : Node α :=
  ⟨if p ≠ 0 ∧ d = p then n else v.next, if n ≠ 0 ∧ d = n then p else v.prev, v.item⟩

def Unlinked (p n c : Nat) (h h' : Cells α) : Prop := ∀ d, d ≠ c → h'.lookup d = (h.lookup d).map (relinked p n d)

/-- A cell leads to `n`, which leads back to it. -/
def Pushed (n c : Nat) (h h' : Cells α) : Prop :=
  linkOf Node.next h' c = some n ∧ linkOf Node.prev h' c = some 0 ∧
    ∀ d, d ≠ c → h'.lookup d = (h.lookup d).map (relinked c n d)

/-- `p` leads to a cell, which leads back to it. -/
def Appended (p c : Nat) (h h' : Cells α) : Prop :=
  linkOf Node.next h' c = some 0 ∧ linkOf Node.prev h' c = some p ∧
    ∀ d, d ≠ c → h'.lookup d = (h.lookup d).map (relinked p c d)

variable {h h' : Cells α} {a b c d n p : Nat} {v : Node α} {l l₁ l₂ : List Nat}

theorem lookup_insert_map {f : Node α → Node α} (hv : h.lookup a = some v) (d : Nat) :
    (h.insert a (f v)).lookup d = (h.lookup d).map fun w => if d = a then f w else w := by
  by_cases hd : d = a
  · subst hd
    rw [AList.lookup_insert, hv, Option.map_some, if_pos rfl]
  · rw [AList.lookup_insert_ne hd]
    simp [hd]

theorem setNext_eq {b : Nat} (hc : (h.lookup c).isSome) : ∃ h', setNext c b h = some h' ∧
    linkOf Node.next h' c = some b ∧
    linkOf Node.prev h' c = linkOf Node.prev h c ∧ itemOf h' c = itemOf h c ∧
    ∀ d, d ≠ c → h'.lookup d = h.lookup d := by
  obtain ⟨v, hv⟩ := Option.isSome_iff_exists.mp hc
  refine ⟨_, by rw [setNext, hv, Option.map_some], linkOf_insert .., ?_, ?_, fun d hd => AList.lookup_insert_ne hd⟩
  · rw [linkOf_insert, linkOf_of_lookup hv]
  · rw [itemOf, itemOf, AList.lookup_insert, hv, Option.map_some, Option.map_some]

theorem setPrev_eq {b : Nat} (hc : (h.lookup c).isSome) : ∃ h', setPrev c b h = some h' ∧
    linkOf Node.prev h' c = some b ∧
    linkOf Node.next h' c = linkOf Node.next h c ∧ itemOf h' c = itemOf h c ∧
    ∀ d, d ≠ c → h'.lookup d = h.lookup d := by
  obtain ⟨v, hv⟩ := Option.isSome_iff_exists.mp hc
  refine ⟨_, by rw [setPrev, hv, Option.map_some], linkOf_insert .., ?_, ?_, fun d hd => AList.lookup_insert_ne hd⟩
  · rw [linkOf_insert, linkOf_of_lookup hv]
  · rw [itemOf, itemOf, AList.lookup_insert, hv, Option.map_some, Option.map_some]

theorem headD_unlink (c : Nat) (l₁ l₂ : List Nat) (hl : ∀ d ∈ l₁, d ≠ 0) :
    (if l₁.reverse.headD 0 ≠ 0 then (l₁ ++ c :: l₂).headD 0 else l₂.headD 0) = (l₁ ++ l₂).headD 0 := by
  cases l₁ with
  | nil => rfl
  | cons a l₁ =>
      rw [if_pos]
      · rfl
      · rw [List.headD_eq_head?_getD, List.head?_reverse]
        cases hlast : (a :: l₁).getLast? with
        | none => exact absurd (List.getLast?_eq_none_iff.mp hlast) (List.cons_ne_nil _ _)
        | some e => exact hl e (List.mem_of_getLast? hlast)

theorem linkForth_eq (n : Nat) (hp : p ≠ 0 → (h.lookup p).isSome) : ∃ h', linkForth p n h = some h' ∧
    ∀ d, h'.lookup d = (h.lookup d).map fun v => { v with next := if p ≠ 0 ∧ d = p then n else v.next } := by
  by_cases h0 : p = 0
  · exact ⟨h, if_pos h0, fun d => by simp [h0]⟩
  · obtain ⟨v, hv⟩ := Option.isSome_iff_exists.mp (hp h0)
    refine ⟨_, (if_neg h0).trans (by rw [setNext, hv, Option.map_some]), fun d => ?_⟩
    rw [@lookup_insert_map α h p v (fun v => { v with next := n }) hv d]
    refine congrArg (Option.map · _) (funext fun w => ?_)
    by_cases hd : d = p
    · simp [hd, h0]
    · simp [hd]

theorem linkBack_eq (p : Nat) (hn : n ≠ 0 → (h.lookup n).isSome) : ∃ h', linkBack n p h = some h' ∧
    ∀ d, h'.lookup d = (h.lookup d).map fun v => { v with prev := if n ≠ 0 ∧ d = n then p else v.prev } := by
  by_cases h0 : n = 0
  · exact ⟨h, if_pos h0, fun d => by simp [h0]⟩
  · obtain ⟨v, hv⟩ := Option.isSome_iff_exists.mp (hn h0)
    refine ⟨_, (if_neg h0).trans (by rw [setPrev, hv, Option.map_some]), fun d => ?_⟩
    rw [@lookup_insert_map α h n v (fun v => { v with prev := p }) hv d]
    refine congrArg (Option.map · _) (funext fun w => ?_)
    by_cases hd : d = n
    · simp [hd, h0]
    · simp [hd]

theorem relinked_of_ne (v : Node α) (hp : p ≠ 0 → d ≠ p) (hn : n ≠ 0 → d ≠ n) : relinked p n d v = v := by
  rw [relinked, if_neg fun hall => hp hall.1 hall.2, if_neg fun hall => hn hall.1 hall.2]

theorem lookup_relinked (hd : h'.lookup d = (h.lookup d).map (relinked p n d)) (hp : p ≠ 0 → d ≠ p)
    (hn : n ≠ 0 → d ≠ n) :
    h'.lookup d = h.lookup d := by
  rw [hd]
  cases h.lookup d with
  | none => rfl
  | some v => rw [Option.map_some, relinked_of_ne v hp hn]

theorem next_relinked (hd : h'.lookup d = (h.lookup d).map (relinked p n d)) :
    linkOf Node.next h' d = if p ≠ 0 ∧ d = p ∧ (h.lookup d).isSome then some n else linkOf Node.next h d := by
  rw [linkOf, linkOf, hd]
  cases h.lookup d with
  | none => simp
  | some v =>
      by_cases hp : p ≠ 0 ∧ d = p
      · simp [relinked, hp]
      · rw [if_neg fun hall => hp ⟨hall.1, hall.2.1⟩]
        simp only [Option.map_some, relinked, if_neg hp]

theorem prev_relinked (hd : h'.lookup d = (h.lookup d).map (relinked p n d)) :
    linkOf Node.prev h' d = if n ≠ 0 ∧ d = n ∧ (h.lookup d).isSome then some p else linkOf Node.prev h d := by
  rw [linkOf, linkOf, hd]
  cases h.lookup d with
  | none => simp
  | some v =>
      by_cases hn : n ≠ 0 ∧ d = n
      · simp [relinked, hn]
      · rw [if_neg fun hall => hn ⟨hall.1, hall.2.1⟩]
        simp only [Option.map_some, relinked, if_neg hn]

theorem item_relinked (hd : h'.lookup d = (h.lookup d).map (relinked p n d)) : itemOf h' d = itemOf h d := by
  rw [itemOf, itemOf, hd]
  cases h.lookup d <;> rfl

namespace Linked

theorem isSome (hl : LinkedIn h l) (hc : c ∈ l) : (h.lookup c).isSome := by
  have hsome := hl.forth.isSome hc
  rwa [linkOf, Option.isSome_map] at hsome

theorem ne_zero (hl : LinkedIn h l) (hc : c ∈ l) : c ≠ 0 := hl.forth.ne_zero hc

theorem nodup (hl : LinkedIn h l) : l.Nodup := hl.forth.nodup

theorem length_le (hl : LinkedIn h l) : l.length ≤ h.keys.length := hl.forth.length_le

theorem lookup (hl : LinkedIn h (l₁ ++ c :: l₂)) : ∃ x, h.lookup c = some ⟨l₂.headD 0, l₁.reverse.headD 0, x⟩ := by
  obtain ⟨v, hv⟩ := Option.isSome_iff_exists.mp (hl.isSome (List.mem_append_right l₁ (List.mem_cons_self ..)))
  have hn := hl.next_eq
  have hp := hl.prev_eq
  rw [linkOf_of_lookup hv] at hn hp
  obtain ⟨next, prev, item⟩ := v
  obtain rfl := Option.some.inj hn
  obtain rfl := Option.some.inj hp
  exact ⟨item, hv⟩

theorem lastCell (hl : LinkedIn h l) (hne : l ≠ []) : ∃ e p x, l.reverse.headD 0 = e ∧ e ∈ l ∧
    endOf (linkOf Node.next h) h.keys.length (l.headD 0) = some e ∧ h.lookup e = some ⟨0, p, x⟩ := by
  obtain ⟨l₁, e, rfl⟩ : ∃ l₁ e, l = l₁ ++ [e] := ⟨_, _, (List.dropLast_append_getLast hne).symm⟩
  obtain ⟨x, hx⟩ := hl.lookup
  have hfirst : (l₁ ++ [e]).headD 0 ≠ 0 := by
    cases l₁ with
    | nil => exact hl.ne_zero (List.mem_cons_self ..)
    | cons a l₁ => exact hl.ne_zero (List.mem_cons_self ..)
  refine ⟨e, l₁.reverse.headD 0, x, ?_, List.mem_append_right _ (List.mem_cons_self ..), ?_, hx⟩
  · rw [List.reverse_append, List.reverse_singleton, List.singleton_append, List.headD_cons]
  · rw [endOf_chain hl.forth hfirst hl.length_le, List.getLast?_append, List.getLast?_singleton, Option.some_or]

theorem frame (hl : LinkedIn h l) (hsame : ∀ d ∈ l, h'.lookup d = h.lookup d) : LinkedIn h' l := by
  refine hl.congr (fun d hd => ?_) fun d hd => ?_
  · rw [linkOf, linkOf, hsame d hd]
  · rw [linkOf, linkOf, hsame d hd]

theorem mem_last (hl : LinkedIn h l) : d ∈ l.getLast? ↔ l.reverse.headD 0 ≠ 0 ∧ d = l.reverse.headD 0 := by
  rw [List.headD_eq_head?_getD, List.head?_reverse]
  cases hlast : l.getLast? with
  | none => simp
  | some e =>
      have he := hl.ne_zero (List.mem_of_getLast? hlast)
      simp [he, eq_comm]

theorem mem_first (hl : LinkedIn h l) : d ∈ l.head? ↔ l.headD 0 ≠ 0 ∧ d = l.headD 0 := by
  rw [List.headD_eq_head?_getD]
  cases hhead : l.head? with
  | none => simp
  | some e =>
      have he := hl.ne_zero (List.mem_of_mem_head? hhead)
      simp [he, eq_comm]

theorem ends (hl : LinkedIn h (l₁ ++ c :: l₂)) :
    (∀ d, d ∈ l₁.getLast? ↔ l₁.reverse.headD 0 ≠ 0 ∧ d = l₁.reverse.headD 0) ∧
      ∀ d, d ∈ l₂.head? ↔ l₂.headD 0 ≠ 0 ∧ d = l₂.headD 0 := by
  constructor
  · intro d
    rw [List.headD_eq_head?_getD, List.head?_reverse]
    cases hlast : l₁.getLast? with
    | none => simp
    | some e =>
        have he := hl.ne_zero (List.mem_append_left _ (List.mem_of_getLast? hlast))
        simp [he, eq_comm]
  · intro d
    rw [List.headD_eq_head?_getD]
    cases hhead : l₂.head? with
    | none => simp
    | some e =>
        have he := hl.ne_zero (List.mem_append_right l₁ (List.mem_cons_of_mem c (List.mem_of_mem_head? hhead)))
        simp [he, eq_comm]

theorem beside (hl : LinkedIn h (l₁ ++ c :: l₂)) :
    (l₁.reverse.headD 0 ≠ 0 → (h.lookup (l₁.reverse.headD 0)).isSome ∧ c ≠ l₁.reverse.headD 0) ∧
    (l₂.headD 0 ≠ 0 → (h.lookup (l₂.headD 0)).isSome ∧ c ≠ l₂.headD 0) := by
  obtain ⟨hlast, hfirst⟩ := hl.ends
  have hnot := (List.nodup_cons.mp (List.nodup_middle.mp hl.nodup)).1
  constructor
  · intro h0
    have hin := List.mem_append_left l₂ (List.mem_of_getLast? ((hlast _).mpr ⟨h0, rfl⟩))
    exact ⟨hl.isSome (by simpa [or_left_comm] using Or.inr (List.mem_append.mp hin)), fun heq => hnot (heq ▸ hin)⟩
  · intro h0
    have hin := List.mem_append_right l₁ (List.mem_of_mem_head? ((hfirst _).mpr ⟨h0, rfl⟩))
    exact ⟨hl.isSome (by simpa [or_left_comm] using Or.inr (List.mem_append.mp hin)), fun heq => hnot (heq ▸ hin)⟩

theorem relink (hl : LinkedIn h (l₁ ++ c :: l₂)) :
    ∃ h₁ h₂, linkForth (l₁.reverse.headD 0) (l₂.headD 0) h = some h₁ ∧
    h₁.lookup c = h.lookup c ∧ linkBack (l₂.headD 0) (l₁.reverse.headD 0) h₁ = some h₂ ∧ h₂.lookup c = h.lookup c ∧
    ∀ d, h₂.lookup d = (h.lookup d).map (relinked (l₁.reverse.headD 0) (l₂.headD 0) d) := by
  obtain ⟨hp, hn⟩ := hl.beside
  obtain ⟨h₁, hrun₁, hlookup₁⟩ := linkForth_eq (l₂.headD 0) fun h0 => (hp h0).1
  obtain ⟨h₂, hrun₂, hlookup₂⟩ := @linkBack_eq α h₁ (l₂.headD 0) (l₁.reverse.headD 0) fun h0 => by
    rw [hlookup₁, Option.isSome_map]
    exact (hn h0).1
  have hboth (d : Nat) : h₂.lookup d = (h.lookup d).map (relinked (l₁.reverse.headD 0) (l₂.headD 0) d) := by
    rw [hlookup₂, hlookup₁, Option.map_map]
    rfl
  refine ⟨h₁, h₂, hrun₁, ?_, hrun₂, lookup_relinked (hboth c) (fun h0 => (hp h0).2) (fun h0 => (hn h0).2), hboth⟩
  rw [hlookup₁]
  cases h.lookup c with
  | none => rfl
  | some v => rw [Option.map_some, if_neg fun hall => (hp hall.1).2 hall.2]

theorem relink_back (hl : LinkedIn h (l₁ ++ c :: l₂)) :
    ∃ h₁ h₂, linkBack (l₂.headD 0) (l₁.reverse.headD 0) h = some h₁ ∧
    h₁.lookup c = h.lookup c ∧ linkForth (l₁.reverse.headD 0) (l₂.headD 0) h₁ = some h₂ ∧ h₂.lookup c = h.lookup c ∧
    ∀ d, h₂.lookup d = (h.lookup d).map (relinked (l₁.reverse.headD 0) (l₂.headD 0) d) := by
  obtain ⟨hp, hn⟩ := hl.beside
  obtain ⟨h₁, hrun₁, hlookup₁⟩ := linkBack_eq (l₁.reverse.headD 0) fun h0 => (hn h0).1
  obtain ⟨h₂, hrun₂, hlookup₂⟩ := @linkForth_eq α h₁ (l₁.reverse.headD 0) (l₂.headD 0) fun h0 => by
    rw [hlookup₁, Option.isSome_map]
    exact (hp h0).1
  have hboth (d : Nat) : h₂.lookup d = (h.lookup d).map (relinked (l₁.reverse.headD 0) (l₂.headD 0) d) := by
    rw [hlookup₂, hlookup₁, Option.map_map]
    rfl
  refine ⟨h₁, h₂, hrun₁, ?_, hrun₂, lookup_relinked (hboth c) (fun h0 => (hp h0).2) (fun h0 => (hn h0).2), hboth⟩
  rw [hlookup₁]
  cases h.lookup c with
  | none => rfl
  | some v => rw [Option.map_some, if_neg fun hall => (hn hall.1).2 hall.2]

theorem unlinked (hl : LinkedIn h (l₁ ++ c :: l₂))
    (hu : Unlinked (l₁.reverse.headD 0) (l₂.headD 0) c h h') : LinkedIn h' (l₁ ++ l₂) := by
  obtain ⟨hlast, hfirst⟩ := hl.ends
  have hmem (d : Nat) (hd : d ∈ l₁ ++ l₂) : d ∈ l₁ ++ c :: l₂ := by
    rcases List.mem_append.mp hd with hd | hd
    · exact List.mem_append_left _ hd
    · exact List.mem_append_right _ (List.mem_cons_of_mem _ hd)
  have hne (d : Nat) (hd : d ∈ l₁ ++ l₂) : d ≠ c := by
    rintro rfl
    exact (List.nodup_middle.mp hl.nodup |> List.nodup_cons.mp).1 hd
  have hnext (d : Nat) (hd : d ∈ l₁ ++ l₂) := next_relinked (hu d (hne d hd))
  have hprev (d : Nat) (hd : d ∈ l₁ ++ l₂) := prev_relinked (hu d (hne d hd))
  refine hl.unlink (fun e he => ?_) (fun e he => ?_) (fun d hd hno => ?_) fun d hd hno => ?_
  · have hin := List.mem_append_left l₂ (List.mem_of_getLast? he)
    rw [hl.next_eq, hnext e hin, if_pos ⟨((hlast e).mp he).1, ((hlast e).mp he).2, hl.isSome (hmem e hin)⟩]
  · have hin := List.mem_append_right l₁ (List.mem_of_mem_head? he)
    rw [hl.prev_eq, hprev e hin, if_pos ⟨((hfirst e).mp he).1, ((hfirst e).mp he).2, hl.isSome (hmem e hin)⟩]
  · rw [hnext d hd, if_neg fun hall => hno ((hlast d).mpr ⟨hall.1, hall.2.1⟩)]
  · rw [hprev d hd, if_neg fun hall => hno ((hfirst d).mpr ⟨hall.1, hall.2.1⟩)]

theorem pushed (hl : LinkedIn h l) (hc : c ≠ 0) (hnot : c ∉ l) (hp : Pushed (l.headD 0) c h h') :
    LinkedIn h' (c :: l) := by
  obtain ⟨hcnext, hcprev, hothers⟩ := hp
  have hne (d : Nat) (hd : d ∈ l) : d ≠ c := fun heq => hnot (heq ▸ hd)
  refine hl.push hc hcnext hcprev (fun e he => ?_) (fun d hd => ?_) fun d hd hno => ?_
  · have hin := List.mem_of_mem_head? he
    have hfirst := hl.mem_first.mp he
    rw [prev_relinked (hothers e (hne e hin)), if_pos ⟨hfirst.1, hfirst.2, hl.isSome hin⟩]
  · rw [next_relinked (hothers d (hne d hd)), if_neg fun hall => hne d hd hall.2.1]
  · rw [prev_relinked (hothers d (hne d hd)), if_neg fun hall => hno (hl.mem_first.mpr ⟨hall.1, hall.2.1⟩)]

theorem appended (hl : LinkedIn h l) (hc : c ≠ 0) (hnot : c ∉ l)
    (hp : Appended (l.reverse.headD 0) c h h') : LinkedIn h' (l ++ [c]) := by
  obtain ⟨hcnext, hcprev, hothers⟩ := hp
  have hne (d : Nat) (hd : d ∈ l) : d ≠ c := fun heq => hnot (heq ▸ hd)
  refine hl.append hc hcprev hcnext (fun e he => ?_) (fun d hd => ?_) fun d hd hno => ?_
  · have hin := List.mem_of_getLast? he
    have hlast := hl.mem_last.mp he
    rw [next_relinked (hothers e (hne e hin)), if_pos ⟨hlast.1, hlast.2, hl.isSome hin⟩]
  · rw [prev_relinked (hothers d (hne d hd)), if_neg fun hall => hne d hd hall.2.1]
  · rw [next_relinked (hothers d (hne d hd)), if_neg fun hall => hno (hl.mem_last.mpr ⟨hall.1, hall.2.1⟩)]

end Linked

section Shrinking

/-- Of the cells `l` those in `l'` are left, and hold what they held; the others are given back. -/
structure Shrunk (l l' : List Nat) (h h' : Cells α) : Prop where
  sub : l' ⊆ l
  items : ∀ d ∈ l', itemOf h' d = itemOf h d
  freed : ∀ d ∈ l, d ∉ l' → h'.lookup d = none
  frame : ∀ d, d ∉ l → h'.lookup d = h.lookup d

namespace Shrunk

variable {h'' : Cells α} {l' l'' m m' : List Nat}

theorem refl (l : List Nat) (h : Cells α) : Shrunk l l h h :=
  ⟨fun _ hd => hd, fun _ _ => rfl, fun _ hd hnot => absurd hd hnot, fun _ _ => rfl⟩

theorem trans (h₁ : Shrunk l l' h h') (h₂ : Shrunk l' l'' h' h'') : Shrunk l l'' h h'' := by
  refine ⟨fun d hd => h₁.sub (h₂.sub hd), fun d hd => ?_, fun d hd hnot => ?_, fun d hd => ?_⟩
  · rw [h₂.items d hd, h₁.items d (h₂.sub hd)]
  · by_cases hd' : d ∈ l'
    · exact h₂.freed d hd' hnot
    · rw [h₂.frame d hd', h₁.freed d hd hd']
  · rw [h₂.frame d fun hd' => hd (h₁.sub hd'), h₁.frame d hd]

theorem beside (hs : Shrunk l l' h h') (hdisj : l.Disjoint m) : Shrunk (l ++ m) (l' ++ m) h h' := by
  refine ⟨List.append_subset.mpr ⟨fun d hd => List.mem_append_left _ (hs.sub hd),
    List.subset_append_right ..⟩, fun d hd => ?_,
    fun d hd hnot => ?_, fun d hd => hs.frame d fun hin => hd (List.mem_append_left _ hin)⟩
  · rcases List.mem_append.mp hd with hd | hd
    · exact hs.items d hd
    · rw [itemOf, itemOf, hs.frame d fun hin => hdisj hin hd]
  · rcases List.mem_append.mp hd with hd | hd
    · exact hs.freed d hd fun hin => hnot (List.mem_append_left _ hin)
    · exact absurd (List.mem_append_right _ hd) hnot

theorem comm (hs : Shrunk (l ++ m) (l' ++ m') h h') : Shrunk (m ++ l) (m' ++ l') h h' := by
  have hswap (l m : List Nat) (d : Nat) : d ∈ m ++ l ↔ d ∈ l ++ m := by
    rw [List.mem_append, List.mem_append, or_comm]
  refine ⟨fun d hd => (hswap l m d).mpr (hs.sub ((hswap l' m' d).mp hd)),
    fun d hd => hs.items d ((hswap l' m' d).mp hd), fun d hd hnot => ?_,
    fun d hd => hs.frame d fun hin => hd ((hswap l m d).mpr hin)⟩
  exact hs.freed d ((hswap l m d).mp hd) fun hin => hnot ((hswap l' m' d).mpr hin)

theorem linked (hs : Shrunk l l' h h') (hdisj : l.Disjoint m) (hm : LinkedIn h m) : LinkedIn h' m :=
  hm.frame fun d hd => hs.frame d fun hin => hdisj hin hd

end Shrunk

theorem Linked.shrunk (hl : LinkedIn h (l₁ ++ c :: l₂))
    (hu : Unlinked (l₁.reverse.headD 0) (l₂.headD 0) c h h') (hc : h'.lookup c = none) :
    Shrunk (l₁ ++ c :: l₂) (l₁ ++ l₂) h h' := by
  obtain ⟨hlast, hfirst⟩ := hl.ends
  have hnot : c ∉ l₁ ++ l₂ := (List.nodup_cons.mp (List.nodup_middle.mp hl.nodup)).1
  have hin (d : Nat) : d ∈ l₁ ++ c :: l₂ ↔ d = c ∨ d ∈ l₁ ++ l₂ := by
    rw [List.mem_append, List.mem_cons, List.mem_append, or_left_comm]
  refine ⟨fun d hd => (hin d).mpr (.inr hd), fun d hd => ?_, fun d hd hd' => ?_, fun d hd => ?_⟩
  · exact item_relinked (hu d fun heq => hnot (heq ▸ hd))
  · rw [((hin d).mp hd).resolve_right hd', hc]
  · refine lookup_relinked (hu d fun heq => hd ((hin d).mpr (.inl heq))) (fun h0 heq => hd ?_) fun h0 heq => hd ?_
    · exact (hin d).mpr (.inr (List.mem_append_left _ (List.mem_of_getLast? ((hlast d).mpr ⟨h0, heq⟩))))
    · exact (hin d).mpr (.inr (List.mem_append_right _ (List.mem_of_mem_head? ((hfirst d).mpr ⟨h0, heq⟩))))

end Shrinking

end Memory

end OiUserland.Lib.DoubleLinks
