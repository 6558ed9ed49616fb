import OiUserland.Lib.Faults

namespace OiUserland.Lib.LengthChains

open Lib.Faults

abbrev Place := List UInt8 × Nat

variable {σ β : Type}

/-- Walk along records that begin with their own length while more than `room` bytes
are left. A visit either returns from the walk or goes on to the next record. A
record of length 0 ends the walk. -/
def walk (room : Nat) (visit : σ → Place → Run (σ ⊕ Option β)) (s : σ) (p : Place) : Run (Option β) :=
  if _h : room < p.2 then do
    match ← visit s p with
    | .inr r => pure r
    | .inl s =>
        let b ← byte p.1 0
        if _hb : b = 0 then pure none else walk room visit s (p.1.drop b, p.2 - b)
  else pure none
termination_by p.2

def chain (room : Nat) (p : Place) : List Place :=
  if _h : room < p.2 then
    p :: match p.1.head? with
      | none => []
      | some b => if _hb : b.toNat = 0 then [] else chain room (p.1.drop b.toNat, p.2 - b.toNat)
  else []
termination_by p.2

def overPlaces (visit : σ → Place → Run (σ ⊕ Option β)) : σ → List Place → Run (Option β)
  | _, [] => pure none
  | s, p :: ps => do
      match ← visit s p with
      | .inr r => pure r
      | .inl s => overPlaces visit s ps

def Inside (p : Place) : Prop := p.2 ≤ p.1.length

theorem Inside.drop {p : Place} (h : Inside p) (b : Nat) : Inside (p.1.drop b, p.2 - b) := by
  have h' : p.2 ≤ p.1.length := h
  simp only [Inside, List.length_drop]
  omega

section Chain

variable {room : Nat} {p q : Place}

theorem chain_of_le (h : p.2 ≤ room) : chain room p = [] := by
  rw [chain, dif_neg (Nat.not_lt.mpr h)]

theorem chain_cons (h : room < p.2) : ∃ ps, chain room p = p :: ps := by
  rw [chain, dif_pos h]
  exact ⟨_, rfl⟩

theorem chain_zero (h : room < p.2) {b : UInt8} {bs : List UInt8} (hp : p.1 = b :: bs) (hb : b.toNat = 0) :
    chain room p = [p] := by
  rw [chain, dif_pos h, hp, List.head?_cons]
  simp only [hb, ↓reduceDIte]

theorem chain_next (h : room < p.2) {b : UInt8} {bs : List UInt8} (hp : p.1 = b :: bs) (hb : b.toNat ≠ 0) :
    chain room p = p :: chain room (p.1.drop b.toNat, p.2 - b.toNat) := by
  rw [chain, dif_pos h, hp, List.head?_cons]
  simp only [hb, ↓reduceDIte]

theorem exists_cons_of_inside (h : room < p.2) (hp : Inside p) : ∃ b bs, p.1 = b :: bs := by
  have hlen : p.2 ≤ p.1.length := hp
  cases hbuf : p.1 with
  | nil =>
      rw [hbuf, List.length_nil] at hlen
      omega
  | cons b bs => exact ⟨b, bs, rfl⟩

theorem mem_chain (hp : Inside p) (hq : q ∈ chain room p) : Inside q ∧ room < q.2 := by
  induction hn : p.2 using Nat.strongRecOn generalizing p with
  | ind n ih =>
      by_cases h : room < p.2
      · obtain ⟨b, bs, hbuf⟩ := exists_cons_of_inside h hp
        by_cases hb : b.toNat = 0
        · rw [chain_zero h hbuf hb, List.mem_singleton] at hq
          subst hq
          exact ⟨hp, h⟩
        · rw [chain_next h hbuf hb] at hq
          rcases List.mem_cons.mp hq with rfl | hq
          · exact ⟨hp, h⟩
          · exact ih (p.2 - b.toNat) (by omega) (hp.drop b.toNat) hq rfl
      · rw [chain_of_le (Nat.not_lt.mp h)] at hq
        cases hq

end Chain

section Walk

variable {room : Nat} {visit : σ → Place → Run (σ ⊕ Option β)} {s : σ} {p : Place}

theorem walk_eq_overPlaces (hp : Inside p) : walk room visit s p = overPlaces visit s (chain room p) := by
  induction hn : p.2 using Nat.strongRecOn generalizing p s with
  | ind n ih =>
      by_cases h : room < p.2
      · obtain ⟨b, bs, hbuf⟩ := exists_cons_of_inside h hp
        have hbyte : byte p.1 0 = .ok b.toNat := by
          rw [hbuf]
          rfl
        rw [walk, dif_pos h]
        by_cases hb : b.toNat = 0
        · rw [chain_zero h hbuf hb, overPlaces]
          congr 1
          funext r
          cases r with
          | inr r => rfl
          | inl s => simp only [hbyte, overPlaces, hb, ↓reduceDIte, bind, Except.bind]
        · rw [chain_next h hbuf hb, overPlaces]
          congr 1
          funext r
          cases r with
          | inr r => rfl
          | inl s =>
              simp only [hbyte, hb, ↓reduceDIte, bind, Except.bind]
              exact ih (p.2 - b.toNat) (by omega) (hp.drop b.toNat) rfl
      · rw [walk, dif_neg h, chain_of_le (Nat.not_lt.mp h)]
        rfl

theorem overPlaces_find {found : Place → Bool} {ps : List Place} {visit : Unit → Place → Run (Unit ⊕ Option Place)}
    (hv : ∀ q ∈ ps, visit () q = .ok (if found q then .inr (some q) else .inl ())) :
    overPlaces visit () ps = .ok (ps.find? found) := by
  induction ps with
  | nil => rfl
  | cons q ps ih =>
      rw [overPlaces, hv q List.mem_cons_self, List.find?_cons]
      cases hq : found q with
      | true => rfl
      | false => exact ih fun q' hq' => hv q' (List.mem_cons_of_mem _ hq')

end Walk

section Narrow

variable {room room' : Nat} {p q : Place}

theorem le_of_mem_chain (hp : Inside p) (hq : q ∈ chain room p) : q.2 ≤ p.2 := by
  induction hn : p.2 using Nat.strongRecOn generalizing p with
  | ind n ih =>
      by_cases h : room < p.2
      · obtain ⟨b, bs, hbuf⟩ := exists_cons_of_inside h hp
        by_cases hb : b.toNat = 0
        · rw [chain_zero h hbuf hb, List.mem_singleton] at hq
          rw [hq]
          exact Nat.le_of_eq hn
        · rw [chain_next h hbuf hb] at hq
          rcases List.mem_cons.mp hq with rfl | hq
          · omega
          · have hle := ih (p.2 - b.toNat) (by omega) (hp.drop b.toNat) hq rfl
            omega
      · rw [chain_of_le (Nat.not_lt.mp h)] at hq
        cases hq

theorem chain_find_room {found : Place → Bool} (hp : Inside p) (hr : room ≤ room')
    (hf : ∀ q ∈ chain room p, found q = true → room' < q.2) :
    (chain room' p).find? found = (chain room p).find? found := by
  induction hn : p.2 using Nat.strongRecOn generalizing p with
  | ind n ih =>
      by_cases h' : room' < p.2
      · have h : room < p.2 := by omega
        obtain ⟨b, bs, hbuf⟩ := exists_cons_of_inside h hp
        by_cases hb : b.toNat = 0
        · rw [chain_zero h hbuf hb, chain_zero h' hbuf hb]
        · have hnext := chain_next h hbuf hb
          rw [hnext, chain_next h' hbuf hb, List.find?_cons, List.find?_cons]
          have hf' := fun q hq => hf q (hnext ▸ List.mem_cons_of_mem _ hq)
          rw [ih (p.2 - b.toNat) (by omega) (hp.drop b.toNat) hf' rfl]
      · rw [chain_of_le (Nat.not_lt.mp h'), List.find?_nil]
        refine (List.find?_eq_none.mpr ?_).symm
        intro q hq hfound
        have hle := le_of_mem_chain hp hq
        have hlt := hf q hq hfound
        omega

end Narrow

section Concatenation

def IsRecord (d : List UInt8) : Prop := 0 < d.length ∧ d.head?.map UInt8.toNat = some d.length

def place (ds : List (List UInt8)) : Place := (ds.flatten, ds.flatten.length)

def suffixes {α : Type} : List α → List (List α)
  | [] => []
  | x :: xs => (x :: xs) :: suffixes xs

variable {room : Nat} {ds : List (List UInt8)} {d : List UInt8}

theorem inside_place (ds : List (List UInt8)) : Inside (place ds) := Nat.le_refl _

theorem IsRecord.eq_cons (h : IsRecord d) : ∃ b bs, d = b :: bs ∧ b.toNat = d.length := by
  cases d with
  | nil => exact absurd h.1 (Nat.lt_irrefl 0)
  | cons b bs => exact ⟨b, bs, rfl, Option.some.inj h.2⟩

theorem drop_place (d : List UInt8) (ds : List (List UInt8)) :
    ((place (d :: ds)).1.drop d.length, (place (d :: ds)).2 - d.length) = place ds := by
  simp only [place, List.flatten_cons, List.drop_left, List.length_append, Nat.add_sub_cancel_left]

theorem chain_place (h : ∀ d ∈ ds, IsRecord d ∧ room < d.length) : chain room (place ds) = (suffixes ds).map place := by
  induction ds with
  | nil =>
      rw [chain_of_le (Nat.zero_le _)]
      rfl
  | cons d ds ih =>
      obtain ⟨hrec, hlen⟩ := h d List.mem_cons_self
      obtain ⟨b, bs, hd, hb⟩ := hrec.eq_cons
      have hroom : room < (place (d :: ds)).2 := by
        simp only [place, List.flatten_cons, List.length_append]
        omega
      have hbuf : (place (d :: ds)).1 = b :: (bs ++ ds.flatten) := by
        rw [place, List.flatten_cons, hd]
        rfl
      rw [chain_next hroom hbuf (by omega), hb, drop_place, ih fun d hd => h d (List.mem_cons_of_mem _ hd)]
      rfl

theorem suffixes_append_find {α : Type} {found : List α → Bool} {xs ys : List α}
    (h : ∀ x ∈ xs, ∀ zs, found (x :: zs) = false) : (suffixes (xs ++ ys)).find? found = (suffixes ys).find? found := by
  induction xs with
  | nil => rfl
  | cons x xs ih =>
      rw [List.cons_append, suffixes, List.find?_cons, h x List.mem_cons_self]
      exact ih fun x' hx' => h x' (List.mem_cons_of_mem _ hx')

theorem takeWhile_congr {α : Type} {p p' : α → Bool} {l : List α} (h : ∀ x ∈ l, p x = p' x) :
    l.takeWhile p = l.takeWhile p' := by
  induction l with
  | nil => rfl
  | cons x l ih =>
      rw [List.takeWhile_cons, List.takeWhile_cons, h x List.mem_cons_self,
        ih fun x' hx' => h x' (List.mem_cons_of_mem _ hx')]

theorem getElem?_suffixes {α : Type} {xs : List α} {n : Nat} (h : n < xs.length) :
    (suffixes xs)[n]? = some (xs.drop n) := by
  induction xs generalizing n with
  | nil => cases h
  | cons x xs ih =>
      cases n with
      | zero => rfl
      | succ n => exact ih (Nat.lt_of_succ_lt_succ h)

theorem mem_suffixes {α : Type} {xs s : List α} (h : s ∈ suffixes xs) : ∃ x ys, s = x :: ys ∧ x ∈ xs := by
  induction xs with
  | nil => cases h
  | cons x xs ih =>
      rcases List.mem_cons.mp h with rfl | h
      · exact ⟨x, xs, rfl, List.mem_cons_self⟩
      · obtain ⟨y, ys, rfl, hy⟩ := ih h
        exact ⟨y, ys, rfl, List.mem_cons_of_mem _ hy⟩

end Concatenation

end OiUserland.Lib.LengthChains
