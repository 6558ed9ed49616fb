import OiUserland.HealthMonitor.Iostat

namespace OiUserland.HealthMonitor.DiskLists

open Lib.Chains Lib.Contents Iostat

variable {ν : Type} {chars : ν → List Char} {x : Chain ν} {ksp : KStat}

abbrev Cells (ν : Type) := List (Addr × DiskInfo ν)

def content (d : DiskInfo ν) : DiskInfo ν := { d with next := 0, selected := false }

def Nodes (heap : Heap (DiskInfo ν)) (a : Addr) (cells : Cells ν) : Prop := Holds DiskInfo.next content heap a cells

def cellsOf (x : Chain ν) (sorted : List (Addr × KStat)) : Cells ν := sorted.map fun t => (t.1, x.nodeOf t.2)

theorem fst_cellsOf (x : Chain ν) (sorted : List (Addr × KStat)) : (cellsOf x sorted).map Prod.fst = sorted.map Prod.fst := by
  rw [cellsOf, List.map_map]
  rfl

theorem Nodes.node {heap : Heap (DiskInfo ν)} {a : Addr} {sorted : List (Addr × KStat)} {t : Addr × KStat}
    (hl : Nodes heap a (cellsOf x sorted)) (ht : t ∈ sorted) : ∃ d, heap.lookup t.1 = some d ∧ content d = x.nodeOf t.2 := by
  have hmem : (t.1, x.nodeOf t.2) ∈ cellsOf x sorted := List.mem_map_of_mem ht
  obtain ⟨xs, ys, hsplit⟩ := List.append_of_mem hmem
  rw [hsplit] at hl
  obtain ⟨-, d, hd, hcontent, -⟩ := hl.at_cell
  exact ⟨d, hd, hcontent⟩

theorem kscmp_content {d e : DiskInfo ν} {k k' : KStat} (hd : content d = x.nodeOf k) (he : content e = x.nodeOf k') :
    kscmp chars d e = some (x.order chars k k') := by
  rw [← kscmp_nodeOf, ← hd, ← he]
  rfl

theorem last_cell {cells : Cells ν} {e : Addr} (h : (cells.map Prod.fst).getLast? = some e) :
    ∃ front b, cells = front ++ [(e, b)] := by
  rw [List.getLast?_map] at h
  obtain ⟨⟨_, b⟩, hlast, rfl⟩ := Option.map_eq_some_iff.mp h
  obtain ⟨front, hfront⟩ := List.getLast?_eq_some_iff.mp hlast
  exact ⟨front, b, hfront⟩

theorem setNext_some {heap : Heap (DiskInfo ν)} {a b : Addr} {d : DiskInfo ν} (h : heap.lookup a = some d) :
    setNext heap a b = some (heap.insert a { d with next := b }) := by
  rw [setNext, h]
  rfl

section Insertion

variable {c : Cursor ν} {sorted : List (Addr × KStat)} {rest : Cells ν}

structure Sorting (x : Chain ν) (c : Cursor ν) (sorted : List (Addr × KStat)) (rest : Cells ν) : Prop where
  holds : Nodes c.heap zerodisk ((zerodisk, zeroed) :: (cellsOf x sorted ++ rest))
  last : (zerodisk :: sorted.map Prod.fst).getLast? = some c.disk
  nodes : ∀ a, a ∈ sorted.map Prod.fst ++ rest.map Prod.fst ↔ 2 ≤ a ∧ a < c.next
  fresh : 2 ≤ c.next

theorem takeNode_spec (h : Sorting x c sorted rest) :
    ∃ c' d rest', takeNode c = some c' ∧
      Nodes c'.heap zerodisk ((zerodisk, zeroed) :: (cellsOf x sorted ++ (c'.disk, d) :: rest')) ∧
      (∀ a, a ∈ sorted.map Prod.fst ++ c'.disk :: rest'.map Prod.fst ↔ 2 ≤ a ∧ a < c'.next) ∧ 2 ≤ c'.next ∧
      ∀ a ∈ (rest.map Prod.fst).head?, c'.disk = a := by
  have hlast : (((zerodisk, zeroed) :: cellsOf x sorted).map Prod.fst).getLast? = some c.disk := by
    rw [List.map_cons, fst_cellsOf]
    exact h.last
  obtain ⟨front, b, hfront⟩ := last_cell hlast
  have hholds : Nodes c.heap zerodisk (front ++ (c.disk, b) :: rest) := by
    have := h.holds
    rwa [← List.cons_append, hfront, List.append_assoc] at this
  obtain ⟨hdisk, v, hv, rfl, -, hrest⟩ := hholds.at_cell
  have hfresh := h.fresh
  cases rest with
  | nil =>
      have hnext : v.next = 0 := hrest.nil_iff.mp rfl
      have hout : c.next ∉ (front ++ [(c.disk, content v)]).map Prod.fst := by
        rw [← hfront, List.map_cons, fst_cellsOf]
        intro hin
        rcases List.mem_cons.mp hin with heq | hin
        · have hzero : 2 ≤ zerodisk := le_of_le_of_eq hfresh heq
          exact absurd hzero (by decide)
        · exact absurd ((h.nodes c.next).mp (List.mem_append_left _ hin)).2 (lt_irrefl _)
      have hne : c.disk ≠ c.next := fun heq => hout (heq ▸ mem_fst ..)
      have hkept : (c.heap.insert c.next zeroed).lookup c.disk = some v := by rw [AList.lookup_insert_ne hne, hv]
      refine ⟨⟨(c.heap.insert c.next zeroed).insert c.disk { v with next := c.next }, c.next + 1, c.next⟩, zeroed, [], ?_, ?_,
        fun a => ?_, Nat.le_succ_of_le hfresh, nofun⟩
      · rw [takeNode, hv, Option.bind_eq_bind, Option.bind_some, if_neg (not_not.mpr hnext), setNext_some hkept]
        rfl
      · rw [← List.cons_append, hfront]
        exact hholds.append (Nat.ne_of_gt (Nat.zero_lt_of_lt hfresh)) hout hv (w := { v with next := c.next }) rfl rfl (u := zeroed) rfl
      · have hold := h.nodes a
        rw [List.map_nil, List.append_nil] at hold
        rw [List.mem_append, hold, List.map_nil, List.mem_singleton]
        dsimp only [Addr] at *
        omega
  | cons t rest =>
      obtain ⟨a, d⟩ := t
      obtain ⟨hnext, ha, -⟩ := holds_cons.mp hrest
      refine ⟨⟨c.heap, c.next, a⟩, d, rest, ?_, h.holds, h.nodes, h.fresh, fun _ ha => Option.some.inj ha⟩
      rw [takeNode, hv, Option.bind_eq_bind, Option.bind_some, if_pos (hnext ▸ ha), hnext]

theorem priority_some {classPriority : Int} (h : priority ksp = some classPriority) :
    classPriority = 0 ∧ ksp.ksClass = ['d', 'i', 's', 'k'] := by
  unfold priority at h
  by_cases htype : ksp.ksType = kstatTypeIO
  · rw [if_neg (not_not.mpr htype)] at h
    cases hfind : ioClass.find? fun c => ksp.ksClass = c.1 with
    | none =>
        rw [hfind] at h
        cases h
    | some t =>
        rw [hfind] at h
        have hclass : ksp.ksClass = t.1 := of_decide_eq_true (List.find?_some hfind :)
        rcases List.mem_cons.mp (List.mem_of_find?_eq_some hfind) with rfl | hin
        · dsimp only at h
          split_ifs at h
          exact ⟨(Option.some.inj h).symm, hclass⟩
        · obtain rfl := List.mem_singleton.mp hin
          dsimp only at h
          rw [if_neg fun h => absurd h.1 (by decide), if_pos ⟨by decide, by decide, hclass⟩] at h
          cases h
  · rw [if_pos htype] at h
    cases h

theorem fillNode_spec {cells : Cells ν} {d : DiskInfo ν} {classPriority : Int} (hpriority : priority ksp = some classPriority)
    (h : Nodes c.heap zerodisk (cells ++ (c.disk, d) :: rest)) :
    ∃ heap, fillNode x ksp classPriority c = some { c with heap := heap } ∧
      Nodes heap zerodisk (cells ++ (c.disk, x.nodeOf ksp) :: rest) := by
  obtain ⟨-, v, hv, -, -, -⟩ := h.at_cell
  obtain ⟨rfl, hclass⟩ := priority_some hpriority
  have hnfs : ksp.ksClass ≠ "nfs".toList := by
    rw [hclass]
    decide
  refine ⟨c.heap.insert c.disk { v with ks := some ksp, deviceName := x.nameOf ksp, cls := 0 }, ?_, Holds.store h hv rfl⟩
  rw [fillNode, hv, Option.bind_eq_bind, Option.bind_some]
  dsimp only
  rw [if_pos hnfs]
  rfl

theorem search_step {heap : Heap (DiskInfo ν)} {a comp : Addr} {v d e : DiskInfo ν} {cmp : Int} (n : Nat)
    (hv : heap.lookup comp = some v) (hd : heap.lookup a = some d) (he : heap.lookup v.next = some e)
    (hcmp : kscmp chars d e = some cmp) :
    search chars heap a (n + 1) comp =
      if 0 < cmp then (search chars heap a n v.next).map fun t => (t.1, v.next :: t.2) else some (comp, [v.next]) := by
  simp only [search, hv, hd, he, hcmp, Option.bind_eq_bind, Option.bind_some, Option.map_eq_bind, Function.comp_def]

theorem search_spec (chars : ν → List Char) {heap : Heap (DiskInfo ν)} {a comp : Addr} {b : DiskInfo ν} {n : Nat}
    (h : Nodes heap comp ((comp, b) :: (cellsOf x sorted ++ (a, x.nodeOf ksp) :: rest))) (hn : sorted.length < n) :
    ∃ p q, sorted = p ++ q ∧ (∀ y ∈ p, 0 < x.order chars ksp y.2) ∧ (∀ y ys, q = y :: ys → x.order chars ksp y.2 ≤ 0) ∧
      search chars heap a n comp = some ((p.map Prod.fst).getLastD comp, p.map Prod.fst ++ [(q.map Prod.fst).headD a]) := by
  induction sorted generalizing comp b n with
  | nil =>
      obtain ⟨m, rfl⟩ : ∃ m, n = m + 1 := ⟨n - 1, by rw [List.length_nil] at hn; omega⟩
      obtain ⟨-, -, v, hv, -, ht⟩ := holds_cons.mp h
      obtain ⟨rfl, -, d, hd, hnode, -⟩ := holds_cons.mp ht
      refine ⟨[], [], rfl, List.forall_mem_nil _, fun _ _ h => absurd h.symm (List.cons_ne_nil _ _), ?_⟩
      rw [search_step m hv hd hd (kscmp_content hnode hnode), order_self]
      rfl
  | cons y sorted ih =>
      obtain ⟨m, rfl⟩ : ∃ m, n = m + 1 := ⟨n - 1, by rw [List.length_cons] at hn; omega⟩
      obtain ⟨y, k⟩ := y
      obtain ⟨-, -, v, hv, -, ht⟩ := holds_cons.mp h
      obtain ⟨rfl, -, e, he, hother, -⟩ := holds_cons.mp ht
      have hsplit : Nodes heap v.next (cellsOf x ((v.next, k) :: sorted) ++ (a, x.nodeOf ksp) :: rest) := ht
      obtain ⟨-, d, hd, hnode, -, -⟩ := hsplit.at_cell
      rw [search_step m hv hd he (kscmp_content hnode hother)]
      by_cases hcmp : 0 < x.order chars ksp k
      · obtain ⟨p, q, rfl, hp, hq, hrun⟩ := ih (n := m) ht (Nat.lt_of_succ_lt_succ hn)
        refine ⟨(v.next, k) :: p, q, rfl, List.forall_mem_cons.mpr ⟨hcmp, hp⟩, hq, ?_⟩
        rw [if_pos hcmp, hrun, List.map_cons, List.getLastD_cons]
        rfl
      · refine ⟨[], (v.next, k) :: sorted, rfl, List.forall_mem_nil _, ?_, ?_⟩
        · rintro _ _ ⟨rfl, rfl⟩
          exact not_lt.mp hcmp
        · rw [if_neg hcmp]
          rfl

theorem moveNode_spec {xs ys zs : Cells ν} {comp prevdisk : Addr} {b y z : DiskInfo ν}
    (h : Nodes c.heap zerodisk (xs ++ (comp, b) :: (ys ++ (prevdisk, y) :: (c.disk, z) :: zs))) :
    ∃ heap, moveNode prevdisk comp c = some ⟨heap, c.next, prevdisk⟩ ∧
      Nodes heap zerodisk (xs ++ (comp, b) :: (c.disk, z) :: (ys ++ (prevdisk, y) :: zs)) := by
  have hnodup := h.nodup
  simp only [List.map_append, List.map_cons, List.nodup_append, List.nodup_cons, List.mem_cons, List.mem_append,
    not_or] at hnodup
  obtain ⟨-, ⟨⟨-, hce, hcd, -⟩, -, ⟨⟨hed, -⟩, -⟩, -⟩, -⟩ := hnodup
  obtain ⟨-, vc, hvc, hb, -, hrest⟩ := h.at_cell
  obtain ⟨-, ve, hve, hy, -, hrest'⟩ := hrest.at_cell
  obtain ⟨-, -, vd, hvd, hz, -⟩ := holds_cons.mp hrest'
  let heap₁ := c.heap.insert prevdisk { ve with next := vd.next }
  let heap₂ := heap₁.insert c.disk { vd with next := vc.next }
  let heap₃ := heap₂.insert comp { vc with next := c.disk }
  have hvc₁ : heap₁.lookup comp = some vc := by rw [AList.lookup_insert_ne hce, hvc]
  have hvd₁ : heap₁.lookup c.disk = some vd := by rw [AList.lookup_insert_ne (Ne.symm hed), hvd]
  have hvc₂ : heap₂.lookup comp = some vc := by rw [AList.lookup_insert_ne hcd, hvc₁]
  refine ⟨heap₃, ?_, ?_⟩
  · simp only [moveNode, if_pos (Ne.symm hce), hvd, setNext_some hve, hvc₁, setNext_some hvd₁, setNext_some hvc₂,
      Option.bind_eq_bind, Option.bind_some, heap₁, heap₂, heap₃]
  · have hwd : heap₃.lookup c.disk = some { vd with next := vc.next } := by
      rw [AList.lookup_insert_ne (Ne.symm hcd), AList.lookup_insert]
    have hwe : heap₃.lookup prevdisk = some { ve with next := vd.next } := by
      rw [AList.lookup_insert_ne (Ne.symm hce), AList.lookup_insert_ne hed, AList.lookup_insert]
    refine Holds.move h hvc hvd (AList.lookup_insert _) ⟨hb, rfl⟩ hwd ⟨hz, rfl⟩ hwe ⟨hy, rfl⟩ fun k hkc hkd hke => ?_
    rw [AList.lookup_insert_ne hkc, AList.lookup_insert_ne hkd, AList.lookup_insert_ne hke]

structure Inserted (chars : ν → List Char) (x : Chain ν) (ksp : KStat) (sorted sorted' : List (Addr × KStat)) (r : Search) : Prop where
  split : ∃ p q, sorted = p ++ q ∧ sorted' = p ++ (r.disk, ksp) :: q ∧ (∀ y ∈ p, 0 < x.order chars ksp y.2) ∧
    ∀ y ys, q = y :: ys → x.order chars ksp y.2 ≤ 0
  compared : ∃ p, p ⊆ sorted.map Prod.fst ∧ (r.compared = p ∨ r.compared = p ++ [r.disk])
  new : r.disk ∉ sorted.map Prod.fst

theorem addDisk_spec {classPriority : Int} (searches : List Search) (hpriority : priority ksp = some classPriority)
    (h : Sorting x c sorted rest) :
    ∃ c' r sorted' rest', addDisk chars x (c, searches) ksp = some (c', searches ++ [r]) ∧ Sorting x c' sorted' rest' ∧
      Inserted chars x ksp sorted sorted' r ∧ ∀ a ∈ (rest.map Prod.fst).head?, r.disk = a := by
  obtain ⟨c₁, d, rest', htake, hheld, hnodes, hfresh, hfront⟩ := takeNode_spec h
  obtain ⟨heap, hfill, hfilled⟩ := fillNode_spec (x := x) hpriority ((List.cons_append ..) ▸ hheld)
  have hlen : sorted.length < heap.keys.length + 1 := by
    have hle := hfilled.length_le
    simp only [List.length_append, List.length_cons, cellsOf, List.length_map] at hle
    omega
  obtain ⟨p, q, rfl, hp, hq, hsearch⟩ := search_spec chars hfilled hlen
  have hnew : c₁.disk ∉ (p ++ q).map Prod.fst := by
    have hnodup := hheld.nodup
    rw [List.map_cons] at hnodup
    have := (nodup_split (List.nodup_cons.mp hnodup).2).1
    rwa [fst_cellsOf] at this
  have hcompared : ∃ p' ⊆ (p ++ q).map Prod.fst,
      p.map Prod.fst ++ [(q.map Prod.fst).headD c₁.disk] = p' ∨
        p.map Prod.fst ++ [(q.map Prod.fst).headD c₁.disk] = p' ++ [c₁.disk] := by
    rw [List.map_append]
    cases q with
    | nil => exact ⟨p.map Prod.fst, List.subset_append_left _ _, .inr rfl⟩
    | cons y q =>
        refine ⟨p.map Prod.fst ++ [y.1], List.append_subset.mpr ⟨List.subset_append_left _ _, ?_⟩, .inl rfl⟩
        exact List.cons_subset.mpr ⟨List.mem_append_right _ (List.mem_cons_self ..), List.nil_subset _⟩
  have hrun (c' : Cursor ν) (hmove : moveNode c.disk ((p.map Prod.fst).getLastD zerodisk) { c₁ with heap := heap } = some c') :
      addDisk chars x (c, searches) ksp =
        some (c', searches ++ [⟨c₁.disk, p.map Prod.fst ++ [(q.map Prod.fst).headD c₁.disk]⟩]) := by
    simp only [addDisk, hpriority, htake, hfill, hsearch, hmove, Option.bind_eq_bind, Option.bind_some]
  have hnodes' (a : Addr) : a ∈ (p ++ (c₁.disk, ksp) :: q).map Prod.fst ++ rest'.map Prod.fst ↔ 2 ≤ a ∧ a < c₁.next := by
    rw [← hnodes a]
    simp only [List.map_append, List.map_cons, List.mem_append, List.mem_cons]
    tauto
  have hlast := h.last
  rw [List.getLast?_cons, ← List.getLastD_eq_getLast?] at hlast
  rcases List.eq_nil_or_concat' q with rfl | ⟨q', y, rfl⟩
  · rw [List.append_nil] at hlast hfilled
    have hcomp : (p.map Prod.fst).getLastD zerodisk = c.disk := Option.some.inj hlast
    refine ⟨_, _, p ++ [(c₁.disk, ksp)], rest', hrun { c₁ with heap := heap } ?_, ⟨?_, ?_, hnodes', hfresh⟩,
      ⟨⟨p, [], rfl, rfl, hp, hq⟩, hcompared, hnew⟩, hfront⟩
    · rw [moveNode, hcomp, if_neg (not_not.mpr rfl)]
    · rw [cellsOf, List.map_append, List.append_assoc]
      exact hfilled
    · rw [List.map_append, ← List.cons_append]
      exact List.getLast?_concat
  · obtain ⟨e, k⟩ := y
    obtain rfl : e = c.disk := by
      rw [← List.append_assoc, List.map_append, List.getLastD_eq_getLast?, List.map_singleton, List.getLast?_concat] at hlast
      exact Option.some.inj hlast
    obtain ⟨front, b, hsplit⟩ : ∃ front b, (zerodisk, zeroed) :: cellsOf x p = front ++ [((p.map Prod.fst).getLastD zerodisk, b)] := by
      refine last_cell ?_
      rw [List.map_cons, fst_cellsOf, List.getLast?_cons, ← List.getLastD_eq_getLast?]
    have hshape (cells : Cells ν) : (zerodisk, zeroed) :: (cellsOf x p ++ cells) =
        front ++ ((p.map Prod.fst).getLastD zerodisk, b) :: cells := by
      rw [← List.cons_append, hsplit, List.append_assoc]
      rfl
    have hcells : Nodes heap zerodisk (front ++ ((p.map Prod.fst).getLastD zerodisk, b) ::
        (cellsOf x q' ++ (c.disk, x.nodeOf k) :: (c₁.disk, x.nodeOf ksp) :: rest')) := by
      rw [← hshape]
      simpa only [cellsOf, List.map_append, List.map_cons, List.map_nil, List.append_assoc, List.cons_append,
        List.nil_append] using hfilled
    obtain ⟨heap', hmove, hmoved⟩ := moveNode_spec (c := { c₁ with heap := heap }) hcells
    refine ⟨_, _, p ++ (c₁.disk, ksp) :: (q' ++ [(c.disk, k)]), rest', hrun _ hmove, ⟨?_, ?_, hnodes', hfresh⟩,
      ⟨⟨p, _, rfl, rfl, hp, hq⟩, hcompared, hnew⟩, hfront⟩
    · rw [← hshape] at hmoved
      simpa only [cellsOf, List.map_append, List.map_cons, List.map_nil, List.append_assoc, List.cons_append,
        List.nil_append] using hmoved
    · simp only [List.map_append, List.map_cons, List.map_nil]
      rw [← List.cons_append, ← List.cons_append, ← List.append_assoc]
      exact List.getLast?_concat

end Insertion

section Chains

variable {c : Cursor ν} {sorted sorted' : List (Addr × KStat)} {rest : Cells ν} {r : Search}

/-- The kstats that get a node. -/
def accepted (kcChain : List KStat) : List KStat := kcChain.filter fun ksp => (priority ksp).isSome

def Ordered (chars : ν → List Char) (x : Chain ν) (kstats : List KStat) : Prop :=
  kstats.IsChain fun k k' => x.order chars k k' ≤ 0

/-- A search ends before it passes the node that is inserted. -/
def Search.Stops (r : Search) : Prop := ∃ p, r.disk ∉ p ∧ (r.compared = p ∨ r.compared = p ++ [r.disk])

theorem Inserted.ordered (h : Inserted chars x ksp sorted sorted' r) (hordered : Ordered chars x (sorted.map Prod.snd)) :
    Ordered chars x (sorted'.map Prod.snd) := by
  obtain ⟨p, q, rfl, rfl, hp, hq⟩ := h.split
  unfold Ordered at *
  rw [List.map_append] at *
  obtain ⟨hleft, hright, -⟩ := List.isChain_append.mp hordered
  refine List.isChain_append.mpr ⟨hleft, List.isChain_cons.mpr ⟨?_, hright⟩, ?_⟩
  · cases q with
    | nil =>
        intro _ h
        cases h
    | cons y q =>
        rintro _ ⟨rfl⟩
        exact hq y q rfl
  · rintro k hk _ ⟨rfl⟩
    obtain ⟨y, hy, rfl⟩ := List.mem_map.mp (List.mem_of_mem_getLast? hk)
    exact (order_swap (hp y hy)).le

theorem Inserted.perm (h : Inserted chars x ksp sorted sorted' r) : (sorted'.map Prod.snd).Perm (sorted.map Prod.snd ++ [ksp]) := by
  obtain ⟨p, q, rfl, rfl, -⟩ := h.split
  rw [List.map_append, List.map_append, List.map_cons]
  exact List.perm_middle.trans (List.perm_append_singleton ..).symm

theorem Inserted.stops (h : Inserted chars x ksp sorted sorted' r) : Search.Stops r := by
  obtain ⟨p, hp, hcompared⟩ := h.compared
  exact ⟨p, fun hin => h.new (hp hin), hcompared⟩

def Lead (chars : ν → List Char) (x : Chain ν) (kstats : List KStat) : Prop :=
  ∀ k ks, kstats = k :: ks → ∀ k' ∈ ks, 0 < x.order chars k' k

theorem Lead.of_perm {l l' : List KStat} (h : Lead chars x l) (hperm : l'.Perm l) (hhead : l'.head? = l.head?) : Lead chars x l' := by
  rintro k ks rfl k' hk'
  cases l with
  | nil => cases hhead
  | cons k₁ l =>
      obtain rfl : k = k₁ := Option.some.inj hhead
      exact h k l rfl k' (hperm.cons_inv.mem_iff.mp hk')

theorem Inserted.head (h : Inserted chars x ksp sorted sorted' r) (hlead : Lead chars x (sorted.map Prod.snd ++ [ksp])) :
    sorted'.head? = (sorted ++ [(r.disk, ksp)]).head? := by
  obtain ⟨p, q, rfl, rfl, -, hq⟩ := h.split
  cases p with
  | cons y p => rfl
  | nil =>
      cases q with
      | nil => rfl
      | cons y q =>
          have hlt := hlead y.2 _ rfl ksp (List.mem_append_right _ (List.mem_singleton_self ksp))
          exact absurd hlt (not_lt.mpr (hq y q rfl))

theorem Lead.take {l : List KStat} (l' : List KStat) (h : Lead chars x (l ++ l')) : Lead chars x l := by
  rintro k ks rfl k' hk'
  exact h k (ks ++ l') rfl k' (List.mem_append_left _ hk')

theorem addDisks_spec (kcChain : List KStat) (searches : List Search) (h : Sorting x c sorted rest)
    (hordered : Ordered chars x (sorted.map Prod.snd)) :
    ∃ c' searches' sorted' rest', kcChain.foldlM (addDisk chars x) (c, searches) = some (c', searches ++ searches') ∧
      Sorting x c' sorted' rest' ∧ Ordered chars x (sorted'.map Prod.snd) ∧
      (sorted'.map Prod.snd).Perm (sorted.map Prod.snd ++ accepted kcChain) ∧ (∀ r ∈ searches', Search.Stops r) ∧
      (Lead chars x (sorted.map Prod.snd ++ accepted kcChain) → ∀ a, (sorted.map Prod.fst ++ rest.map Prod.fst).head? = some a →
        (sorted'.map Prod.fst ++ rest'.map Prod.fst).head? = some a) := by
  induction kcChain generalizing c searches sorted rest with
  | nil =>
      exact ⟨c, [], sorted, rest, by rw [List.append_nil]; rfl, h, hordered, .of_eq (List.append_nil _).symm, nofun,
        fun _ _ ha => ha⟩
  | cons ksp kcChain ih =>
      cases hpriority : priority ksp with
      | none =>
          obtain ⟨c', searches', sorted', rest', hrun, hrest⟩ := ih searches h hordered
          refine ⟨c', searches', sorted', rest', ?_, ?_⟩
          · rw [List.foldlM_cons, addDisk, hpriority]
            exact hrun
          · rwa [accepted, List.filter_cons_of_neg (by rw [hpriority]; exact nofun)]
      | some classPriority =>
          obtain ⟨c₁, r, sorted₁, rest₁, hadd, hsorting, hinserted, hfront⟩ := addDisk_spec searches hpriority h
          obtain ⟨c', searches', sorted', rest', hrun, hsorting', hordered', hperm, hstops, hlead⟩ :=
            ih (searches ++ [r]) hsorting (hinserted.ordered hordered)
          have haccepted : accepted (ksp :: kcChain) = ksp :: accepted kcChain :=
            List.filter_cons_of_pos (by rw [hpriority]; rfl)
          have hperm₁ : (sorted₁.map Prod.snd ++ accepted kcChain).Perm (sorted.map Prod.snd ++ ksp :: accepted kcChain) := by
            rw [← List.singleton_append, ← List.append_assoc]
            exact hinserted.perm.append_right _
          rw [haccepted]
          refine ⟨c', r :: searches', sorted', rest', ?_, hsorting', hordered', hperm.trans hperm₁,
            List.forall_mem_cons.mpr ⟨hinserted.stops, hstops⟩, fun hlead' a ha => ?_⟩
          · rw [List.foldlM_cons, hadd, Option.bind_eq_bind, Option.bind_some, hrun, List.append_assoc]
            rfl
          · have hhead := hinserted.head (Lead.take (accepted kcChain) (by rwa [List.append_assoc]))
            refine hlead (hlead'.of_perm hperm₁ ?_) a ?_
            · rw [List.head?_append, List.head?_map, hhead, ← List.head?_map, List.map_append, List.head?_append, List.head?_append]
              cases (sorted.map Prod.snd).head? with
              | none => rfl
              | some k => rfl
            · rw [List.head?_append, List.head?_map, hhead, ← List.head?_map, List.map_append, List.head?_append]
              rw [List.head?_append] at ha
              cases hs : (sorted.map Prod.fst).head? with
              | none =>
                  rw [hs] at ha
                  exact congrArg some (hfront a ha)
              | some b =>
                  rw [hs] at ha
                  exact ha

end Chains

section Selection

variable {heap : Heap (DiskInfo ν)} {a : Addr} {cells : Cells ν}

def SameNodes (heap heap' : Heap (DiskInfo ν)) : Prop :=
  ∀ b d, heap.lookup b = some d → ∃ selected, heap'.lookup b = some { d with selected := selected }

theorem SameNodes.refl (heap : Heap (DiskInfo ν)) : SameNodes heap heap := fun _ d h => ⟨d.selected, h⟩

theorem SameNodes.trans {heap' heap'' : Heap (DiskInfo ν)} (h : SameNodes heap heap') (h' : SameNodes heap' heap'') :
    SameNodes heap heap'' := by
  intro b d hd
  obtain ⟨_, hd'⟩ := h b d hd
  obtain ⟨selected, hd''⟩ := h' b _ hd'
  exact ⟨selected, hd''⟩

theorem SameNodes.insert {d : DiskInfo ν} (hd : heap.lookup a = some d) (selected : Bool) :
    SameNodes heap (heap.insert a { d with selected := selected }) := by
  intro b e he
  by_cases hb : b = a
  · subst hb
    obtain rfl := Option.some.inj (hd.symm.trans he)
    exact ⟨selected, AList.lookup_insert _⟩
  · exact ⟨e.selected, by rw [AList.lookup_insert_ne hb, he]⟩

theorem SameNodes.nodes {heap' : Heap (DiskInfo ν)} (h : SameNodes heap heap') (hl : Nodes heap a cells) : Nodes heap' a cells := by
  refine hl.relabel fun b _ d hd => ?_
  obtain ⟨selected, hd'⟩ := h b d hd
  exact ⟨_, hd', rfl, rfl⟩

theorem deselectFrom_spec {n : Nat} (hl : Nodes heap a cells) (hn : cells.length < n) :
    ∃ heap', deselectFrom n a heap = some heap' ∧ SameNodes heap heap' := by
  induction cells generalizing heap a n with
  | nil =>
      obtain ⟨m, rfl⟩ : ∃ m, n = m + 1 := ⟨n - 1, by rw [List.length_nil] at hn; omega⟩
      exact ⟨heap, by rw [deselectFrom, if_pos (hl.nil_iff.mp rfl)], .refl heap⟩
  | cons t cells ih =>
      obtain ⟨m, rfl⟩ : ∃ m, n = m + 1 := ⟨n - 1, by rw [List.length_cons] at hn; omega⟩
      obtain ⟨rfl, ha, d, hd, -, ht⟩ := holds_cons.mp hl
      have hsame := SameNodes.insert hd false
      obtain ⟨heap', hrun, hsame'⟩ := ih (hsame.nodes ht) (Nat.lt_of_succ_lt_succ hn)
      refine ⟨heap', ?_, hsame.trans hsame'⟩
      rw [deselectFrom, if_neg ha, hd]
      exact hrun

theorem selectFrom_spec {n : Nat} (ndrives : Nat) (hl : Nodes heap a cells) (hn : cells.length < n) :
    ∃ heap', selectFrom n a ndrives heap = some heap' ∧ SameNodes heap heap' ∧
      (∀ b ∉ cells.map Prod.fst, heap'.lookup b = heap.lookup b) ∧
      ∀ b ∈ cells.map Prod.fst, ∃ d, heap'.lookup b = some d ∧ d.selected = true := by
  induction cells generalizing heap a n ndrives with
  | nil =>
      obtain ⟨m, rfl⟩ : ∃ m, n = m + 1 := ⟨n - 1, by rw [List.length_nil] at hn; omega⟩
      exact ⟨heap, by rw [selectFrom, if_pos (hl.nil_iff.mp rfl)], .refl heap, fun _ _ => rfl, nofun⟩
  | cons t cells ih =>
      obtain ⟨m, rfl⟩ : ∃ m, n = m + 1 := ⟨n - 1, by rw [List.length_cons] at hn; omega⟩
      obtain ⟨hout, -⟩ := List.nodup_cons.mp hl.nodup
      obtain ⟨rfl, ha, d, hd, -, ht⟩ := holds_cons.mp hl
      obtain ⟨heap₁, ndrives₁, hstep, hsame, hothers, d', hd', hselected⟩ : ∃ heap₁ ndrives₁,
          selectFrom (m + 1) t.1 ndrives heap = selectFrom m d.next ndrives₁ heap₁ ∧ SameNodes heap heap₁ ∧
            (∀ b, b ≠ t.1 → heap₁.lookup b = heap.lookup b) ∧ ∃ d', heap₁.lookup t.1 = some d' ∧ d'.selected = true := by
        rw [selectFrom, if_neg ha, hd, Option.bind_eq_bind, Option.bind_some]
        by_cases hselected : d.selected = true
        · exact ⟨heap, ndrives, if_pos hselected, .refl heap, fun _ _ => rfl, d, hd, hselected⟩
        · refine ⟨_, ndrives + 1, ?_, SameNodes.insert hd true, fun b hb => AList.lookup_insert_ne hb, _, AList.lookup_insert _, rfl⟩
          rw [if_neg hselected, if_neg fun h => h.1 rfl]
      obtain ⟨heap', hrun, hsame', hothers', hall⟩ := ih ndrives₁ (hsame.nodes ht) (Nat.lt_of_succ_lt_succ hn)
      refine ⟨heap', by rw [hstep, hrun], hsame.trans hsame', fun b hb => ?_, List.forall_mem_cons.mpr ⟨⟨d', ?_, hselected⟩, hall⟩⟩
      · obtain ⟨hne, hrest⟩ := not_or.mp (mt List.mem_cons.mpr hb)
        rw [hothers' b hrest, hothers b hne]
      · rw [hothers' _ hout, hd']

theorem selectDisks_spec {s : IoState ν} (hl : Nodes s.heap s.firstdisk cells) :
    ∃ heap, selectDisks s = some { s with heap := heap } ∧ SameNodes s.heap heap ∧
      ∀ b ∈ cells.map Prod.fst, ∃ d, heap.lookup b = some d ∧ d.selected = true := by
  obtain ⟨heap₁, hdeselect, hsame⟩ := deselectFrom_spec hl (Nat.lt_succ_of_le hl.length_le)
  have hl₁ := hsame.nodes hl
  obtain ⟨heap₂, hselect, hsame', -, hall⟩ := selectFrom_spec 0 hl₁ (Nat.lt_succ_of_le hl₁.length_le)
  refine ⟨heap₂, ?_, hsame.trans hsame', hall⟩
  simp only [selectDisks, hdeselect, hselect, Option.bind_eq_bind, Option.bind_some]

end Selection

section Runs

variable {s : IoState ν} {list aside : Cells ν}

structure Kept (s : IoState ν) (list aside : Cells ν) : Prop where
  listed : Nodes s.heap zerodisk ((zerodisk, zeroed) :: list)
  first : ∃ z, s.heap.lookup zerodisk = some z ∧ z.next = s.firstdisk
  kept : Nodes s.heap s.snip aside
  last : aside ≠ [] → (zerodisk :: list.map Prod.fst).getLast? = some s.lastdisk
  apart : (list.map Prod.fst ++ aside.map Prod.fst).Nodup
  nodes : ∀ a, a ∈ list.map Prod.fst ++ aside.map Prod.fst ↔ 2 ≤ a ∧ a < s.next
  fresh : 2 ≤ s.next

theorem Kept.not_zerodisk (h : Kept s list aside) : zerodisk ∉ list.map Prod.fst ++ aside.map Prod.fst := by
  intro hin
  exact absurd ((h.nodes zerodisk).mp hin).1 (by decide)

theorem kept_start : Kept (start : IoState ν) [] [] := by
  have hzero : (start : IoState ν).heap.lookup zerodisk = some zeroed := AList.lookup_insert _
  refine ⟨holds_cons.mpr ⟨rfl, by decide, zeroed, hzero, rfl, .nil⟩, ⟨zeroed, hzero, rfl⟩, .nil, fun h => absurd rfl h,
    List.nodup_nil, fun a => iff_of_false (List.not_mem_nil) ?_, le_refl _⟩
  rintro ⟨hle, hlt⟩
  exact absurd hle (not_le.mpr hlt)

theorem Kept.current (h : Kept s list aside) : Nodes s.heap s.firstdisk list := by
  obtain ⟨z, hz, hfirst⟩ := h.first
  obtain ⟨-, -, z', hz', -, ht⟩ := holds_cons.mp h.listed
  obtain rfl := Option.some.inj (hz.symm.trans hz')
  rwa [hfirst] at ht

theorem Kept.clip (h : Kept s list aside) :
    ∃ heap, clipTail s = some heap ∧ Sorting x ⟨heap, s.next, zerodisk⟩ [] (list ++ aside) := by
  have hnodes (a : Addr) : a ∈ ([] : List (Addr × KStat)).map Prod.fst ++ (list ++ aside).map Prod.fst ↔ 2 ≤ a ∧ a < s.next := by
    rw [← h.nodes a, List.map_append]
    rfl
  by_cases hsnip : s.snip = 0
  · have hnil : aside = [] := h.kept.nil_iff.mpr hsnip
    refine ⟨s.heap, if_neg (not_not.mpr hsnip), ?_, rfl, hnodes, h.fresh⟩
    rw [hnil, List.append_nil]
    exact h.listed
  · have hlast : (((zerodisk, zeroed) :: list).map Prod.fst).getLast? = some s.lastdisk :=
      h.last (mt h.kept.nil_iff.mp hsnip)
    obtain ⟨front, b, hfront⟩ := last_cell hlast
    have hlisted := h.listed
    rw [hfront] at hlisted
    obtain ⟨-, v, hv, -⟩ := hlisted.at_cell
    have hout : s.lastdisk ∉ aside.map Prod.fst := by
      intro hin
      rcases List.mem_cons.mp (List.mem_of_getLast? hlast) with heq | hin'
      · rw [heq] at hin
        exact h.not_zerodisk (List.mem_append_right _ hin)
      · exact (List.nodup_append.mp h.apart).2.2 _ hin' _ hin rfl
    refine ⟨_, (if_pos hsnip).trans (setNext_some hv), ?_, rfl, hnodes, h.fresh⟩
    have hattached := hlisted.attach (w := ({ v with next := s.snip } : DiskInfo ν)) hv rfl h.kept hout
    rw [← List.singleton_append, ← List.append_assoc, ← hfront] at hattached
    exact hattached

theorem initDisks_spec (chars : ν → List Char) (x : Chain ν) (h : Kept s list aside) :
    ∃ s' searches sorted aside', initDisks chars x s = some (s', searches) ∧ Kept s' (cellsOf x sorted) aside' ∧
      (zerodisk :: sorted.map Prod.fst).getLast? = some s'.lastdisk ∧ Ordered chars x (sorted.map Prod.snd) ∧
      (sorted.map Prod.snd).Perm (accepted x.kcChain) ∧ (∀ r ∈ searches, Search.Stops r) ∧
      (Lead chars x (accepted x.kcChain) → ∀ a, (list.map Prod.fst ++ aside.map Prod.fst).head? = some a →
        (sorted.map Prod.fst ++ aside'.map Prod.fst).head? = some a) ∧
      (∀ a ∈ sorted.map Prod.fst, ∃ d, s'.heap.lookup a = some d ∧ d.selected = true) ∧
      s'.refreshDiskdetail = true ∧ s'.refreshDisksrv = true := by
  obtain ⟨heap, hclip, hsorting⟩ := h.clip (x := x)
  obtain ⟨c, searches, sorted, rest, hrun, hsorting, hordered, hperm, hstops, hlead⟩ :=
    addDisks_spec x.kcChain [] hsorting (List.isChain_nil (R := fun k k' => x.order chars k k' ≤ 0))
  have hlast : (((zerodisk, zeroed) :: cellsOf x sorted).map Prod.fst).getLast? = some c.disk := by
    rw [List.map_cons, fst_cellsOf]
    exact hsorting.last
  obtain ⟨front, b, hfront⟩ := last_cell hlast
  have hholds := hsorting.holds
  rw [← List.cons_append, hfront, List.append_assoc] at hholds
  obtain ⟨-, d, hd, -⟩ := hholds.at_cell
  obtain ⟨hlisted, hkept⟩ := hholds.cut (w := ({ d with next := 0 } : DiskInfo ν)) hd rfl rfl
  rw [← hfront] at hlisted
  obtain ⟨-, -, z, hz, -, hfirst⟩ := holds_cons.mp hlisted
  obtain ⟨heap', hselect, hsame, hselected⟩ :=
    selectDisks_spec (s := ⟨c.heap.insert c.disk { d with next := 0 }, c.next, z.next, c.disk, d.next, true, true⟩) hfirst
  have hnodup := hsorting.holds.nodup
  rw [List.map_cons, List.map_append, fst_cellsOf] at hnodup
  refine ⟨⟨heap', c.next, z.next, c.disk, d.next, true, true⟩, searches, sorted, rest, ?_, ⟨hsame.nodes hlisted, ?_, hsame.nodes hkept,
    fun _ => hlast, ?_, ?_, hsorting.fresh⟩, hsorting.last, hordered, hperm, hstops, ?_, ?_, rfl, rfl⟩
  · rw [initDisks, hclip, Option.bind_eq_bind, Option.bind_some, hrun]
    simp only [hd, hz, hselect, Option.bind_eq_bind, Option.bind_some, List.nil_append]
  · obtain ⟨selected, hz'⟩ := hsame zerodisk z hz
    exact ⟨_, hz', rfl⟩
  · rw [fst_cellsOf]
    exact (List.nodup_cons.mp hnodup).2
  · rw [fst_cellsOf]
    exact hsorting.nodes
  · rwa [List.map_append] at hlead
  · rw [← fst_cellsOf x]
    exact hselected

def initRuns (chars : ν → List Char) (xs : List (Chain ν)) : Option (IoState ν × List Search) :=
  xs.foldlM (fun t x => (initDisks chars x t.1).map fun u => (u.1, t.2 ++ u.2)) (start, [])

structure Current (chars : ν → List Char) (x : Chain ν) (s : IoState ν) (sorted : List (Addr × KStat)) : Prop where
  last : (zerodisk :: sorted.map Prod.fst).getLast? = some s.lastdisk
  ordered : Ordered chars x (sorted.map Prod.snd)
  kstats : (sorted.map Prod.snd).Perm (accepted x.kcChain)

theorem initRuns_spec (chars : ν → List Char) (xs : List (Chain ν)) :
    ∃ s searches list aside, initRuns chars xs = some (s, searches) ∧ Kept s list aside ∧ (∀ r ∈ searches, Search.Stops r) ∧
      ∀ x, xs.getLast? = some x → ∃ sorted, list = cellsOf x sorted ∧ Current chars x s sorted := by
  induction xs using List.reverseRecOn with
  | nil => exact ⟨start, [], [], [], rfl, kept_start, nofun, nofun⟩
  | append_singleton xs x ih =>
      obtain ⟨s, searches, list, aside, hrun, hkept, hstops, -⟩ := ih
      obtain ⟨s', searches', sorted, aside', hinit, hkept', hlast, hordered, hperm, hstops', -⟩ := initDisks_spec chars x hkept
      refine ⟨s', searches ++ searches', cellsOf x sorted, aside', ?_, hkept', List.forall_mem_append.mpr ⟨hstops, hstops'⟩, ?_⟩
      · have hstep : initRuns chars (xs ++ [x]) =
            (initRuns chars xs).bind fun t => (initDisks chars x t.1).map fun u => (u.1, t.2 ++ u.2) := by
          simp only [initRuns, List.foldlM_append, List.foldlM_cons, List.foldlM_nil, bind_pure]
          rfl
        rw [hstep, hrun, Option.bind_some, hinit]
        rfl
      · intro y hy
        rw [List.getLast?_concat] at hy
        obtain rfl := Option.some.inj hy
        exact ⟨sorted, rfl, hlast, hordered, hperm⟩

end Runs

section Lists

variable {s : IoState ν} {sorted : List (Addr × KStat)} {aside : Cells ν}

def Distinct (kcChain : List KStat) : Prop :=
  ((accepted kcChain).map fun k => (k.ksClass, k.ksModule, k.ksInstance)).Nodup

/-- kscmp() for two nodes gives a number of this kind. -/
def Compares (chars : ν → List Char) (heap : Heap (DiskInfo ν)) (ok : Int → Prop) (a b : Addr) : Prop :=
  ∃ d e cmp, heap.lookup a = some d ∧ heap.lookup b = some e ∧ kscmp chars d e = some cmp ∧ ok cmp

/-- The list from firstdisk to lastdisk has a node for each kstat, sorted, and every node that has ever
been allocated stands in the list or in what is set aside. The differences of the instances may
overflow, so that kscmp() need not be transitive. -/
structure Listed (chars : ν → List Char) (kcChain : List KStat) (s : IoState ν) (list aside : List Addr) : Prop where
  chain : IsChain (linkOf DiskInfo.next s.heap) s.firstdisk list
  kept : IsChain (linkOf DiskInfo.next s.heap) s.snip aside
  ending : (zerodisk :: list).getLast? = some s.lastdisk
  once : (list ++ aside).Nodup
  allocated : ∀ a, a ∈ list ++ aside ↔ 2 ≤ a ∧ a < s.next
  kstats : (list.map fun a => (s.heap.lookup a).bind DiskInfo.ks).Perm ((accepted kcChain).map some)
  sorted : list.IsChain (Compares chars s.heap (· ≤ 0))
  strict : Distinct kcChain → list.IsChain (Compares chars s.heap (· < 0))
  total : Distinct kcChain → (∀ k ∈ accepted kcChain, ∀ k' ∈ accepted kcChain, Fits k k') →
    list.Pairwise (Compares chars s.heap (· < 0))

theorem compares_of_nodes {ok : Int → Prop} (hl : Nodes s.heap s.firstdisk (cellsOf x sorted)) {t u : Addr × KStat}
    (ht : t ∈ sorted) (hu : u ∈ sorted) (hok : ok (x.order chars t.2 u.2)) : Compares chars s.heap ok t.1 u.1 := by
  obtain ⟨d, hd, hcontent⟩ := hl.node ht
  obtain ⟨e, he, hcontent'⟩ := hl.node hu
  exact ⟨d, e, _, hd, he, kscmp_content hcontent hcontent', hok⟩

theorem differ_of_distinct {kcChain : List KStat} (h : Distinct kcChain) : (accepted kcChain).Pairwise Differ := by
  have hclass : ∀ k ∈ accepted kcChain, k.ksClass = ['d', 'i', 's', 'k'] := by
    intro k hk
    obtain ⟨classPriority, hpriority⟩ := Option.isSome_iff_exists.mp (List.mem_filter.mp hk).2
    exact (priority_some hpriority).2
  refine (List.pairwise_map.mp h).imp_of_mem fun {k k'} hk hk' hne => ?_
  by_contra hsame
  obtain ⟨hmodule, hinstance⟩ := not_or.mp hsame
  refine hne (Prod.ext ((hclass k hk).trans (hclass k' hk').symm) (Prod.ext (not_not.mp hmodule) (not_not.mp hinstance)))

theorem differ_comm {k k' : KStat} (h : Differ k k') : Differ k' k := h.imp Ne.symm Ne.symm

theorem isChain_and {α : Type} {R S : α → α → Prop} {l : List α} (hR : l.IsChain R) (hS : l.IsChain S) :
    l.IsChain fun a b => R a b ∧ S a b := by
  induction l with
  | nil => exact .nil
  | cons a l ih =>
      obtain ⟨hR', hR⟩ := List.isChain_cons.mp hR
      obtain ⟨hS', hS⟩ := List.isChain_cons.mp hS
      exact List.isChain_cons.mpr ⟨fun b hb => ⟨hR' b hb, hS' b hb⟩, ih hR hS⟩

theorem Current.listed (h : Current chars x s sorted) (hkept : Kept s (cellsOf x sorted) aside) :
    Listed chars x.kcChain s (sorted.map Prod.fst) (aside.map Prod.fst) := by
  have hlist := hkept.current
  have hdiffer (hdistinct : Distinct x.kcChain) : (sorted.map Prod.snd).Pairwise Differ :=
    (differ_of_distinct hdistinct).perm h.kstats.symm differ_comm
  have hstrict (hdistinct : Distinct x.kcChain) : (sorted.map Prod.snd).IsChain fun k k' => x.order chars k k' < 0 ∧ Differ k k' :=
    (isChain_and h.ordered (hdiffer hdistinct).isChain).imp fun k k' hk =>
      ⟨lt_of_le_of_ne hk.1 (order_ne_zero hk.2), hk.2⟩
  have hchains {ok : Int → Prop} (hok : (sorted.map Prod.snd).IsChain fun k k' => ok (x.order chars k k')) :
      (sorted.map Prod.fst).IsChain (Compares chars s.heap ok) := by
    refine (List.isChain_map Prod.fst).mpr (((List.isChain_map Prod.snd).mp hok).imp_of_mem_imp fun t u ht hu htu => ?_)
    exact compares_of_nodes hlist ht hu htu
  have hfst := fst_cellsOf x sorted
  refine ⟨?_, ?_, h.last, ?_, ?_, ?_, hchains h.ordered, fun hdistinct => hchains ((hstrict hdistinct).imp fun _ _ hk => hk.1),
    fun hdistinct hfits => ?_⟩
  · rw [← hfst]
    exact hlist.chain
  · exact hkept.kept.chain
  · rw [← hfst]
    exact hkept.apart
  · rw [← hfst]
    exact hkept.nodes
  · refine List.Perm.trans (.of_eq ?_) (h.kstats.map some)
    rw [List.map_map, List.map_map]
    refine List.map_congr_left fun t ht => ?_
    obtain ⟨d, hd, hcontent⟩ := hlist.node ht
    have hks : d.ks = some t.2 := congrArg DiskInfo.ks hcontent
    rw [Function.comp_apply, Function.comp_apply, hd, Option.bind_some, hks]
  · have hless : (sorted.map Prod.snd).IsChain Less := by
      refine (hstrict hdistinct).imp_of_mem_imp fun k k' hk hk' horder => ?_
      exact (order_fits (hfits k (h.kstats.mem_iff.mp hk) k' (h.kstats.mem_iff.mp hk')) horder.2).mp horder.1
    have htrans : Trans Less Less Less := ⟨Less.trans⟩
    have hboth := List.Pairwise.and (List.isChain_iff_pairwise.mp hless) (hdiffer hdistinct)
    refine List.pairwise_map.mpr ((List.pairwise_map.mp hboth).imp_of_mem fun {t u} ht hu htu => ?_)
    have ht' := h.kstats.mem_iff.mp (List.mem_map_of_mem ht)
    have hu' := h.kstats.mem_iff.mp (List.mem_map_of_mem hu)
    exact compares_of_nodes hlist ht hu ((order_fits (hfits _ ht' _ hu') htu.2).mpr htu.1)

end Lists

end OiUserland.HealthMonitor.DiskLists
