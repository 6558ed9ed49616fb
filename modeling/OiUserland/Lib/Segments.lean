import OiUserland.Lib.Chains

namespace OiUserland.Lib.Contents

open Chains

variable {α β : Type}

inductive Seg (link : α → Nat) (data : α → β) (h : Heap α) : Nat → List (Nat × β) → Nat → Prop
  | nil {a : Nat} : Seg link data h a [] a
  | cons {a b : Nat} {v : α} {cells : List (Nat × β)} (ha : a ≠ 0) (hv : h.lookup a = some v)
      (ht : Seg link data h (link v) cells b) : Seg link data h a ((a, data v) :: cells) b

variable {link : α → Nat} {data : α → β} {h h' : Heap α} {a b c d e : Nat} {v w : α} {x y z : β}
  {xs ys zs : List (Nat × β)}

theorem Seg.congr (hs : Seg link data h a xs b) (hsame : ∀ c ∈ xs.map Prod.fst, h'.lookup c = h.lookup c) :
    Seg link data h' a xs b := by
  induction hs with
  | nil => exact .nil
  | cons ha hv _ ih =>
      refine .cons ha ?_ (ih fun c hc => hsame c (List.mem_cons_of_mem _ hc))
      rw [hsame _ (List.mem_cons_self ..), hv]

theorem holds_append : Holds link data h a (xs ++ ys) ↔ ∃ m, Seg link data h a xs m ∧ Holds link data h m ys := by
  constructor
  · intro hl
    induction xs generalizing a with
    | nil => exact ⟨a, .nil, hl⟩
    | cons x xs ih =>
        obtain ⟨c, x⟩ := x
        obtain ⟨rfl, v, hv, rfl, ht⟩ := hl.head
        obtain ⟨m, hseg, hrest⟩ := ih ht
        exact ⟨m, .cons hl.ne_zero hv hseg, hrest⟩
  · rintro ⟨m, hseg, hrest⟩
    induction hseg with
    | nil => exact hrest
    | cons ha hv _ ih => exact .cons ha hv (ih hrest)

theorem holds_cons : Holds link data h a ((c, x) :: xs) ↔
    a = c ∧ c ≠ 0 ∧ ∃ v, h.lookup c = some v ∧ data v = x ∧ Holds link data h (link v) xs := by
  constructor
  · intro hl
    obtain ⟨rfl, hv⟩ := hl.head
    exact ⟨rfl, hl.ne_zero, hv⟩
  · rintro ⟨rfl, hc, v, hv, rfl, ht⟩
    exact .cons hc hv ht

theorem Holds.nil_iff (hl : Holds link data h a xs) : xs = [] ↔ a = 0 := by
  constructor
  · rintro rfl
    cases hl
    rfl
  · rintro rfl
    exact hl.zero

theorem mem_fst (c : Nat) (x : β) (xs ys : List (Nat × β)) : c ∈ (xs ++ (c, x) :: ys).map Prod.fst := by
  rw [List.map_append, List.map_cons]
  exact List.mem_append_right _ (List.mem_cons_self ..)

theorem nodup_split (hn : ((xs ++ (c, x) :: ys).map Prod.fst).Nodup) :
    c ∉ xs.map Prod.fst ∧ c ∉ ys.map Prod.fst := by
  rw [List.map_append, List.map_cons, List.nodup_append] at hn
  exact ⟨fun hc => hn.2.2 c hc c (List.mem_cons_self ..) rfl, (List.nodup_cons.mp hn.2.1).1⟩

theorem Holds.at_cell (hl : Holds link data h a (xs ++ (c, x) :: ys)) :
    c ≠ 0 ∧ ∃ v, h.lookup c = some v ∧ data v = x ∧ Seg link data h a xs c ∧ Holds link data h (link v) ys := by
  obtain ⟨m, hseg, hrest⟩ := holds_append.mp hl
  obtain ⟨rfl, hm, v, hv, hdata, ht⟩ := holds_cons.mp hrest
  exact ⟨hm, v, hv, hdata, hseg, ht⟩

theorem Holds.store (hl : Holds link data h a (xs ++ (c, x) :: ys)) (hv : h.lookup c = some v)
    (hlink : link w = link v) : Holds link data (h.insert c w) a (xs ++ (c, data w) :: ys) := by
  obtain ⟨hc, v', hv', -, hseg, hrest⟩ := hl.at_cell
  obtain rfl := Option.some.inj (hv.symm.trans hv')
  obtain ⟨hxs, hys⟩ := nodup_split hl.nodup
  refine holds_append.mpr ⟨c, hseg.congr fun k hk => AList.lookup_insert_ne ?_, ?_⟩
  · rintro rfl
    exact hxs hk
  · refine holds_cons.mpr ⟨rfl, hc, w, AList.lookup_insert _, rfl, ?_⟩
    rw [hlink]
    exact hrest.insert_not_mem hys

theorem Holds.attach (hl : Holds link data h a (xs ++ [(c, x)])) (hv : h.lookup c = some v) (hdata : data w = data v)
    (hrest : Holds link data h (link w) ys) (hout : c ∉ ys.map Prod.fst) :
    Holds link data (h.insert c w) a (xs ++ (c, x) :: ys) := by
  obtain ⟨hc, v', hv', rfl, hseg, -⟩ := hl.at_cell
  obtain rfl := Option.some.inj (hv.symm.trans hv')
  refine holds_append.mpr ⟨c, hseg.congr fun k hk => AList.lookup_insert_ne ?_, ?_⟩
  · rintro rfl
    exact (nodup_split hl.nodup).1 hk
  · exact holds_cons.mpr ⟨rfl, hc, w, AList.lookup_insert _, hdata, hrest.insert_not_mem hout⟩

theorem Holds.cut (hl : Holds link data h a (xs ++ (c, x) :: ys)) (hv : h.lookup c = some v) (hdata : data w = data v)
    (hlink : link w = 0) :
    Holds link data (h.insert c w) a (xs ++ [(c, x)]) ∧ Holds link data (h.insert c w) (link v) ys := by
  obtain ⟨hc, v', hv', rfl, hseg, hrest⟩ := hl.at_cell
  obtain rfl := Option.some.inj (hv.symm.trans hv')
  obtain ⟨hxs, hys⟩ := nodup_split hl.nodup
  refine ⟨holds_append.mpr ⟨c, hseg.congr fun k hk => AList.lookup_insert_ne ?_, ?_⟩, hrest.insert_not_mem hys⟩
  · rintro rfl
    exact hxs hk
  · refine holds_cons.mpr ⟨rfl, hc, w, AList.lookup_insert _, hdata, ?_⟩
    rw [hlink]
    exact .nil

theorem Holds.move (hl : Holds link data h a (xs ++ (c, x) :: (ys ++ (e, y) :: (d, z) :: zs))) {vc vd wc wd we : α}
    (hvc : h.lookup c = some vc) (hvd : h.lookup d = some vd)
    (hc : h'.lookup c = some wc) (hwc : data wc = x ∧ link wc = d)
    (hd : h'.lookup d = some wd) (hwd : data wd = z ∧ link wd = link vc)
    (he : h'.lookup e = some we) (hwe : data we = y ∧ link we = link vd)
    (hothers : ∀ k, k ≠ c → k ≠ d → k ≠ e → h'.lookup k = h.lookup k) :
    Holds link data h' a (xs ++ (c, x) :: (d, z) :: (ys ++ (e, y) :: zs)) := by
  have hnodup := hl.nodup
  obtain ⟨hc0, vc', hvc', -, hxs, hrest⟩ := hl.at_cell
  obtain rfl := Option.some.inj (hvc.symm.trans hvc')
  obtain ⟨he0, ve, hve, -, hys, hrest'⟩ := hrest.at_cell
  obtain ⟨hde, hd0, vd', hvd', -, hzs⟩ := holds_cons.mp hrest'
  obtain rfl := Option.some.inj (hvd.symm.trans hvd')
  simp only [List.map_append, List.map_cons, List.nodup_append, List.nodup_cons, List.mem_cons, List.mem_append,
    not_or] at hnodup
  obtain ⟨-, ⟨⟨hcys, hce, hcd, hczs⟩, -, ⟨⟨hed, hezs⟩, hdzs, -⟩, hys'⟩, hxs'⟩ := hnodup
  refine holds_append.mpr ⟨c, hxs.congr fun k hk => ?_, ?_⟩
  · exact hothers k (hxs' k hk c (.inl rfl)) (hxs' k hk d (.inr (.inr (.inr (.inl rfl)))))
      (hxs' k hk e (.inr (.inr (.inl rfl))))
  · refine holds_cons.mpr ⟨rfl, hc0, wc, hc, hwc.1, ?_⟩
    rw [hwc.2]
    refine holds_cons.mpr ⟨rfl, hd0, wd, hd, hwd.1, ?_⟩
    rw [hwd.2]
    refine holds_append.mpr ⟨e, hys.congr fun k hk => ?_, ?_⟩
    · exact hothers k (fun hkc => hcys (hkc ▸ hk)) (hys' k hk d (.inr (.inl rfl))) (hys' k hk e (.inl rfl))
    · refine holds_cons.mpr ⟨rfl, he0, we, he, hwe.1, ?_⟩
      rw [hwe.2]
      exact hzs.congr fun k hk => hothers k (fun hkc => hczs (hkc ▸ hk)) (fun hkd => hdzs (hkd ▸ hk)) fun hke => hezs (hke ▸ hk)

theorem Holds.relabel (hl : Holds link data h a xs)
    (hsame : ∀ c ∈ xs.map Prod.fst, ∀ v, h.lookup c = some v → ∃ w, h'.lookup c = some w ∧ link w = link v ∧ data w = data v) :
    Holds link data h' a xs := by
  induction hl with
  | nil => exact .nil
  | @cons a v cells ha hv _ ih =>
      obtain ⟨w, hw, hlink, hdata⟩ := hsame a (List.mem_cons_self ..) v hv
      refine holds_cons.mpr ⟨rfl, ha, w, hw, hdata, ?_⟩
      rw [hlink]
      exact ih fun c hc => hsame c (List.mem_cons_of_mem _ hc)

end OiUserland.Lib.Contents
