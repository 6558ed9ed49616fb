import Mathlib.Data.List.Find
import OiUserland.Libusb.Clouds

namespace OiUserland.Libusb.Attribution

open Lib.Faults Lib.LengthChains Descriptors Scans Clouds

structure IsPiece (d : List UInt8) : Prop where
  size_le : 2 ≤ d.length
  length : field d 0 = d.length
  if_size : field d 1 = usbDescrTypeIf → 9 ≤ d.length

section Pieces

variable {d : List UInt8} {ds xs rest : List (List UInt8)}

theorem piece_of_class (h : IsClass d) : IsPiece d := ⟨h.size_le, h.length, fun ht => absurd ht h.not_if⟩

theorem piece_of_standard {size type : Nat} (h : IsStandard size type d) (hs : 2 ≤ size)
    (ht : type = usbDescrTypeIf → size = 9) : IsPiece d := by
  have hle := h.size_le
  refine ⟨by omega, h.length, fun hif => ?_⟩
  rw [h.type] at hif
  have hsize := ht hif
  omega

theorem IsPiece.record (h : IsPiece d) : IsRecord d ∧ 1 < d.length := by
  have hle := h.size_le
  have hlen := h.length
  cases d with
  | nil => cases hle
  | cons b bs => exact ⟨⟨Nat.zero_lt_succ _, congrArg some hlen⟩, hle⟩

theorem peek_place {i : Nat} (h : i < d.length) : peek (place (d :: ds)) i = field d i := by
  rw [peek, field, place, List.flatten_cons, List.getElem?_append_left h]

def isAt (i a : Nat) (s : List (List UInt8)) : Bool :=
  s.head?.any fun d => decide (field d 1 = usbDescrTypeIf ∧ field d 2 = i ∧ field d 3 = a)

def typeIs (t : Nat) (s : List (List UInt8)) : Bool := s.head?.any fun d => decide (field d 1 = t)

theorem isIf_place {i a : Nat} (h : IsPiece d) : isIf i a (place (d :: ds)) = isAt i a (d :: ds) := by
  have h1 := h.size_le
  rw [isIf, isAt, List.head?_cons, Option.any_some, peek_place h1]
  by_cases hif : field d 1 = usbDescrTypeIf
  · have hlen := h.if_size hif
    rw [peek_place (by omega), peek_place (by omega)]
  · simp only [hif, false_and, decide_false]

theorem type_place {t : Nat} (h : IsPiece d) : decide (peek (place (d :: ds)) 1 = t) = typeIs t (d :: ds) := by
  rw [typeIs, List.head?_cons, Option.any_some, peek_place h.size_le]

theorem chain_pieces (h : ∀ d ∈ ds, IsPiece d) : chain 1 (place ds) = (suffixes ds).map place :=
  chain_place fun d hd => (h d hd).record

theorem find_pieces {i a : Nat} (h : ∀ d ∈ ds, IsPiece d) :
    (chain 3 (place ds)).find? (isIf i a) = ((suffixes ds).find? (isAt i a)).map place := by
  have hroom : ∀ q ∈ chain 1 (place ds), isIf i a q = true → 3 < q.2 := by
    intro q hq hif
    rw [chain_pieces h] at hq
    obtain ⟨s, hs, rfl⟩ := List.mem_map.mp hq
    obtain ⟨d, ys, rfl, hd⟩ := mem_suffixes hs
    have htype := (of_decide_eq_true hif).1
    rw [peek_place (h d hd).size_le] at htype
    have hlen := (h d hd).if_size htype
    simp only [place, List.flatten_cons, List.length_append]
    omega
  rw [chain_find_room (inside_place ds) (by decide) hroom, chain_pieces h, List.find?_map]
  congr 1
  refine List.find?_congr ?_
  intro s hs
  obtain ⟨d, ys, rfl, hd⟩ := mem_suffixes hs
  exact isIf_place (h d hd)

theorem endpointsOf_pieces (hd : IsPiece d) (h : ∀ d ∈ ds, IsPiece d) :
    endpointsOf (place (d :: ds)) =
      (((suffixes ds).takeWhile fun s => !typeIs usbDescrTypeIf s).filter (typeIs usbDescrTypeEp)).map place := by
  have hall : ∀ d' ∈ d :: ds, IsPiece d' := by
    intro d' hd'
    rcases List.mem_cons.mp hd' with rfl | hd'
    · exact hd
    · exact h d' hd'
  have hif : ∀ s ∈ suffixes ds, (decide (peek (place s) 1 ≠ usbDescrTypeIf)) = !typeIs usbDescrTypeIf s := by
    intro s hs
    obtain ⟨d', ys, rfl, hd'⟩ := mem_suffixes hs
    rw [decide_not, type_place (h d' hd')]
  have hep : ∀ s ∈ suffixes ds, decide (peek (place s) 1 = usbDescrTypeEp) = typeIs usbDescrTypeEp s := by
    intro s hs
    obtain ⟨d', ys, rfl, hd'⟩ := mem_suffixes hs
    exact type_place (h d' hd')
  rw [endpointsOf, chain_pieces hall, suffixes, List.map_cons, List.tail_cons, List.takeWhile_map, List.filter_map]
  congr 1
  refine (congrArg (List.filter _) (takeWhile_congr hif)).trans ?_
  refine List.filter_congr ?_
  intro s hs
  exact hep s ((List.takeWhile_sublist _).subset hs)

theorem scanExtra_pieces {off : Nat} (hx : ∀ x ∈ xs, IsClass x)
    (hr : ∀ r ∈ rest.head?, 2 ≤ r.length ∧ (field r 1 = usbDescrTypeCfg ∨ field r 1 = usbDescrTypeIf ∨
      field r 1 = usbDescrTypeEp)) :
    scanExtra off (place (xs ++ rest)) = .ok (if rest = [] then none else some (off + xs.flatten.length)) := by
  induction xs generalizing off with
  | nil =>
      cases rest with
      | nil =>
          rw [scanExtra, dif_neg (by decide)]
          rfl
      | cons r rest =>
          obtain ⟨hlen, htype⟩ := hr r rfl
          have hroom : 1 < (place (r :: rest)).2 := by
            simp only [place, List.flatten_cons, List.length_append]
            omega
          have hbyte : byte (place (r :: rest)).1 1 = .ok (field r 1) := by
            rw [byte_eq_peek (by exact hroom), peek_place (by omega)]
          rw [List.nil_append, scanExtra, dif_pos hroom, hbyte]
          simp only [bind, Except.bind, if_pos htype, reduceCtorEq, ↓reduceIte, List.flatten_nil, List.length_nil,
            Nat.add_zero]
          rfl
  | cons x xs ih =>
      have hclass := hx x List.mem_cons_self
      have hlen := hclass.size_le
      have hroom : 1 < (place (x :: (xs ++ rest))).2 := by
        simp only [place, List.flatten_cons, List.length_append]
        omega
      have hbyte : byte (place (x :: (xs ++ rest))).1 1 = .ok (field x 1) := by
        rw [byte_eq_peek (by exact hroom), peek_place (by omega)]
      have hbyte0 : byte (place (x :: (xs ++ rest))).1 0 = .ok x.length := by
        rw [byte_eq_peek (Nat.lt_trans Nat.zero_lt_one (by exact hroom)), peek_place (by omega), hclass.length]
      have hnot : ¬(field x 1 = usbDescrTypeCfg ∨ field x 1 = usbDescrTypeIf ∨ field x 1 = usbDescrTypeEp) := by
        simp only [hclass.not_cfg, hclass.not_if, hclass.not_ep, or_self, not_false_eq_true]
      rw [List.cons_append, scanExtra, dif_pos hroom, hbyte]
      simp only [bind, Except.bind, if_neg hnot, hbyte0, dif_neg (show ¬x.length = 0 by omega), drop_place]
      rw [ih fun x' hx' => hx x' (List.mem_cons_of_mem _ hx')]
      simp only [List.flatten_cons, List.length_append, Nat.add_assoc]

/-- What usb_find_extra finds behind a descriptor: the class-specific ones, but only if
a standard descriptor follows. -/
theorem usbFindExtra_pieces (hd : IsPiece d) (hx : ∀ x ∈ xs, IsClass x)
    (hr : ∀ r ∈ rest.head?, 2 ≤ r.length ∧ (field r 1 = usbDescrTypeCfg ∨ field r 1 = usbDescrTypeIf ∨
      field r 1 = usbDescrTypeEp)) :
    usbFindExtra (place (d :: (xs ++ rest))) =
      .ok ((xs ++ rest).flatten, if rest = [] then 0 else xs.flatten.length) := by
  have hlen := hd.size_le
  have hbyte0 : byte (place (d :: (xs ++ rest))).1 0 = .ok d.length := by
    have hroom : 0 < (place (d :: (xs ++ rest))).1.length := by
      simp only [place, List.flatten_cons, List.length_append]
      omega
    rw [byte_eq_peek hroom, peek_place (by omega), hd.length]
  rw [usbFindExtra, hbyte0]
  simp only [bind, Except.bind, drop_place, scanExtra_pieces hx hr, Nat.zero_add]
  have hdrop : (place (d :: (xs ++ rest))).1.drop d.length = (xs ++ rest).flatten := by
    rw [place, List.flatten_cons, List.drop_left]
  rw [hdrop]
  by_cases h0 : rest = []
  · simp only [h0, ↓reduceIte]
    rfl
  · simp only [h0, ↓reduceIte]
    rfl

end Pieces

section Heads

variable {α β : Type} {x : β}

theorem mem_head?_append {xs ys : List β} (h : x ∈ (xs ++ ys).head?) : x ∈ xs.head? ∨ x ∈ ys.head? := by
  cases xs with
  | nil => exact Or.inr h
  | cons y xs => exact Or.inl h

theorem mem_head?_flatMap {l : List α} {f : α → List β} (h : x ∈ (l.flatMap f).head?) : ∃ a ∈ l, x ∈ (f a).head? := by
  induction l with
  | nil => cases h
  | cons a l ih =>
      rw [List.flatMap_cons] at h
      rcases mem_head?_append h with h | h
      · exact ⟨a, List.mem_cons_self, h⟩
      · obtain ⟨b, hb, h⟩ := ih h
        exact ⟨b, List.mem_cons_of_mem _ hb, h⟩

end Heads

section Alternates

variable {alt : Alternate} {i a : Nat} {d : List UInt8} {after : List (List UInt8)}

def StartsInterface (after : List (List UInt8)) : Prop := ∀ r ∈ after.head?, IsPiece r ∧ field r 1 = usbDescrTypeIf

theorem endpoint_piece {e : Endpoint} (he : e.WellFormed) (hd : d ∈ e.pieces) :
    IsPiece d ∧ field d 1 ≠ usbDescrTypeIf := by
  rcases List.mem_cons.mp hd with rfl | hd
  · refine ⟨piece_of_standard he.descr (by decide) (by decide), ?_⟩
    rw [he.descr.type]
    decide
  · exact ⟨piece_of_class (he.extra d hd), (he.extra d hd).not_if⟩

theorem alternate_piece (hw : alt.WellFormed i a) (hd : d ∈ alt.pieces) :
    IsPiece d ∧ (field d 1 = usbDescrTypeIf → field d 2 = i ∧ field d 3 = a) := by
  rcases List.mem_cons.mp hd with rfl | hd
  · exact ⟨piece_of_standard hw.descr (by decide) fun _ => rfl, fun _ => ⟨hw.interface, hw.setting⟩⟩
  · rcases List.mem_append.mp hd with hd | hd
    · exact ⟨piece_of_class (hw.extra d hd), fun h => absurd h (hw.extra d hd).not_if⟩
    · obtain ⟨e, he, hd⟩ := List.mem_flatMap.mp hd
      obtain ⟨hp, hn⟩ := endpoint_piece (hw.endpoints e he) hd
      exact ⟨hp, fun h => absurd h hn⟩

theorem takeWhile_suffixes {xs ys : List (List UInt8)} (hx : ∀ x ∈ xs, field x 1 ≠ usbDescrTypeIf)
    (hy : StartsInterface ys) :
    ((suffixes (xs ++ ys)).takeWhile fun s => !typeIs usbDescrTypeIf s) = (suffixes xs).map (· ++ ys) := by
  induction xs with
  | nil =>
      cases ys with
      | nil => rfl
      | cons y ys =>
          have htype : typeIs usbDescrTypeIf (y :: ys) = true := decide_eq_true (hy y rfl).2
          simp only [List.nil_append, suffixes, List.takeWhile_cons, htype]
          rfl
  | cons x xs ih =>
      have htype : typeIs usbDescrTypeIf (x :: (xs ++ ys)) = false := decide_eq_false (hx x List.mem_cons_self)
      simp only [List.cons_append, suffixes, List.takeWhile_cons, htype, Bool.not_false, ↓reduceIte, List.map_cons]
      rw [ih fun x' hx' => hx x' (List.mem_cons_of_mem _ hx')]

theorem filter_class {xs ys zs : List (List UInt8)} (hx : ∀ x ∈ xs, IsClass x) :
    ((suffixes (xs ++ ys)).map (· ++ zs)).filter (typeIs usbDescrTypeEp) =
      ((suffixes ys).map (· ++ zs)).filter (typeIs usbDescrTypeEp) := by
  induction xs with
  | nil => rfl
  | cons x xs ih =>
      have htype : typeIs usbDescrTypeEp (x :: (xs ++ ys) ++ zs) = false :=
        decide_eq_false (hx x List.mem_cons_self).not_ep
      simp only [List.cons_append, suffixes, List.map_cons] at htype ⊢
      rw [List.filter_cons_of_neg (by rw [htype]; exact Bool.false_ne_true)]
      exact ih fun x' hx' => hx x' (List.mem_cons_of_mem _ hx')

theorem filter_endpoints {es : List Endpoint} (he : ∀ e ∈ es, e.WellFormed) :
    ((suffixes (es.flatMap Endpoint.pieces)).map (· ++ after)).filter (typeIs usbDescrTypeEp) =
      (suffixes es).map fun es => es.flatMap Endpoint.pieces ++ after := by
  induction es with
  | nil => rfl
  | cons e es ih =>
      have hw := he e List.mem_cons_self
      have htype : typeIs usbDescrTypeEp (e.bytes :: (e.extra ++ es.flatMap Endpoint.pieces) ++ after) = true :=
        decide_eq_true hw.descr.type
      have hrest := ih fun e' he' => he e' (List.mem_cons_of_mem _ he')
      simp only [List.flatMap_cons, Endpoint.pieces, List.cons_append, suffixes, List.map_cons] at htype hrest ⊢
      rw [List.filter_cons_of_pos htype, filter_class hw.extra, hrest]

theorem endpointsOf_alternate (hw : alt.WellFormed i a) (hall : ∀ d ∈ alt.pieces ++ after, IsPiece d)
    (hafter : StartsInterface after) :
    endpointsOf (place (alt.pieces ++ after)) =
      (suffixes alt.endpoints).map fun es => place (es.flatMap Endpoint.pieces ++ after) := by
  have hnot : ∀ d ∈ alt.extra ++ alt.endpoints.flatMap Endpoint.pieces, field d 1 ≠ usbDescrTypeIf := by
    intro d hd
    rcases List.mem_append.mp hd with hd | hd
    · exact (hw.extra d hd).not_if
    · obtain ⟨e, he, hd⟩ := List.mem_flatMap.mp hd
      exact (endpoint_piece (hw.endpoints e he) hd).2
  have hhead := hall alt.bytes (List.mem_append_left _ List.mem_cons_self)
  have htail : ∀ d ∈ (alt.extra ++ alt.endpoints.flatMap Endpoint.pieces) ++ after, IsPiece d :=
    fun d hd => hall d (List.mem_cons_of_mem _ hd)
  rw [show alt.pieces ++ after = alt.bytes :: ((alt.extra ++ alt.endpoints.flatMap Endpoint.pieces) ++ after) from rfl,
    endpointsOf_pieces hhead htail, takeWhile_suffixes hnot hafter, filter_class hw.extra,
    filter_endpoints hw.endpoints, List.map_map]
  rfl

end Alternates

section Configuration

variable {c : Configuration} {iface : Interface} {alt : Alternate} {i a : Nat} {d : List UInt8}

def following (c : Configuration) (iface : Interface) (i a : Nat) : List (List UInt8) :=
  (iface.alternates.drop (a + 1)).flatMap Alternate.pieces ++ (c.interfaces.drop (i + 1)).flatMap Interface.pieces

theorem mem_interface (hi : iface ∈ c.interfaces) (hd : d ∈ iface.pieces) (hw : c.WellFormed) :
    ∃ (i a : Nat) (alt : Alternate), c.interfaces[i]? = some iface ∧ iface.alternates[a]? = some alt ∧ d ∈ alt.pieces ∧ alt.WellFormed i a := by
  obtain ⟨i, hi⟩ := List.mem_iff_getElem?.mp hi
  obtain ⟨alt, halt, hd⟩ := List.mem_flatMap.mp hd
  obtain ⟨a, ha⟩ := List.mem_iff_getElem?.mp halt
  exact ⟨i, a, alt, hi, ha, hd, hw.alternates i iface hi a alt ha⟩

theorem configuration_piece (hw : c.WellFormed) (hd : d ∈ c.pieces) :
    IsPiece d ∧ (field d 1 = usbDescrTypeIf → ∃ (i a : Nat) (iface : Interface) (alt : Alternate),
      c.interfaces[i]? = some iface ∧ iface.alternates[a]? = some alt ∧ field d 2 = i ∧ field d 3 = a) := by
  rcases List.mem_cons.mp hd with rfl | hd
  · refine ⟨piece_of_standard hw.descr (by decide) (by decide), fun h => ?_⟩
    rw [hw.descr.type] at h
    exact absurd h (by decide)
  · rcases List.mem_append.mp hd with hd | hd
    · exact ⟨piece_of_class (hw.extra d hd), fun h => absurd h (hw.extra d hd).not_if⟩
    · obtain ⟨iface, hi, hd⟩ := List.mem_flatMap.mp hd
      obtain ⟨i, a, alt, hi, ha, hd, hwa⟩ := mem_interface hi hd hw
      obtain ⟨hp, hif⟩ := alternate_piece hwa hd
      exact ⟨hp, fun h => ⟨i, a, iface, alt, hi, ha, hif h⟩⟩

theorem startsInterface_following (hw : c.WellFormed) (hi : c.interfaces[i]? = some iface) :
    StartsInterface (following c iface i a) := by
  have hhead {j b : Nat} {iface' : Interface} {alt' : Alternate} {r : List UInt8} (hj : c.interfaces[j]? = some iface')
      (hb : iface'.alternates[b]? = some alt') (hr : r ∈ alt'.pieces.head?) : IsPiece r ∧ field r 1 = usbDescrTypeIf := by
    have hwa := hw.alternates j iface' hj b alt' hb
    obtain rfl : alt'.bytes = r := Option.some.inj hr
    exact ⟨piece_of_standard hwa.descr (by decide) fun _ => rfl, hwa.descr.type⟩
  intro r hr
  rcases mem_head?_append hr with hr | hr
  · obtain ⟨alt', halt', hr⟩ := mem_head?_flatMap hr
    obtain ⟨b, hb⟩ := List.mem_iff_getElem?.mp (List.mem_of_mem_drop halt')
    exact hhead hi hb hr
  · obtain ⟨iface', hiface', hr⟩ := mem_head?_flatMap hr
    obtain ⟨j, hj⟩ := List.mem_iff_getElem?.mp (List.mem_of_mem_drop hiface')
    obtain ⟨alt', halt', hr⟩ := mem_head?_flatMap hr
    obtain ⟨b, hb⟩ := List.mem_iff_getElem?.mp halt'
    exact hhead hj hb hr

theorem flatMap_split {α β : Type} {l : List α} {n : Nat} {x : α} (f : α → List β) (h : l[n]? = some x) :
    l.flatMap f = (l.take n).flatMap f ++ (f x ++ (l.drop (n + 1)).flatMap f) := by
  obtain ⟨hn, rfl⟩ := List.getElem?_eq_some_iff.mp h
  calc l.flatMap f = (l.take n ++ l.drop n).flatMap f := by rw [List.take_append_drop]
    _ = _ := by rw [List.drop_eq_getElem_cons hn, List.flatMap_append, List.flatMap_cons]

theorem mem_take {α : Type} {l : List α} {n : Nat} {x : α} (h : x ∈ l.take n) : ∃ m, m < n ∧ l[m]? = some x := by
  obtain ⟨m, hm⟩ := List.mem_iff_getElem?.mp h
  by_cases hlt : m < n
  · rw [List.getElem?_take_of_lt hlt] at hm
    exact ⟨m, hlt, hm⟩
  · rw [List.getElem?_take_eq_none (Nat.not_lt.mp hlt)] at hm
    cases hm

theorem pieces_split (hi : c.interfaces[i]? = some iface) (ha : iface.alternates[a]? = some alt) :
    c.pieces = (c.bytes :: (c.extra ++ ((c.interfaces.take i).flatMap Interface.pieces ++
      (iface.alternates.take a).flatMap Alternate.pieces))) ++ (alt.pieces ++ following c iface i a) := by
  rw [Configuration.pieces, flatMap_split Interface.pieces hi, Interface.pieces, flatMap_split Alternate.pieces ha]
  simp only [following, List.cons_append, List.append_assoc]

theorem find_alternate (hw : c.WellFormed) (hi : c.interfaces[i]? = some iface) (ha : iface.alternates[a]? = some alt) :
    (suffixes c.pieces).find? (isAt i a) = some (alt.pieces ++ following c iface i a) := by
  have hwa := hw.alternates i iface hi a alt ha
  rw [pieces_split hi ha, suffixes_append_find]
  · rw [Alternate.pieces, List.cons_append, suffixes, List.find?_cons_of_pos]
    exact decide_eq_true ⟨hwa.descr.type, hwa.interface, hwa.setting⟩
  · intro d hd ds
    refine decide_eq_false ?_
    rintro ⟨ht, h2, h3⟩
    rcases List.mem_cons.mp hd with rfl | hd
    · rw [hw.descr.type] at ht
      exact absurd ht (by decide)
    · rcases List.mem_append.mp hd with hd | hd
      · exact (hw.extra d hd).not_if ht
      · rcases List.mem_append.mp hd with hd | hd
        · obtain ⟨iface', hiface', hd⟩ := List.mem_flatMap.mp hd
          obtain ⟨j, hj, hj'⟩ := mem_take hiface'
          obtain ⟨alt', halt', hd⟩ := List.mem_flatMap.mp hd
          obtain ⟨b, hb⟩ := List.mem_iff_getElem?.mp halt'
          have hnum := ((alternate_piece (hw.alternates j iface' hj' b alt' hb) hd).2 ht).1
          omega
        · obtain ⟨alt', halt', hd⟩ := List.mem_flatMap.mp hd
          obtain ⟨b, hb, hb'⟩ := mem_take halt'
          have hnum := ((alternate_piece (hw.alternates i iface hi b alt' hb') hd).2 ht).2
          omega

theorem find_none (hw : c.WellFormed) (hi : c.interfaces[i]? = some iface) (ha : iface.alternates.length ≤ a) :
    (suffixes c.pieces).find? (isAt i a) = none := by
  refine List.find?_eq_none.mpr ?_
  intro s hs hat
  obtain ⟨d, ds, rfl, hd⟩ := mem_suffixes hs
  obtain ⟨ht, h2, h3⟩ := of_decide_eq_true hat
  obtain ⟨j, b, iface', alt', hj, hb, h2', h3'⟩ := (configuration_piece hw hd).2 ht
  obtain rfl : j = i := h2'.symm.trans h2
  obtain rfl : iface' = iface := Option.some.inj (hj.symm.trans hi)
  have hlt := (List.getElem?_eq_some_iff.mp hb).1
  omega

end Configuration

end OiUserland.Libusb.Attribution
