import OiUserland.Libusb.Attribution

namespace OiUserland.Libusb.Trees

open Lib.Faults Lib.LengthChains Descriptors Decoding Scans Configs Bounds Clouds Attribution

theorem ensures_fill {α σ η V : Type} {items : List α} {fill : Nat → σ → η → Run (Int × σ × η)} {view : σ → V}
    {f : Nat → α → V} {zero : σ}
    (hfill : ∀ i x h, items[i]? = some x → Ensures NoFault (fill i zero h) fun r => r.1 = 0 ∧ view r.2.1 = f i x)
    {n : Nat} (hn : n = items.length) (h : η) :
    Ensures NoFault (eachSlot fill 0 n (List.replicate n zero) h) fun r => r.1 = 0 ∧ r.2.1.map view = items.mapIdx f := by
  subst hn
  refine ensures_eachSlot (n := items.length) (fun i slots _ => slots.length = items.length ∧
    (∀ j x, j < i → items[j]? = some x → slots[j]?.map view = some (f j x)) ∧
    ∀ j, i ≤ j → j < items.length → slots[j]? = some zero) ?_ ?_ ?_ (Nat.zero_add _) ?_
  · exact fun _ _ _ h => h.1
  · rintro i slots h s hi ⟨hlen, hdone, hrest⟩ hs
    obtain rfl : zero = s := Option.some.inj ((hrest i (Nat.le_refl i) hi).symm.trans hs)
    have hitem : items[i]? = some items[i] := List.getElem?_eq_getElem hi
    refine ensures_mono (hfill i _ h hitem) ?_
    rintro ⟨rval, s', h'⟩ ⟨h0, hview⟩
    simp only at h0
    rw [if_pos h0]
    refine ⟨by rw [List.length_set]; exact hlen, ?_, ?_⟩
    · intro j x hj hx
      by_cases hji : j = i
      · subst hji
        rw [List.getElem?_set_self (by omega)]
        exact congrArg some (hview.trans (congrArg (f j) (Option.some.inj (hitem.symm.trans hx))))
      · rw [List.getElem?_set_ne (Ne.symm hji)]
        exact hdone j x (by omega) hx
    · intro j hj hlt
      rw [List.getElem?_set_ne (by omega)]
      exact hrest j (by omega) hlt
  · rintro slots h ⟨hlen, hdone, -⟩
    refine ⟨rfl, List.ext_getElem? ?_⟩
    intro j
    rw [List.getElem?_map, List.getElem?_mapIdx]
    by_cases hj : j < items.length
    · have hitem : items[j]? = some items[j] := List.getElem?_eq_getElem hj
      rw [hdone j _ hj hitem, hitem]
      rfl
    · rw [List.getElem?_eq_none (show slots.length ≤ j by omega), List.getElem?_eq_none (by omega)]
      rfl
  · refine ⟨List.length_replicate, fun j x hj => absurd hj (Nat.not_lt_zero j), ?_⟩
    intro j _ hj
    exact List.getElem?_replicate_of_lt hj

section Fields

variable {d : List UInt8} {ds : List (List UInt8)}

theorem exists_nine (h : 9 ≤ d.length) :
    ∃ b0 b1 b2 b3 b4 b5 b6 b7 b8 bs, d = b0 :: b1 :: b2 :: b3 :: b4 :: b5 :: b6 :: b7 :: b8 :: bs := by
  match d, h with
  | b0 :: b1 :: b2 :: b3 :: b4 :: b5 :: b6 :: b7 :: b8 :: bs, _ => exact ⟨b0, b1, b2, b3, b4, b5, b6, b7, b8, bs, rfl⟩

theorem nine_le_place (h : 9 ≤ d.length) : 9 ≤ (place (d :: ds)).2 := by
  simp only [place, List.flatten_cons, List.length_append]
  omega

theorem decode_ifDescr (h : 9 ≤ d.length) (ret : UsbIfDescr) :
    (decode sizeofIf ifFormat (place (d :: ds)) 0).2 = sizeofIf ∧
      (decode sizeofIf ifFormat (place (d :: ds)) 0).1.foldl UsbIfDescr.store ret = ifDescr d := by
  have hlen : 9 ≤ (place (d :: ds)).2 := nine_le_place h
  obtain ⟨b0, b1, b2, b3, b4, b5, b6, b7, b8, bs, rfl⟩ := exists_nine h
  have hdecode := @decode_if b0 b1 b2 b3 b4 b5 b6 b7 b8 (bs ++ ds.flatten) _ hlen
  rw [show decode sizeofIf ifFormat (place (_ :: ds)) 0 = _ from hdecode]
  exact ⟨rfl, rfl⟩

theorem decode_cfgDescr (h : 9 ≤ d.length) (ret : UsbCfgDescr) :
    (decode sizeofCfg cfgFormat (place (d :: ds)) 0).2 = 9 ∧
      (decode sizeofCfg cfgFormat (place (d :: ds)) 0).1.foldl UsbCfgDescr.store ret = cfgDescr d := by
  have hlen : 9 ≤ (place (d :: ds)).2 := nine_le_place h
  obtain ⟨b0, b1, b2, b3, b4, b5, b6, b7, b8, bs, rfl⟩ := exists_nine h
  have hdecode := @decode_cfg b0 b1 b2 b3 b4 b5 b6 b7 b8 (bs ++ ds.flatten) _ hlen
  rw [show decode sizeofCfg cfgFormat (place (_ :: ds)) 0 = _ from hdecode]
  exact ⟨rfl, rfl⟩

theorem decode_epDescr (h : 9 ≤ d.length) (ret : UsbEpDescr) :
    (decode sizeofEp epFormat (place (d :: ds)) 0).1.foldl UsbEpDescr.store ret = epDescr d := by
  have hlen : 9 ≤ (place (d :: ds)).2 := nine_le_place h
  obtain ⟨b0, b1, b2, b3, b4, b5, b6, b7, b8, bs, rfl⟩ := exists_nine h
  have hdecode := @decode_ep b0 b1 b2 b3 b4 b5 b6 b7 b8 (bs ++ ds.flatten) _ hlen
  rw [show decode sizeofEp epFormat (place (_ :: ds)) 0 = _ from hdecode]
  rfl

end Fields

section Copies

def kept (xs rest : List (List UInt8)) : List UInt8 := if rest = [] then [] else xs.flatten

variable {env : Env}

theorem copyExtra_kept (hgrant : ∀ k, env.grant k = true) (xs rest : List (List UInt8)) (h : Heap) :
    Ensures NoFault (copyExtra env ((xs ++ rest).flatten, if rest = [] then 0 else xs.flatten.length) none 0 h) fun r =>
      r.1 = 0 ∧ cells r.2.1 = kept xs rest ∧ r.2.2.1 = (kept xs rest).length := by
  have hlen : (if rest = [] then 0 else xs.flatten.length) = (kept xs rest).length := by
    rw [kept]
    split <;> rfl
  rw [hlen, copyExtra]
  by_cases h0 : (kept xs rest).length = 0
  · rw [if_pos h0]
    exact ensures_pure ⟨rfl, (List.eq_nil_of_length_eq_zero h0).symm, h0.symm⟩
  · have hrest : ¬rest = [] := by
      intro hnil
      rw [kept, if_pos hnil] at h0
      exact h0 rfl
    have hkept : kept xs rest = xs.flatten := if_neg hrest
    have hle : xs.flatten.length ≤ (xs ++ rest).flatten.length := by
      rw [List.flatten_append, List.length_append]
      omega
    rw [hkept] at h0
    simp only [hkept, if_neg h0, calloc, hgrant, ↓reduceIte, memcpy, if_pos hle]
    refine ensures_pure ⟨rfl, ?_, rfl⟩
    show ((xs ++ rest).flatten).take xs.flatten.length = xs.flatten
    rw [List.flatten_append, List.take_left]

end Copies

section Runs

variable {c : Configuration} {iface : Interface} {alt : Alternate} {e : Endpoint} {i a n : Nat} {env : Env} {index : Nat}

def behind (alt : Alternate) (after : List (List UInt8)) (n : Nat) : List (List UInt8) :=
  (alt.endpoints.drop (n + 1)).flatMap Endpoint.pieces ++ after

def builtEndpoint (env : Env) (index i a : Nat) (alt : Alternate) (after : List (List UInt8)) (n : Nat) (e : Endpoint) :
    EndpointView :=
  ⟨(decode sizeofEp epFormat (place (e.bytes :: (e.extra ++ behind alt after n))) 0).1.foldl UsbEpDescr.store
      (env.stack index i a n),
    kept e.extra (behind alt after n), (kept e.extra (behind alt after n)).length⟩

def builtAlternate (env : Env) (index : Nat) (c : Configuration) (iface : Interface) (i a : Nat) (alt : Alternate) :
    AlternateView :=
  let rest := alt.endpoints.flatMap Endpoint.pieces ++ following c iface i a
  ⟨ifDescr alt.bytes, kept alt.extra rest, (kept alt.extra rest).length,
    alt.endpoints.mapIdx (builtEndpoint env index i a alt (following c iface i a))⟩

def builtInterface (env : Env) (index : Nat) (c : Configuration) (i : Nat) (iface : Interface) : InterfaceView :=
  ⟨min iface.alternates.length usbMaxaltsetting,
    (iface.alternates.take usbMaxaltsetting).mapIdx (builtAlternate env index c iface i)⟩

def builtConfig (env : Env) (index : Nat) (c : Configuration) : ConfigView :=
  let rest := c.interfaces.flatMap Interface.pieces
  ⟨cfgDescr c.bytes, kept c.extra rest, (kept c.extra rest).length, c.interfaces.mapIdx (builtInterface env index c)⟩

theorem pieces_all (hw : c.WellFormed) : ∀ d ∈ c.pieces, IsPiece d := fun _ hd => (configuration_piece hw hd).1

theorem find_place (hw : c.WellFormed) (hi : c.interfaces[i]? = some iface) (ha : iface.alternates[a]? = some alt) :
    (chain 3 (place c.pieces)).find? (isIf i a) = some (place (alt.pieces ++ following c iface i a)) := by
  rw [find_pieces (pieces_all hw), find_alternate hw hi ha]
  rfl

def StartsStandard (rest : List (List UInt8)) : Prop :=
  ∀ r ∈ rest.head?, 2 ≤ r.length ∧ (field r 1 = usbDescrTypeCfg ∨ field r 1 = usbDescrTypeIf ∨ field r 1 = usbDescrTypeEp)

theorem startsStandard_endpoints {es : List Endpoint} {after : List (List UInt8)} (he : ∀ e ∈ es, e.WellFormed)
    (ha : StartsInterface after) : StartsStandard (es.flatMap Endpoint.pieces ++ after) := by
  intro r hr
  rcases mem_head?_append hr with hr | hr
  · obtain ⟨e, hmem, hr⟩ := mem_head?_flatMap hr
    obtain rfl : e.bytes = r := Option.some.inj hr
    have hle := (he e hmem).descr.size_le
    exact ⟨by omega, Or.inr (Or.inr (he e hmem).descr.type)⟩
  · exact ⟨(ha r hr).1.size_le, Or.inr (Or.inl (ha r hr).2)⟩

theorem usbParseEndpoint_built (hgrant : ∀ k, env.grant k = true) (hw : c.WellFormed)
    (hi : c.interfaces[i]? = some iface) (ha : iface.alternates[a]? = some alt) (hn : alt.endpoints[n]? = some e) (h : Heap) :
    Ensures NoFault (usbParseEndpoint env index i a (place c.pieces) n UsbEndpointDescriptor.zero h) fun r =>
      r.1 = 0 ∧ viewEndpoint r.2.1 = builtEndpoint env index i a alt (following c iface i a) n e := by
  have hwa := hw.alternates i iface hi a alt ha
  have hafter := startsInterface_following (a := a) hw hi
  have hfind := find_place hw hi ha
  obtain ⟨hin, hroom, -⟩ := findInterface_mem (inside_place _) hfind
  have hall : ∀ d ∈ alt.pieces ++ following c iface i a, IsPiece d := by
    intro d hd
    refine pieces_all hw d ?_
    rw [pieces_split hi ha]
    exact List.mem_append_right _ hd
  obtain ⟨hlt, rfl⟩ := List.getElem?_eq_some_iff.mp hn
  have hep : (endpointsOf (place (alt.pieces ++ following c iface i a)))[n]? =
      some (place (alt.endpoints[n].bytes :: (alt.endpoints[n].extra ++ behind alt (following c iface i a) n))) := by
    rw [endpointsOf_alternate hwa hall hafter, List.getElem?_map, getElem?_suffixes hlt, Option.map_some,
      List.drop_eq_getElem_cons hlt]
    simp only [List.flatMap_cons, Endpoint.pieces, List.cons_append, List.append_assoc, behind]
  have hwe := hwa.endpoints _ (List.getElem_mem hlt)
  have hstd : StartsStandard (behind alt (following c iface i a) n) :=
    startsStandard_endpoints (fun e he => hwa.endpoints e (List.mem_of_mem_drop he)) hafter
  have hextra := usbFindExtra_pieces (piece_of_standard hwe.descr (by decide) (by decide)) hwe.extra hstd
  have hsize : ¬(decode sizeofEp epFormat
      (place (alt.endpoints[n].bytes :: (alt.endpoints[n].extra ++ behind alt (following c iface i a) n))) 0).2 <
        usbEpDescrSize := by
    refine Nat.not_lt.mpr (decode_ep_size.mpr ?_)
    have hle := hwe.descr.size_le
    simp only [List.flatten_cons, List.length_append]
    omega
  rw [usbParseEndpoint, usbParseEpDescr_eq (inside_place _) hfind hep hextra]
  simp only [bind, Except.bind, if_neg hsize]
  refine ensures_bind (copyExtra_kept hgrant _ _ h) ?_
  rintro ⟨err, extra, extralen, h'⟩ ⟨herr, hcells, hlen⟩
  refine ensures_pure ⟨herr, ?_⟩
  simp only [viewEndpoint, builtEndpoint, hcells, show extralen = _ from hlen]

theorem parseIf_found (hw : c.WellFormed) (hi : c.interfaces[i]? = some iface) (ha : iface.alternates[a]? = some alt)
    (ret : UsbIfDescr) :
    usbParseIfDescr (place c.pieces) i a ret = .ok (some (sizeofIf, ifDescr alt.bytes,
      ((alt.extra ++ (alt.endpoints.flatMap Endpoint.pieces ++ following c iface i a)).flatten,
        if alt.endpoints.flatMap Endpoint.pieces ++ following c iface i a = [] then 0 else alt.extra.flatten.length))) := by
  have hwa := hw.alternates i iface hi a alt ha
  have hstd := startsStandard_endpoints (fun e he => hwa.endpoints e he) (startsInterface_following (a := a) hw hi)
  have hextra := usbFindExtra_pieces (piece_of_standard hwa.descr (by decide) fun _ => rfl) hwa.extra hstd
  have hfind := find_place hw hi ha
  have hpieces : alt.pieces ++ following c iface i a =
      alt.bytes :: (alt.extra ++ (alt.endpoints.flatMap Endpoint.pieces ++ following c iface i a)) := by
    rw [Alternate.pieces, List.cons_append, List.append_assoc]
  rw [hpieces] at hfind
  obtain ⟨hsize, hfields⟩ := @decode_ifDescr alt.bytes
    (alt.extra ++ (alt.endpoints.flatMap Endpoint.pieces ++ following c iface i a)) hwa.descr.size_le ret
  rw [usbParseIfDescr_eq (inside_place _) hfind hextra, hsize, hfields]

theorem usbParseAlternate_built (hgrant : ∀ k, env.grant k = true) (hw : c.WellFormed)
    (hi : c.interfaces[i]? = some iface) (ha : iface.alternates[a]? = some alt) (h : Heap) :
    Ensures NoFault (usbParseAlternate env index i (place c.pieces) a UsbInterfaceDescriptor.zero h) fun r =>
      r.1 = 0 ∧ viewAlternate r.2.1 = builtAlternate env index c iface i a alt := by
  have hwa := hw.alternates i iface hi a alt ha
  have hcount : (ifDescr alt.bytes).bNumEndpoints = alt.endpoints.length := hwa.count
  rw [usbParseAlternate, parseIf_found hw hi ha]
  simp only [bind, Except.bind, ne_eq, not_true_eq_false, ↓reduceIte]
  refine ensures_bind (copyExtra_kept hgrant _ _ h) ?_
  rintro ⟨err, extra, extralen, h'⟩ ⟨herr, hcells, hlen⟩
  simp only at herr hcells hlen
  subst herr
  simp only [not_true_eq_false, ↓reduceIte, parseEndpoints, hcount]
  by_cases h0 : alt.endpoints.length = 0
  · rw [if_pos h0]
    refine ensures_pure ⟨rfl, ?_⟩
    rw [viewAlternate, builtAlternate, List.eq_nil_of_length_eq_zero h0]
    simp only [hcells, hlen, List.eq_nil_of_length_eq_zero h0]
    rfl
  · rw [if_neg h0]
    simp only [calloc, hgrant, ↓reduceIte]
    refine ensures_bind (ensures_fill (fun n e h hn => usbParseEndpoint_built hgrant hw hi ha hn h) rfl _) ?_
    rintro ⟨rval, endpoints, h''⟩ ⟨h0', hview⟩
    refine ensures_pure ⟨h0', ?_⟩
    simp only [viewAlternate, builtAlternate, hcells, hlen]
    exact congrArg _ hview

theorem countAlternates_eq (hw : c.WellFormed) (hi : c.interfaces[i]? = some iface) {k a m : Nat}
    (ha : a ≤ iface.alternates.length) :
    countAlternates (place c.pieces) i k a m =
      .ok (if min iface.alternates.length (a + k) = a then m else min iface.alternates.length (a + k) - 1) := by
  induction k generalizing a m with
  | zero =>
      rw [countAlternates, Nat.add_zero, if_pos (by omega)]
      rfl
  | succ k ih =>
      rw [countAlternates]
      by_cases hlt : a < iface.alternates.length
      · have hget : iface.alternates[a]? = some iface.alternates[a] := List.getElem?_eq_getElem hlt
        rw [parseIf_found hw hi hget]
        simp only [bind, Except.bind, ne_eq, not_true_eq_false, ↓reduceIte]
        rw [ih (by omega), if_neg (show ¬min iface.alternates.length (a + (k + 1)) = a by omega)]
        congr 1
        split <;> omega
      · have hnone : (chain 3 (place c.pieces)).find? (isIf i a) = none := by
          rw [find_pieces (pieces_all hw), find_none hw hi (Nat.not_lt.mp hlt)]
          rfl
        rw [usbParseIfDescr_none (inside_place _) hnone, if_pos (by omega)]
        rfl

theorem usbParseInterface_built (hgrant : ∀ k, env.grant k = true) (hw : c.WellFormed)
    (hi : c.interfaces[i]? = some iface) (h : Heap) :
    Ensures NoFault (usbParseInterface env index (place c.pieces) i UsbInterface.zero h) fun r =>
      r.1 = 0 ∧ viewInterface r.2.1 = builtInterface env index c i iface := by
  have hne := hw.nonempty iface (List.mem_of_getElem? hi)
  have hpos := List.length_pos_iff.mpr hne
  have hcount := @countAlternates_eq c iface i hw hi usbMaxaltsetting 0 0 (Nat.zero_le _)
  have hmin : ¬min iface.alternates.length (0 + usbMaxaltsetting) = 0 := by
    rw [usbMaxaltsetting]
    omega
  have hlen : min iface.alternates.length (0 + usbMaxaltsetting) - 1 + 1 =
      (iface.alternates.take usbMaxaltsetting).length := by
    rw [List.length_take]
    omega
  rw [if_neg hmin] at hcount
  rw [usbParseInterface, hcount]
  simp only [bind, Except.bind, calloc, hgrant, ↓reduceIte, hlen]
  refine ensures_bind (@ensures_fill _ _ _ _ _ _ viewAlternate (builtAlternate env index c iface i) _ ?_ _ rfl _) ?_
  · intro a alt h ha
    have hlt := (List.getElem?_eq_some_iff.mp ha).1
    rw [List.length_take] at hlt
    rw [List.getElem?_take_of_lt (by omega)] at ha
    exact usbParseAlternate_built hgrant hw hi ha h
  · rintro ⟨rval, alternates, h'⟩ ⟨h0, hview⟩
    refine ensures_pure ⟨h0, ?_⟩
    have hnum : (iface.alternates.take usbMaxaltsetting).length = min iface.alternates.length usbMaxaltsetting := by
      rw [List.length_take, Nat.min_comm]
    show (⟨_, alternates.map viewAlternate⟩ : InterfaceView) = _
    rw [hnum, show alternates.map viewAlternate = _ from hview]
    rfl

theorem parseHeader (hw : c.WellFormed) (ret : UsbCfgDescr) :
    ∃ extra, usbParseCfgDescr (c.cloud.take usbCfgDescrSize, usbCfgDescrSize) ret =
      .ok (some (9, cfgDescr c.bytes, extra)) := by
  have hle : usbCfgDescrSize ≤ c.bytes.length := hw.descr.size_le
  have htake : c.cloud.take usbCfgDescrSize = c.bytes.take usbCfgDescrSize := by
    rw [Configuration.cloud, Configuration.pieces, List.flatten_cons, List.take_append_of_le_length hle]
  have hlen : (c.bytes.take usbCfgDescrSize).length = usbCfgDescrSize := by
    rw [List.length_take]
    exact Nat.min_eq_left hle
  have hplace : (c.bytes.take usbCfgDescrSize, usbCfgDescrSize) = place [c.bytes.take usbCfgDescrSize] := by
    rw [place, List.flatten_singleton, hlen]
  have hfield {k : Nat} (hk : k < usbCfgDescrSize) : field (c.bytes.take usbCfgDescrSize) k = field c.bytes k := by
    rw [field, List.getElem?_take_of_lt hk, field]
  have hcfg : cfgDescr (c.bytes.take usbCfgDescrSize) = cfgDescr c.bytes := by
    simp only [cfgDescr, hfield (show 0 < usbCfgDescrSize by decide), hfield (show 1 < usbCfgDescrSize by decide),
      hfield (show 2 < usbCfgDescrSize by decide), hfield (show 3 < usbCfgDescrSize by decide),
      hfield (show 4 < usbCfgDescrSize by decide), hfield (show 5 < usbCfgDescrSize by decide),
      hfield (show 6 < usbCfgDescrSize by decide), hfield (show 7 < usbCfgDescrSize by decide),
      hfield (show 8 < usbCfgDescrSize by decide)]
  have htype : peek (place [c.bytes.take usbCfgDescrSize]) 1 = usbDescrTypeCfg := by
    rw [peek_place (by rw [hlen]; decide), hfield (by decide), hw.descr.type]
  obtain ⟨hsize, hfields⟩ := @decode_cfgDescr (c.bytes.take usbCfgDescrSize) [] (Nat.le_of_eq hlen.symm) ret
  have hextra : usbFindExtra (place [c.bytes.take usbCfgDescrSize]) =
      .ok ((place [c.bytes.take usbCfgDescrSize]).1.drop c.bytes.length, 0) := by
    have hbyte : byte (place [c.bytes.take usbCfgDescrSize]).1 0 = .ok c.bytes.length := by
      rw [← hplace, byte_eq_peek (by rw [hlen]; decide), hplace, peek_place (by rw [hlen]; decide), hfield (by decide),
        hw.descr.length]
    have hroom : ¬1 < (place [c.bytes.take usbCfgDescrSize]).2 - c.bytes.length := by
      rw [← hplace, Nat.sub_eq_zero_of_le hle]
      decide
    rw [usbFindExtra, hbyte]
    simp only [bind, Except.bind]
    rw [scanExtra, dif_neg hroom]
    rfl
  have htwo : 2 ≤ (place [c.bytes.take usbCfgDescrSize]).2 := by
    rw [← hplace]
    exact Nat.le_of_ble_eq_true rfl
  rw [htake, hplace, usbParseCfgDescr_eq (inside_place _) htwo htype hextra, hsize, hfields, hcfg]
  exact ⟨_, rfl⟩

theorem parseCloud_built (hgrant : ∀ k, env.grant k = true) (hw : c.WellFormed) (extra : Place) {slot : UsbConfigDescriptor}
    (hslot : slot = { UsbConfigDescriptor.zero with descr := cfgDescr c.bytes }) (h : Heap) :
    Ensures NoFault (parseCloud env index c.cloud extra slot h) fun r =>
      r.1 = 0 ∧ viewConfig r.2.1 = builtConfig env index c := by
  subst hslot
  have htotal : (cfgDescr c.bytes).wTotalLength = c.cloud.length := hw.total
  have hcount : (cfgDescr c.bytes).bNumInterfaces = c.interfaces.length := hw.count
  have hstd : StartsStandard (c.interfaces.flatMap Interface.pieces) := by
    intro r hr
    obtain ⟨iface, hiface, hr⟩ := mem_head?_flatMap hr
    obtain ⟨alt, halt, hr⟩ := mem_head?_flatMap hr
    obtain rfl : alt.bytes = r := Option.some.inj hr
    obtain ⟨i, a, alt', -, -, hmem, hwa⟩ :=
      mem_interface hiface (List.mem_flatMap.mpr ⟨alt, halt, List.mem_cons_self⟩) hw
    obtain ⟨j, hj⟩ := List.mem_iff_getElem?.mp hiface
    obtain ⟨b, hb⟩ := List.mem_iff_getElem?.mp halt
    have hwa := hw.alternates j iface hj b alt hb
    have hle := hwa.descr.size_le
    exact ⟨by omega, Or.inr (Or.inl hwa.descr.type)⟩
  have hpiece : IsPiece c.bytes := piece_of_standard hw.descr (by decide) (by decide)
  have hextra := usbFindExtra_pieces hpiece hw.extra hstd
  have htype : peek (place c.pieces) 1 = usbDescrTypeCfg := by
    rw [Configuration.pieces, peek_place hpiece.size_le, hw.descr.type]
  have htwo : 2 ≤ (place c.pieces).2 := by
    have hle := hpiece.size_le
    simp only [Configuration.pieces, place, List.flatten_cons, List.length_append]
    omega
  obtain ⟨hsize, hfields⟩ := @decode_cfgDescr c.bytes (c.extra ++ c.interfaces.flatMap Interface.pieces)
    hw.descr.size_le (cfgDescr c.bytes)
  have hheader : usbParseCfgDescr (c.cloud, (cfgDescr c.bytes).wTotalLength) (cfgDescr c.bytes) =
      .ok (some (9, cfgDescr c.bytes, ((c.extra ++ c.interfaces.flatMap Interface.pieces).flatten,
        if c.interfaces.flatMap Interface.pieces = [] then 0 else c.extra.flatten.length))) := by
    rw [htotal]
    show usbParseCfgDescr (place c.pieces) _ = _
    rw [usbParseCfgDescr_eq (inside_place _) htwo htype hextra]
    simp only [Configuration.pieces, hsize, hfields]
  rw [parseCloud]
  simp only [hheader, bind, Except.bind, Option.elim_some]
  refine ensures_bind (copyExtra_kept hgrant _ _ h) ?_
  rintro ⟨err, extra', extralen, h'⟩ ⟨herr, hcells, hlen⟩
  simp only at herr hcells hlen
  subst herr
  simp only [ne_eq, not_true_eq_false, ↓reduceIte, parseInterfaces, calloc, hgrant, hcount, htotal]
  refine ensures_bind (ensures_fill (fun i iface h hi => usbParseInterface_built hgrant hw hi h) rfl _) ?_
  rintro ⟨rval, interfaces, h''⟩ ⟨h0, hview⟩
  refine ensures_pure ⟨h0, ?_⟩
  simp only [viewConfig, builtConfig, hcells, hlen]
  exact congrArg _ hview

theorem usbParseConfig_built (hgrant : ∀ k, env.grant k = true) (hw : c.WellFormed)
    (hfirst : env.config index = .received c.cloud) (hsecond : env.cloud index = .received c.cloud) (h : Heap) :
    Ensures NoFault (usbParseConfig env index UsbConfigDescriptor.zero h) fun r =>
      r.1 = 0 ∧ viewConfig r.2.1 = builtConfig env index c := by
  have hle := hw.descr.size_le
  have hnine : (c.cloud.take usbCfgDescrSize).length = usbCfgDescrSize := by
    rw [List.length_take, Configuration.cloud, Configuration.pieces, List.flatten_cons, List.length_append]
    simp only [usbCfgDescrSize]
    omega
  have htotal : (cfgDescr c.bytes).wTotalLength = c.cloud.length := hw.total
  obtain ⟨extra, hheader⟩ := parseHeader hw UsbConfigDescriptor.zero.descr
  have hrval : ¬(env.config index).rval usbCfgDescrSize < usbCfgDescrSize := by
    simp only [hfirst, Transfer.rval, hnine]
    exact Int.lt_irrefl _
  have hcloud : (env.cloud index).rval c.cloud.length = c.cloud.length := by
    simp only [hsecond, Transfer.rval, List.take_length]
  have hbytes : (env.cloud index).bytes c.cloud.length = c.cloud := by
    simp only [hsecond, Transfer.bytes, List.take_length]
  have hread : (env.config index).bytes usbCfgDescrSize = c.cloud.take usbCfgDescrSize := by
    rw [hfirst]
    rfl
  rw [usbParseConfig, if_neg hrval, hread, hheader]
  simp only [bind, Except.bind, show ¬9 < usbCfgDescrSize by decide, ↓reduceIte, malloc, hgrant, htotal, hcloud, ne_eq,
    not_true_eq_false, hbytes]
  exact ensures_bind (parseCloud_built hgrant hw extra rfl _) fun r hr => ensures_pure hr

end Runs

end OiUserland.Libusb.Trees
