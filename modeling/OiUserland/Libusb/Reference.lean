import OiUserland.Libusb.Trees

namespace OiUserland.Libusb.Reference

open Lib.Faults Lib.LengthChains Descriptors Decoding Configs Clouds Attribution Trees

def deviceOf (c : Configuration) (stack : Nat → Nat → Nat → Nat → UsbEpDescr) : Env where
  grant := fun _ => true
  device := .failed 5
  config := fun _ => .received c.cloud
  cloud := fun _ => .received c.cloud
  stack := stack

/-- The tree that is built is the reference parse. -/
def BuildsTree (c : Configuration) (env : Env) (index : Nat) (h : Heap) : Prop :=
  ∃ r, usbParseConfig env index UsbConfigDescriptor.zero h = .ok r ∧ r.1 = 0 ∧ viewConfig r.2.1 = c.tree

/-- The clouds that are parsed as they should be: no more alternates than the array
holds, endpoint descriptors that fill the structure, and no class-specific
descriptor at the very end. -/
structure Attributable (c : Configuration) : Prop where
  alternates : ∀ iface ∈ c.interfaces, iface.alternates.length ≤ usbMaxaltsetting
  endpoints : ∀ iface ∈ c.interfaces, ∀ alt ∈ iface.alternates, ∀ e ∈ alt.endpoints, 9 ≤ e.bytes.length
  last : ∀ d ∈ c.pieces.getLast?, ¬IsClass d

section Builds

variable {c : Configuration} {iface : Interface} {alt : Alternate} {e : Endpoint} {i a n index : Nat} {env : Env}

theorem mem_getLast?_append {α : Type} {xs ys : List α} {x : α} (h : x ∈ ys.getLast?) : x ∈ (xs ++ ys).getLast? := by
  rw [List.getLast?_append]
  rw [Option.mem_def.mp h]
  rfl

theorem kept_eq (hlast : ∀ d ∈ c.pieces.getLast?, ¬IsClass d) {pre xs rest : List (List UInt8)}
    (hsplit : c.pieces = pre ++ (xs ++ rest)) (hx : ∀ x ∈ xs, IsClass x) : kept xs rest = xs.flatten := by
  by_cases hrest : rest = []
  · subst hrest
    rw [List.append_nil] at hsplit
    cases hl : xs.getLast? with
    | none =>
        rw [List.getLast?_eq_none_iff.mp hl]
        rfl
    | some x => exact absurd (hx x (List.mem_of_getLast? hl)) (hlast x (hsplit ▸ mem_getLast?_append hl))
  · exact if_neg hrest

theorem eq_nil_of_kept {xs : List (List UInt8)} (hx : ∀ x ∈ xs, IsClass x) (h : kept xs [] = xs.flatten) : xs = [] := by
  cases xs with
  | nil => rfl
  | cons x xs =>
      have hlen := congrArg List.length h
      have hle := (hx x List.mem_cons_self).size_le
      simp only [kept, ↓reduceIte, List.length_nil, List.flatten_cons, List.length_append] at hlen
      omega

theorem mapIdx_eq_map {α β : Type} {l : List α} {f : Nat → α → β} {g : α → β} :
    l.mapIdx f = l.map g ↔ ∀ i x, l[i]? = some x → f i x = g x := by
  constructor
  · intro h i x hx
    have hi := congrArg (·[i]?) h
    simp only [List.getElem?_mapIdx, List.getElem?_map, hx, Option.map_some] at hi
    exact Option.some.inj hi
  · intro h
    refine List.ext_getElem? fun i => ?_
    rw [List.getElem?_mapIdx, List.getElem?_map]
    cases hx : l[i]? with
    | none => rfl
    | some x => exact congrArg some (h i x hx)

theorem pieces_endpoint (hi : c.interfaces[i]? = some iface) (ha : iface.alternates[a]? = some alt)
    (hn : alt.endpoints[n]? = some e) :
    ∃ pre, c.pieces = pre ++ (e.extra ++ behind alt (following c iface i a) n) ∧ e.bytes ∈ pre.getLast? := by
  refine ⟨(c.bytes :: (c.extra ++ ((c.interfaces.take i).flatMap Interface.pieces ++
      (iface.alternates.take a).flatMap Alternate.pieces))) ++
    (alt.bytes :: (alt.extra ++ (alt.endpoints.take n).flatMap Endpoint.pieces)) ++ [e.bytes], ?_, ?_⟩
  · rw [pieces_split hi ha, Alternate.pieces, flatMap_split Endpoint.pieces hn]
    simp only [Endpoint.pieces, behind, List.cons_append, List.append_assoc, List.nil_append]
  · exact mem_getLast?_append rfl

theorem pieces_alternate (hi : c.interfaces[i]? = some iface) (ha : iface.alternates[a]? = some alt) :
    ∃ pre, c.pieces = pre ++ (alt.extra ++ (alt.endpoints.flatMap Endpoint.pieces ++ following c iface i a)) ∧
      alt.bytes ∈ pre.getLast? := by
  refine ⟨(c.bytes :: (c.extra ++ ((c.interfaces.take i).flatMap Interface.pieces ++
      (iface.alternates.take a).flatMap Alternate.pieces))) ++ [alt.bytes], ?_, ?_⟩
  · rw [pieces_split hi ha, Alternate.pieces]
    simp only [List.cons_append, List.append_assoc, List.nil_append]
  · exact mem_getLast?_append rfl

theorem builtEndpoint_eq (hw : c.WellFormed) (hc : Attributable c) (hi : c.interfaces[i]? = some iface)
    (ha : iface.alternates[a]? = some alt) (hn : alt.endpoints[n]? = some e) :
    builtEndpoint env index i a alt (following c iface i a) n e = e.tree := by
  have hwe := (hw.alternates i iface hi a alt ha).endpoints e (List.mem_of_getElem? hn)
  have hnine := hc.endpoints iface (List.mem_of_getElem? hi) alt (List.mem_of_getElem? ha) e (List.mem_of_getElem? hn)
  obtain ⟨pre, hpre, -⟩ := pieces_endpoint hi ha hn
  rw [builtEndpoint, decode_epDescr hnine, kept_eq hc.last hpre hwe.extra]
  rfl

theorem builtAlternate_eq (hw : c.WellFormed) (hc : Attributable c) (hi : c.interfaces[i]? = some iface)
    (ha : iface.alternates[a]? = some alt) : builtAlternate env index c iface i a alt = alt.tree := by
  have hwa := hw.alternates i iface hi a alt ha
  obtain ⟨pre, hpre, -⟩ := pieces_alternate hi ha
  have hendpoints : alt.endpoints.mapIdx (builtEndpoint env index i a alt (following c iface i a)) =
      alt.endpoints.map Endpoint.tree :=
    mapIdx_eq_map.mpr fun n e hn => builtEndpoint_eq hw hc hi ha hn
  simp only [builtAlternate, kept_eq hc.last hpre hwa.extra, hendpoints]
  rfl

theorem builtInterface_eq (hw : c.WellFormed) (hc : Attributable c) (hi : c.interfaces[i]? = some iface) :
    builtInterface env index c i iface = iface.tree := by
  have hle := hc.alternates iface (List.mem_of_getElem? hi)
  have halternates : iface.alternates.mapIdx (builtAlternate env index c iface i) = iface.alternates.map Alternate.tree :=
    mapIdx_eq_map.mpr fun a alt ha => builtAlternate_eq hw hc hi ha
  rw [builtInterface, Nat.min_eq_left hle, List.take_of_length_le hle, halternates]
  rfl

theorem builtConfig_eq (hw : c.WellFormed) (hc : Attributable c) : builtConfig env index c = c.tree := by
  have hsplit : c.pieces = [c.bytes] ++ (c.extra ++ c.interfaces.flatMap Interface.pieces) := rfl
  have hinterfaces : c.interfaces.mapIdx (builtInterface env index c) = c.interfaces.map Interface.tree :=
    mapIdx_eq_map.mpr fun i iface hi => builtInterface_eq hw hc hi
  simp only [builtConfig, kept_eq hc.last hsplit hw.extra, hinterfaces]
  rfl

end Builds

section Lost

variable {c : Configuration} {iface : Interface} {alt : Alternate} {e : Endpoint} {i a n index : Nat} {env : Env}

def ones : UsbEpDescr := ⟨1, 1, 1, 1, 1, 1, 1, 1⟩

theorem exists_seven {d : List UInt8} (h : 7 ≤ d.length) (h' : d.length < 9) :
    (∃ b0 b1 b2 b3 b4 b5 b6, d = [b0, b1, b2, b3, b4, b5, b6]) ∨
      ∃ b0 b1 b2 b3 b4 b5 b6 b7, d = [b0, b1, b2, b3, b4, b5, b6, b7] := by
  match d, h, h' with
  | [b0, b1, b2, b3, b4, b5, b6], _, _ => exact Or.inl ⟨b0, b1, b2, b3, b4, b5, b6, rfl⟩
  | [b0, b1, b2, b3, b4, b5, b6, b7], _, _ => exact Or.inr ⟨b0, b1, b2, b3, b4, b5, b6, b7, rfl⟩

theorem exists_two {r : List UInt8} (h : IsPiece r) : ∃ r0 r1 rs, r = r0 :: r1 :: rs ∧ r0.toNat = rs.length + 2 := by
  have hle := h.size_le
  have hlen := h.length
  cases r with
  | nil => cases hle
  | cons r0 r =>
      cases r with
      | nil => exact absurd hle (show ¬2 ≤ 1 by decide)
      | cons r1 rs => exact ⟨r0, r1, rs, rfl, hlen⟩

theorem decode_seven {b0 b1 b2 b3 b4 b5 b6 : UInt8} {rest : List (List UInt8)} (hrest : ∀ r ∈ rest, IsPiece r) :
    (decode sizeofEp epFormat (place ([b0, b1, b2, b3, b4, b5, b6] :: rest)) 0).1.foldl UsbEpDescr.store ones ≠
      epDescr [b0, b1, b2, b3, b4, b5, b6] := by
  intro heq
  cases rest with
  | nil =>
      have hdecode : decode sizeofEp epFormat (place [[b0, b1, b2, b3, b4, b5, b6]]) 0 =
          ([⟨0, b0.toNat⟩, ⟨1, b1.toNat⟩, ⟨2, b2.toNat⟩, ⟨3, b3.toNat⟩, ⟨4, b4.toNat + 256 * b5.toNat⟩,
            ⟨6, b6.toNat⟩], 7) := rfl
      rw [hdecode] at heq
      have hone : (1 : Nat) = 0 := congrArg UsbEpDescr.bSynchAddress heq
      exact absurd hone (by decide)
  | cons r rest =>
      obtain ⟨r0, r1, rs, rfl, hr0⟩ := exists_two (hrest r List.mem_cons_self)
      have hlen : 9 ≤ (place ([b0, b1, b2, b3, b4, b5, b6] :: (r0 :: r1 :: rs) :: rest)).2 := by
        simp only [place, List.flatten_cons, List.length_append, List.length_cons, List.length_nil]
        omega
      have hdecode := @decode_ep b0 b1 b2 b3 b4 b5 b6 r0 r1 (rs ++ rest.flatten) _ hlen
      rw [show decode sizeofEp epFormat (place ([b0, b1, b2, b3, b4, b5, b6] :: _)) 0 = _ from hdecode] at heq
      have hzero : r0.toNat = 0 := congrArg UsbEpDescr.bRefresh heq
      omega

theorem decode_eight {b0 b1 b2 b3 b4 b5 b6 b7 : UInt8} {rest : List (List UInt8)} (hrest : ∀ r ∈ rest, IsPiece r) :
    (decode sizeofEp epFormat (place ([b0, b1, b2, b3, b4, b5, b6, b7] :: rest)) 0).1.foldl UsbEpDescr.store ones ≠
      epDescr [b0, b1, b2, b3, b4, b5, b6, b7] := by
  intro heq
  cases rest with
  | nil =>
      have hdecode : decode sizeofEp epFormat (place [[b0, b1, b2, b3, b4, b5, b6, b7]]) 0 =
          ([⟨0, b0.toNat⟩, ⟨1, b1.toNat⟩, ⟨2, b2.toNat⟩, ⟨3, b3.toNat⟩, ⟨4, b4.toNat + 256 * b5.toNat⟩,
            ⟨6, b6.toNat⟩, ⟨7, b7.toNat⟩], 8) := rfl
      rw [hdecode] at heq
      have hone : (1 : Nat) = 0 := congrArg UsbEpDescr.bSynchAddress heq
      exact absurd hone (by decide)
  | cons r rest =>
      obtain ⟨r0, r1, rs, rfl, hr0⟩ := exists_two (hrest r List.mem_cons_self)
      have hlen : 9 ≤ (place ([b0, b1, b2, b3, b4, b5, b6, b7] :: (r0 :: r1 :: rs) :: rest)).2 := by
        simp only [place, List.flatten_cons, List.length_append, List.length_cons, List.length_nil]
        omega
      have hdecode := @decode_ep b0 b1 b2 b3 b4 b5 b6 b7 r0 (r1 :: rs ++ rest.flatten) _ hlen
      rw [show decode sizeofEp epFormat (place ([b0, b1, b2, b3, b4, b5, b6, b7] :: _)) 0 = _ from hdecode] at heq
      have hzero : r0.toNat = 0 := congrArg UsbEpDescr.bSynchAddress heq
      omega

theorem nine_le_of_decode {d : List UInt8} {rest : List (List UInt8)} (hd : 7 ≤ d.length) (hrest : ∀ r ∈ rest, IsPiece r)
    (heq : (decode sizeofEp epFormat (place (d :: rest)) 0).1.foldl UsbEpDescr.store ones = epDescr d) : 9 ≤ d.length := by
  by_contra hshort
  rcases exists_seven hd (Nat.not_le.mp hshort) with ⟨b0, b1, b2, b3, b4, b5, b6, rfl⟩ | ⟨b0, b1, b2, b3, b4, b5, b6, b7, rfl⟩
  · exact decode_seven hrest heq
  · exact decode_eight hrest heq

theorem built_interface (h : builtConfig env index c = c.tree) (hi : c.interfaces[i]? = some iface) :
    builtInterface env index c i iface = iface.tree :=
  mapIdx_eq_map.mp (congrArg ConfigView.interfaces h) i iface hi

theorem alternates_le (h : builtConfig env index c = c.tree) (hi : c.interfaces[i]? = some iface) :
    iface.alternates.length ≤ usbMaxaltsetting := by
  have hnum : min iface.alternates.length usbMaxaltsetting = iface.alternates.length :=
    congrArg InterfaceView.numAltsetting (built_interface h hi)
  omega

theorem built_alternate (h : builtConfig env index c = c.tree) (hi : c.interfaces[i]? = some iface)
    (ha : iface.alternates[a]? = some alt) : builtAlternate env index c iface i a alt = alt.tree := by
  have hview : (iface.alternates.take usbMaxaltsetting).mapIdx (builtAlternate env index c iface i) =
      iface.alternates.map Alternate.tree := congrArg InterfaceView.alternates (built_interface h hi)
  rw [List.take_of_length_le (alternates_le h hi)] at hview
  exact mapIdx_eq_map.mp hview a alt ha

theorem built_endpoint (h : builtConfig env index c = c.tree) (hi : c.interfaces[i]? = some iface)
    (ha : iface.alternates[a]? = some alt) (hn : alt.endpoints[n]? = some e) :
    builtEndpoint env index i a alt (following c iface i a) n e = e.tree :=
  mapIdx_eq_map.mp (congrArg AlternateView.endpoints (built_alternate h hi ha)) n e hn

theorem endpoints_long (hw : c.WellFormed) (h : builtConfig env index c = c.tree) (hs : ∀ i a n, env.stack index i a n = ones)
    (hi : c.interfaces[i]? = some iface) (ha : iface.alternates[a]? = some alt) (hn : alt.endpoints[n]? = some e) :
    9 ≤ e.bytes.length := by
  have hwe := (hw.alternates i iface hi a alt ha).endpoints e (List.mem_of_getElem? hn)
  have hdescr := congrArg EndpointView.descr (built_endpoint h hi ha hn)
  simp only [builtEndpoint, hs] at hdescr
  obtain ⟨pre, hpre, -⟩ := pieces_endpoint hi ha hn
  have hrest : ∀ r ∈ e.extra ++ behind alt (following c iface i a) n, IsPiece r := fun r hr =>
    pieces_all hw r (hpre ▸ List.mem_append_right pre hr)
  exact nine_le_of_decode hwe.descr.size_le hrest hdescr

theorem last_standard (hw : c.WellFormed) (h : builtConfig env index c = c.tree) : ∀ d ∈ c.pieces.getLast?, ¬IsClass d := by
  intro d hd hclass
  rcases List.eq_nil_or_concat c.interfaces with hnil | ⟨ifaces, iface, hlast⟩
  · have hkept : kept c.extra [] = c.extra.flatten := by
      have hextra := congrArg ConfigView.extra h
      simp only [builtConfig, hnil, List.flatMap_nil] at hextra
      exact hextra
    rw [Configuration.pieces, hnil, eq_nil_of_kept hw.extra hkept] at hd
    obtain rfl : c.bytes = d := Option.some.inj hd
    exact hclass.not_cfg hw.descr.type
  · rw [List.concat_eq_append] at hlast
    have hi : c.interfaces[ifaces.length]? = some iface := by
      rw [hlast, List.getElem?_concat_length]
    rcases List.eq_nil_or_concat iface.alternates with hnil | ⟨alts, alt, halts⟩
    · exact hw.nonempty iface (List.mem_of_getElem? hi) hnil
    · rw [List.concat_eq_append] at halts
      have ha : iface.alternates[alts.length]? = some alt := by
        rw [halts, List.getElem?_concat_length]
      have hfollowing : following c iface ifaces.length alts.length = [] := by
        rw [following, hlast, halts, List.drop_of_length_le (by simp), List.drop_of_length_le (by simp)]
        rfl
      have hwa := hw.alternates _ iface hi _ alt ha
      rcases List.eq_nil_or_concat alt.endpoints with hnil | ⟨es, e, hes⟩
      · obtain ⟨pre, hpre, hlastpre⟩ := pieces_alternate hi ha
        have hextra := congrArg AlternateView.extra (built_alternate h hi ha)
        simp only [builtAlternate, hnil, List.flatMap_nil, hfollowing, List.append_nil] at hextra
        rw [hnil, hfollowing, eq_nil_of_kept hwa.extra hextra] at hpre
        rw [hpre, List.flatMap_nil, List.append_nil, List.append_nil, List.append_nil] at hd
        obtain rfl : alt.bytes = d := Option.some.inj (hlastpre.symm.trans hd)
        exact hclass.not_if hwa.descr.type
      · rw [List.concat_eq_append] at hes
        have hn : alt.endpoints[es.length]? = some e := by
          rw [hes, List.getElem?_concat_length]
        have hwe := hwa.endpoints e (List.mem_of_getElem? hn)
        have hbehind : behind alt (following c iface ifaces.length alts.length) es.length = [] := by
          rw [behind, hfollowing, hes, List.drop_of_length_le (by simp)]
          rfl
        obtain ⟨pre, hpre, hlastpre⟩ := pieces_endpoint hi ha hn
        have hextra := congrArg EndpointView.extra (built_endpoint h hi ha hn)
        simp only [builtEndpoint, hbehind] at hextra
        rw [hbehind, eq_nil_of_kept hwe.extra hextra, List.append_nil, List.append_nil] at hpre
        rw [hpre] at hd
        obtain rfl : e.bytes = d := Option.some.inj (hlastpre.symm.trans hd)
        exact hclass.not_ep hwe.descr.type

end Lost

section Claim

variable {c : Configuration}

theorem buildsTree_iff (hw : c.WellFormed) (stack : Nat → Nat → Nat → Nat → UsbEpDescr) (index : Nat) (h : Heap) :
    BuildsTree c (deviceOf c stack) index h ↔ builtConfig (deviceOf c stack) index c = c.tree := by
  obtain ⟨r, hrun, h0, hview⟩ := exists_of_noFault
    (@usbParseConfig_built c (deviceOf c stack) index (fun _ => rfl) hw rfl rfl h)
  constructor
  · rintro ⟨r', hrun', -, hview'⟩
    obtain rfl : r = r' := Except.ok.inj (hrun.symm.trans hrun')
    exact hview.symm.trans hview'
  · intro heq
    exact ⟨r, hrun, h0, hview.trans heq⟩

/-- The tree that is built for a well-formed cloud is the reference parse, whatever is on
the stack, if and only if the cloud is attributable. -/
theorem buildsTree_all_iff (hw : c.WellFormed) (index : Nat) (h : Heap) :
    (∀ stack, BuildsTree c (deviceOf c stack) index h) ↔ Attributable c := by
  constructor
  · intro hall
    have hbuilt := (buildsTree_iff hw (fun _ _ _ _ => ones) index h).mp (hall _)
    constructor
    · intro iface hiface
      obtain ⟨i, hi⟩ := List.mem_iff_getElem?.mp hiface
      exact alternates_le hbuilt hi
    · intro iface hiface alt halt e he
      obtain ⟨i, hi⟩ := List.mem_iff_getElem?.mp hiface
      obtain ⟨a, ha⟩ := List.mem_iff_getElem?.mp halt
      obtain ⟨n, hn⟩ := List.mem_iff_getElem?.mp he
      exact endpoints_long hw hbuilt (fun _ _ _ => rfl) hi ha hn
    · exact last_standard hw hbuilt
  · intro hc stack
    exact (buildsTree_iff hw stack index h).mpr (builtConfig_eq hw hc)

def simple (total : UInt8) (endpoints : List Endpoint) : Configuration where
  bytes := [9, 2, total, 0, 1, 1, 0, 128, 50]
  extra := []
  interfaces := [⟨[⟨[9, 4, 0, 0, UInt8.ofNat endpoints.length, 1, 2, 0, 0], [], endpoints⟩]⟩]

theorem simple_wellFormed {total : UInt8} {endpoints : List Endpoint} (hlen : endpoints.length < 256)
    (htotal : total.toNat = (simple total endpoints).cloud.length) (he : ∀ e ∈ endpoints, e.WellFormed) :
    (simple total endpoints).WellFormed := by
  refine ⟨⟨Nat.le_refl 9, rfl, rfl⟩, htotal, rfl, nofun, ?_, ?_⟩
  · intro iface hiface
    obtain rfl := List.mem_singleton.mp hiface
    exact List.cons_ne_nil _ _
  · rintro (_ | i) iface hi
    · obtain rfl := Option.some.inj hi
      rintro (_ | a) alt ha
      · obtain rfl := Option.some.inj ha
        exact ⟨⟨Nat.le_refl 9, rfl, rfl⟩, rfl, rfl, UInt8.toNat_ofNat_of_lt hlen, nofun, he⟩
      · cases ha
    · cases hi

/-- An endpoint descriptor of nine bytes leaves nothing to its neighbours. -/
theorem buildsTree_simple :
    (simple 27 [⟨[9, 5, 129, 1, 64, 0, 1, 0, 0], []⟩]).WellFormed ∧
      ∀ stack, BuildsTree (simple 27 [⟨[9, 5, 129, 1, 64, 0, 1, 0, 0], []⟩])
        (deviceOf (simple 27 [⟨[9, 5, 129, 1, 64, 0, 1, 0, 0], []⟩]) stack) 0 ⟨0, [], []⟩ := by
  have hw := @simple_wellFormed 27 [⟨[9, 5, 129, 1, 64, 0, 1, 0, 0], []⟩] (by decide) (by decide)
    (by
      intro e he
      obtain rfl := List.mem_singleton.mp he
      exact ⟨⟨by decide, rfl, rfl⟩, nofun⟩)
  refine ⟨hw, (buildsTree_all_iff hw 0 ⟨0, [], []⟩).mpr ⟨?_, ?_, ?_⟩⟩
  · intro iface hiface
    obtain rfl := List.mem_singleton.mp hiface
    decide
  · intro iface hiface alt halt e he
    obtain rfl := List.mem_singleton.mp hiface
    obtain rfl := List.mem_singleton.mp halt
    obtain rfl := List.mem_singleton.mp he
    decide
  · intro d hd hclass
    obtain rfl := Option.some.inj hd
    exact hclass.not_ep rfl

/-- Two endpoint descriptors of seven bytes: the first one takes its last two fields from
the second one. -/
theorem not_all_buildsTree :
    ¬∀ (c : Configuration) (stack : Nat → Nat → Nat → Nat → UsbEpDescr), c.WellFormed →
      BuildsTree c (deviceOf c stack) 0 ⟨0, [], []⟩ := by
  intro hall
  have hw := @simple_wellFormed 32 [⟨[7, 5, 129, 2, 64, 0, 0], []⟩, ⟨[7, 5, 2, 2, 64, 0, 0], []⟩] (by decide) (by decide)
    (by
      intro e he
      rcases List.mem_cons.mp he with rfl | he
      · exact ⟨⟨by decide, rfl, rfl⟩, nofun⟩
      · obtain rfl := List.mem_singleton.mp he
        exact ⟨⟨by decide, rfl, rfl⟩, nofun⟩)
  have hbuilt := (buildsTree_iff hw (fun _ _ _ _ => ones) 0 ⟨0, [], []⟩).mp (hall _ _ hw)
  have hlong := @endpoints_long _ _ _ ⟨[7, 5, 129, 2, 64, 0, 0], []⟩ 0 0 0 0 _ hw hbuilt (fun _ _ _ => rfl) rfl rfl rfl
  exact absurd hlong (by decide)

end Claim

end OiUserland.Libusb.Reference
