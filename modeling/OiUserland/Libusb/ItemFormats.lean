import OiUserland.Libusb.Decoding
import Mathlib.Data.List.TakeWhile

namespace OiUserland.Libusb.ItemFormats

open Lib.Faults Descriptors Decoding

inductive Item
  | c
  | s
  | l
  | L
  deriving DecidableEq

def Item.fmt : Item → Char
  | c => 'c'
  | s => 's'
  | l => 'l'
  | L => 'L'

def Item.size : Item → Nat
  | c => 1
  | s => 2
  | l => 4
  | L => 8

structure Group where
  count : List Char
  item : Item
  digits : ∀ d ∈ count, d.isDigit

def Group.repeats (g : Group) : Nat := Nat.ofDigitChars 10 g.count 0

def Group.text (g : Group) : List Char := g.count ++ [g.item.fmt]

def Group.items (g : Group) : List Item := List.replicate (max g.repeats 1) g.item

def text (groups : List Group) : List Char := groups.flatMap Group.text

def items (groups : List Group) : List Item := groups.flatMap Group.items

structure Slot where
  item : Item
  source : Nat
  offset : Nat
  deriving DecidableEq

def Slot.stop (s : Slot) : Nat := s.offset + s.item.size

def slots (structlen datalen : Nat) : List Item → Nat → Nat → List Slot
  | [], _, _ => []
  | i :: is, source, offset =>
      if source + i.size ≤ datalen ∧ align i.size offset + i.size ≤ structlen then
        ⟨i, source, align i.size offset⟩ ::
          slots structlen datalen is (source + i.size) (align i.size offset + i.size)
      else []

def Slot.bytes (data : List UInt8) (s : Slot) : List Nat := itemBytes s.item.size (data.drop s.source)

def Slot.value (data : List UInt8) (s : Slot) : Nat := littleEndian (s.bytes data)

def Slot.store (data : List UInt8) (s : Slot) : Store := ⟨s.offset, s.value data⟩

def stopOf (offset : Nat) (ss : List Slot) : Nat := (ss.getLast?.map Slot.stop).getD offset

def placed (groups : List Group) (data : List UInt8) (structlen : Nat) : List Slot :=
  slots structlen data.length (items groups) 0 0

/-- The run ends without an access outside of the data, and every item that fits is stored with
its value in its aligned place, inside of the structure. -/
def Parses (groups : List Group) (data : List UInt8) (structlen : Nat) : Prop :=
  usbParseData (text groups) (data, data.length) structlen =
      .ok ((placed groups data structlen).map (Slot.store data), stopOf 0 (placed groups data structlen)) ∧
    ∀ s ∈ placed groups data structlen, s.source + s.item.size ≤ data.length ∧ s.stop ≤ structlen ∧
      s.item.size ∣ s.offset

structure Regular (groups : List Group) (data : List UInt8) (structlen : Nat) : Prop where
  room : ∀ s ∈ placed groups data structlen, s.item = .L → s.stop ≠ structlen
  values : ∀ s ∈ placed groups data structlen, s.item = .L → s.value data < 2 ^ 31 ∨ 2 ^ 64 - 2 ^ 31 ≤ s.value data
  counts : ∀ pre g post, groups = pre ++ g :: post → (placed pre data structlen).length = (items pre).length →
    (items pre).length < structlen → g.repeats < 2 ^ 31

section Places

variable {size offset structlen datalen source : Nat} {i : Item} {is js : List Item} {s : Slot}

theorem Item.size_pos (i : Item) : 0 < i.size := by
  cases i <;> decide

theorem itemSize_fmt (i : Item) : itemSize i.fmt = some i.size := by
  cases i <;> rfl

theorem fmt_eq_L : i.fmt = 'L' ↔ i = .L := by
  cases i <;> decide

theorem le_align (h : 0 < size) : offset ≤ align size offset := by
  have hmod := Nat.mod_lt (offset + size - 1) h
  have hdiv := Nat.div_add_mod (offset + size - 1) size
  rw [Nat.mul_comm] at hdiv
  rw [align]
  omega

theorem dvd_align (size offset : Nat) : size ∣ align size offset := Nat.dvd_mul_left ..

theorem slots_inside (h : s ∈ slots structlen datalen is source offset) :
    s.source + s.item.size ≤ datalen ∧ s.stop ≤ structlen ∧ s.item.size ∣ s.offset := by
  induction is generalizing source offset with
  | nil => cases h
  | cons i is ih =>
      rw [slots] at h
      split at h
      · next hfit =>
          rcases List.mem_cons.mp h with rfl | h
          · exact ⟨hfit.1, hfit.2, dvd_align ..⟩
          · exact ih h
      · cases h

theorem slots_append (h : s ∈ slots structlen datalen is source offset) :
    s ∈ slots structlen datalen (is ++ js) source offset := by
  induction is generalizing source offset with
  | nil => cases h
  | cons i is ih =>
      rw [slots] at h
      rw [List.cons_append, slots]
      split at h
      · next hfit =>
          rw [if_pos hfit]
          rcases List.mem_cons.mp h with rfl | h
          · exact List.mem_cons_self
          · exact List.mem_cons_of_mem _ (ih h)
      · cases h

theorem stopOf_cons (s : Slot) (ss : List Slot) : stopOf offset (s :: ss) = stopOf s.stop ss := by
  cases ss with
  | nil => rfl
  | cons t ss =>
      rw [stopOf, stopOf, List.getLast?_cons_cons, List.getLast?_cons]
      rfl

end Places

section Items

variable {structlen datalen source offset k : Nat} {data : List UInt8} {stores : List Store} {i : Item}
    {is js : List Item}
  {c : Cursor}

def storeItems (structlen : Nat) : List Item → Cursor → Run (Cursor × Bool)
  | [], c => pure (c, true)
  | i :: is, c =>
      if structlen < c.counter then pure (c, false)
      else do
        match ← parseItem i.fmt i.size structlen { c with counter := c.counter + 1 } with
        | none => pure (c, false)
        | some c => storeItems structlen is c

theorem storeItems_replicate (i : Item) (n : Nat) (c : Cursor) :
    parseItems i.fmt i.size structlen n c = storeItems structlen (List.replicate n i) c := by
  induction n generalizing c with
  | zero => rfl
  | succ n ih =>
      rw [List.replicate_succ, parseItems, storeItems]
      by_cases hcount : structlen < c.counter
      · rw [if_pos hcount, if_pos hcount]
      · rw [if_neg hcount, if_neg hcount]
        cases parseItem i.fmt i.size structlen { c with counter := c.counter + 1 } with
        | error e => rfl
        | ok r =>
            cases r with
            | none => rfl
            | some c => exact ih c

theorem storeItems_append (is js : List Item) (c : Cursor) :
    storeItems structlen (is ++ js) c =
      storeItems structlen is c >>= fun r => if r.2 then storeItems structlen js r.1 else pure r := by
  induction is generalizing c with
  | nil => rfl
  | cons i is ih =>
      rw [List.cons_append, storeItems, storeItems]
      by_cases hcount : structlen < c.counter
      · rw [if_pos hcount, if_pos hcount]
        rfl
      · rw [if_neg hcount, if_neg hcount]
        cases parseItem i.fmt i.size structlen { c with counter := c.counter + 1 } with
        | error e => rfl
        | ok r =>
            cases r with
            | none => rfl
            | some c => exact ih c

def goesOn (structlen : Nat) (s : Slot) : Bool := ¬ (s.item = .L ∧ s.stop = structlen)

def Slot.codeStore (data : List UInt8) (s : Slot) : Store := ⟨s.offset, itemValue s.item.fmt (s.bytes data)⟩

theorem fits_iff : Fits i.fmt i.size structlen (datalen - source) offset ↔
    (source + i.size ≤ datalen ∧ align i.size offset + i.size ≤ structlen) ∧
      goesOn structlen ⟨i, source, align i.size offset⟩ := by
  have hpos := i.size_pos
  have hroom : i.size ≤ datalen - source ↔ source + i.size ≤ datalen := by omega
  rw [Fits, goesOn, decide_eq_true_iff, fmt_eq_L, hroom, and_assoc, Slot.stop, eq_comm (a := structlen)]

theorem parseItem_eq :
    parseItem i.fmt i.size structlen ⟨data.drop source, data.length - source, offset, k, stores⟩ =
      .ok (if Fits i.fmt i.size structlen (data.length - source) offset then
        some ⟨data.drop (source + i.size), data.length - (source + i.size), align i.size offset + i.size, k,
          stores ++ [Slot.codeStore data ⟨i, source, align i.size offset⟩]⟩
      else none) := by
  rw [parseItem]
  by_cases hfit : Fits i.fmt i.size structlen (data.length - source) offset
  · have hnot : ¬ (data.length - source < i.size ∨ structlen < align i.size offset + i.size ∨
        (i.fmt = 'L' ∧ structlen = align i.size offset + i.size)) := by
      rintro (h | h | h)
      · exact Nat.not_le.mpr h hfit.1
      · exact Nat.not_le.mpr h hfit.2.1
      · exact hfit.2.2 h
    have hread : readBytes (data.drop source) i.size = .ok (itemBytes i.size (data.drop source)) :=
      readBytes_eq (by rw [List.length_drop]; exact hfit.1)
    rw [if_neg hnot, hread, if_pos hfit, Nat.sub_add_eq, ← List.drop_drop]
    rfl
  · have hnot : data.length - source < i.size ∨ structlen < align i.size offset + i.size ∨
        (i.fmt = 'L' ∧ structlen = align i.size offset + i.size) := by
      by_contra hno
      simp only [not_or, Nat.not_lt] at hno
      exact hfit hno
    rw [if_pos hnot, if_neg hfit]
    rfl

def taken (structlen : Nat) (ss : List Slot) : List Slot := ss.takeWhile (goesOn structlen)

theorem taken_eq_self {ss : List Slot} (h : ∀ s ∈ ss, s.item = .L → s.stop ≠ structlen) :
    taken structlen ss = ss := by
  refine List.takeWhile_eq_self_iff.mpr fun s hs => ?_
  rw [goesOn, decide_eq_true_iff]
  exact fun hL => h s hs hL.1 hL.2

theorem storeItems_eq (source : Nat) (stores : List Store) (hk : k ≤ offset) :
    ∃ c more,
      storeItems structlen is ⟨data.drop source, data.length - source, offset, k + 1, stores⟩ = .ok (c, more) ∧
      c.stores = stores ++
        (taken structlen (slots structlen data.length is source offset)).map (Slot.codeStore data) ∧
      c.structure_ = stopOf offset (taken structlen (slots structlen data.length is source offset)) ∧
      (more = true ↔ (taken structlen (slots structlen data.length is source offset)).length = is.length) ∧
      (more = true → c.counter = k + is.length + 1) := by
  induction is generalizing source offset k stores with
  | nil => exact ⟨_, true, rfl, (List.append_nil _).symm, rfl, by simp [slots, taken], fun _ => rfl⟩
  | cons i is ih =>
      have hpos := i.size_pos
      have hle : offset ≤ align i.size offset := le_align hpos
      rw [storeItems]
      by_cases hfit : Fits i.fmt i.size structlen (data.length - source) offset
      · have hstore := fits_iff.mp hfit
        have hcount : ¬ structlen < k + 1 := by
          have hroom := hstore.1.2
          omega
        have hk' : k + 1 ≤ align i.size offset + i.size := by omega
        obtain ⟨c, more, hrun, hstores, hstop, hmore, hcounter⟩ :=
          ih (source + i.size) (stores ++ [Slot.codeStore data ⟨i, source, align i.size offset⟩]) hk'
        rw [if_neg hcount, parseItem_eq, if_pos hfit, slots, if_pos hstore.1, taken,
          List.takeWhile_cons_of_pos hstore.2]
        refine ⟨c, more, hrun, ?_, ?_, ?_, ?_⟩
        · rw [hstores, List.append_assoc]
          rfl
        · rw [hstop, stopOf_cons]
          rfl
        · rw [hmore, List.length_cons, List.length_cons, Nat.succ_inj]
          rfl
        · intro hm
          rw [hcounter hm, List.length_cons]
          omega
      · have hnone : taken structlen (slots structlen data.length (i :: is) source offset) = [] := by
          rw [taken, slots]
          split
          · next hroom => exact List.takeWhile_cons_of_neg fun hgo => hfit (fits_iff.mpr ⟨hroom, hgo⟩)
          · rfl
        rw [hnone]
        refine ⟨⟨data.drop source, data.length - source, offset, k + 1, stores⟩, false, ?_,
          (List.append_nil _).symm, rfl,
          ?_, nofun⟩
        · split
          · rfl
          · rw [parseItem_eq, if_neg hfit]
            rfl
        · exact iff_of_false nofun nofun

end Items

section Texts

variable {structlen : Nat} {g : Group} {groups pre post : List Group} {rest count : List Char} {c c' : Cursor}
  {multiplier : Nat} {fmt : Char}

theorem itemSize_digit (h : fmt.isDigit) : itemSize fmt = none := by
  rw [itemSize]
  all_goals
    rintro rfl
    exact absurd h (by decide)

theorem le_ofDigitChars (count : List Char) (n : Nat) : n ≤ Nat.ofDigitChars 10 count n := by
  induction count generalizing n with
  | nil => exact Nat.le_refl n
  | cons d ds ih =>
      rw [Nat.ofDigitChars_cons]
      exact Nat.le_trans (by omega) (ih _)

theorem parseFormat_digits (hdigits : ∀ d ∈ count, d.isDigit) (hcount : c.counter ≤ structlen)
    (hm : multiplier < 2 ^ 31) :
    parseFormat structlen (count ++ rest) multiplier c =
      if Nat.ofDigitChars 10 count multiplier < 2 ^ 31 then
        parseFormat structlen rest (Nat.ofDigitChars 10 count multiplier) c
      else .error .overflow := by
  induction count generalizing multiplier with
  | nil => exact (if_pos hm).symm
  | cons d ds ih =>
      have hdigit := hdigits d List.mem_cons_self
      have hmul : multiplier * 10 + (d.toNat - '0'.toNat) = 10 * multiplier + (d.toNat - '0'.toNat) := by
        rw [Nat.mul_comm]
      simp only [List.cons_append, parseFormat, itemSize_digit hdigit, Nat.ofDigitChars_cons, hmul]
      rw [if_pos ⟨hdigit, Nat.not_lt.mpr hcount⟩]
      by_cases hlt : 10 * multiplier + (d.toNat - '0'.toNat) < 2 ^ 31
      · rw [if_pos hlt]
        exact ih (fun x hx => hdigits x (List.mem_cons_of_mem _ hx)) hlt
      · have hle := le_ofDigitChars ds (10 * multiplier + (d.toNat - '0'.toNat))
        rw [if_neg hlt, if_neg (by omega)]

theorem parseFormat_item (i : Item) : parseFormat structlen (i.fmt :: rest) multiplier c =
    storeItems structlen (List.replicate (max multiplier 1) i) c >>= fun r =>
      if r.2 then parseFormat structlen rest 0 r.1 else pure r.1 := by
  simp only [parseFormat, itemSize_fmt, storeItems_replicate]

theorem storeItems_full (h : structlen < c.counter) (g : Group) :
    storeItems structlen g.items c = pure (c, false) := by
  have hitems : g.items = g.item :: List.replicate (max g.repeats 1 - 1) g.item := by
    rw [Group.items, ← List.replicate_succ]
    congr 1
    omega
  rw [hitems, storeItems, if_pos h]

theorem parseFormat_group (h : c.counter ≤ structlen → g.repeats < 2 ^ 31) :
    parseFormat structlen (g.text ++ rest) 0 c =
    storeItems structlen g.items c >>= fun r => if r.2 then parseFormat structlen rest 0 r.1 else pure r.1 := by
  rw [Group.text, List.append_assoc, List.singleton_append]
  by_cases hcount : c.counter ≤ structlen
  · rw [parseFormat_digits g.digits hcount (by decide)]
    exact (if_pos (h hcount)).trans (parseFormat_item g.item)
  · rw [storeItems_full (Nat.not_le.mp hcount)]
    cases hdigits : g.count with
    | nil =>
        rw [List.nil_append, parseFormat_item]
        exact congrArg (· >>= _) (if_pos (Nat.not_le.mp hcount))
    | cons d ds =>
        have hdigit := g.digits d (hdigits ▸ List.mem_cons_self)
        simp only [List.cons_append, parseFormat, itemSize_digit hdigit]
        exact if_neg fun hgo => hgo.2 (Nat.not_le.mp hcount)

theorem parseFormat_overflow (hcount : c.counter ≤ structlen) (h : ¬ g.repeats < 2 ^ 31) :
    parseFormat structlen (g.text ++ rest) 0 c = .error .overflow := by
  rw [Group.text, List.append_assoc, parseFormat_digits g.digits hcount (by decide)]
  exact if_neg h

def CountsRead (structlen : Nat) (groups : List Group) (c : Cursor) : Prop :=
  ∀ pre g post c', groups = pre ++ g :: post → storeItems structlen (items pre) c = .ok (c', true) →
    c'.counter ≤ structlen → g.repeats < 2 ^ 31

theorem parseFormat_text (h : CountsRead structlen groups c) : parseFormat structlen (text groups) 0 c =
    storeItems structlen (items groups) c >>= fun r => pure r.1 := by
  induction groups generalizing c with
  | nil => rfl
  | cons g gs ih =>
      have hitems : items (g :: gs) = g.items ++ items gs := List.flatMap_cons
      have htext : text (g :: gs) = g.text ++ text gs := List.flatMap_cons
      rw [htext, hitems, parseFormat_group (h [] g gs c rfl rfl), storeItems_append]
      cases hrun : storeItems structlen g.items c with
      | error e => rfl
      | ok r =>
          obtain ⟨c', more⟩ := r
          cases more with
          | false => rfl
          | true =>
              refine ih fun pre g' post c'' hgroups hpre => h (g :: pre) g' post c'' (congrArg (g :: ·) hgroups) ?_
              have hitems : items (g :: pre) = g.items ++ items pre := List.flatMap_cons
              rw [hitems, storeItems_append, hrun]
              exact hpre

theorem parseFormat_fails (hpre : storeItems structlen (items pre) c = .ok (c', true))
    (hcount : c'.counter ≤ structlen)
    (h : ¬ g.repeats < 2 ^ 31) : parseFormat structlen (text (pre ++ g :: post)) 0 c = .error .overflow := by
  induction pre generalizing c with
  | nil =>
      obtain rfl : c = c' := congrArg Prod.fst (Except.ok.inj hpre)
      have htext : text ([] ++ g :: post) = g.text ++ text post := List.flatMap_cons
      rw [htext]
      exact parseFormat_overflow hcount h
  | cons g' gs ih =>
      have htext : text (g' :: gs ++ g :: post) = g'.text ++ text (gs ++ g :: post) := List.flatMap_cons
      have hitems : items (g' :: gs) = g'.items ++ items gs := List.flatMap_cons
      rw [htext]
      by_cases hfirst : c.counter ≤ structlen → g'.repeats < 2 ^ 31
      · rw [hitems, storeItems_append] at hpre
        obtain ⟨⟨c₁, more⟩, hrun, hpre⟩ := bind_eq_ok.mp hpre
        cases more with
        | false => cases hpre
        | true =>
            rw [parseFormat_group hfirst, hrun]
            exact ih hpre
      · simp only [Classical.not_imp] at hfirst
        exact parseFormat_overflow hfirst.1 hfirst.2

end Texts

section Values

variable {data : List UInt8} {s : Slot}

theorem littleEndian_append (xs ys : List Nat) :
    littleEndian (xs ++ ys) = littleEndian xs + 256 ^ xs.length * littleEndian ys := by
  induction xs with
  | nil => simp [littleEndian]
  | cons x xs ih =>
      rw [List.cons_append, littleEndian, littleEndian, ih, List.length_cons, Nat.pow_succ, Nat.mul_add,
        ← Nat.mul_assoc, Nat.mul_comm 256 (256 ^ xs.length), Nat.add_assoc]

theorem littleEndian_lt {xs : List Nat} (h : ∀ x ∈ xs, x < 256) : littleEndian xs < 256 ^ xs.length := by
  induction xs with
  | nil => exact Nat.one_pos
  | cons x xs ih =>
      have hx := h x List.mem_cons_self
      have hxs := ih fun y hy => h y (List.mem_cons_of_mem _ hy)
      rw [littleEndian, List.length_cons, Nat.pow_succ]
      omega

theorem bytes_lt {x : Nat} (h : x ∈ s.bytes data) : x < 256 := by
  obtain ⟨b, -, rfl⟩ := List.mem_map.mp h
  exact b.toNat_lt

theorem bytes_length (h : s.source + s.item.size ≤ data.length) : (s.bytes data).length = s.item.size := by
  rw [Slot.bytes, itemBytes, List.length_map, List.length_take, List.length_drop]
  omega

theorem codeStore_eq_iff (h : s.source + s.item.size ≤ data.length) :
    s.codeStore data = s.store data ↔ (s.item = .L → s.value data < 2 ^ 31 ∨ 2 ^ 64 - 2 ^ 31 ≤ s.value data) := by
  have hstore : s.codeStore data = s.store data ↔ itemValue s.item.fmt (s.bytes data) = s.value data :=
    ⟨congrArg Store.value, fun hvalue => congrArg (Store.mk s.offset) hvalue⟩
  rw [hstore, itemValue]
  by_cases hL : s.item = .L
  · rw [if_pos (fmt_eq_L.mpr hL), imp_iff_right hL]
    have hlength : (s.bytes data).length = 8 := (bytes_length h).trans (congrArg Item.size hL)
    have hlow : littleEndian ((s.bytes data).take 4) < 256 ^ ((s.bytes data).take 4).length :=
      littleEndian_lt fun x hx => bytes_lt (List.mem_of_mem_take hx)
    have hhigh : littleEndian ((s.bytes data).drop 4) < 256 ^ ((s.bytes data).drop 4).length :=
      littleEndian_lt fun x hx => bytes_lt (List.mem_of_mem_drop hx)
    have hvalue : s.value data = littleEndian ((s.bytes data).take 4) +
        256 ^ ((s.bytes data).take 4).length * littleEndian ((s.bytes data).drop 4) := by
      rw [← littleEndian_append, List.take_append_drop]
      rfl
    have hlower : 256 ^ ((s.bytes data).take 4).length = 2 ^ 32 := by
      rw [List.length_take, hlength]
      rfl
    have hupper : 256 ^ ((s.bytes data).drop 4).length = 2 ^ 32 := by
      simp [List.length_drop, hlength]
    rw [hlower] at hlow hvalue
    rw [hupper] at hhigh
    simp only
    split <;> omega
  · rw [if_neg fun hfmt => hL (fmt_eq_L.mp hfmt)]
    exact iff_of_true rfl fun h => absurd h hL

end Values

section Results

variable {groups : List Group} {data : List UInt8} {structlen : Nat} {is : List Item}

def start (data : List UInt8) : Cursor := ⟨data, data.length, 0, 1, []⟩

theorem storeItems_start (structlen : Nat) (data : List UInt8) (is : List Item) :
    ∃ c more, storeItems structlen is (start data) = .ok (c, more) ∧
      c.stores = (taken structlen (slots structlen data.length is 0 0)).map (Slot.codeStore data) ∧
      c.structure_ = stopOf 0 (taken structlen (slots structlen data.length is 0 0)) ∧
      (more = true ↔ (taken structlen (slots structlen data.length is 0 0)).length = is.length) ∧
      (more = true → c.counter = 0 + is.length + 1) :=
  storeItems_eq 0 [] (Nat.le_refl 0)

theorem slots_length_le (structlen datalen : Nat) (is : List Item) (source offset : Nat) :
    (slots structlen datalen is source offset).length ≤ is.length := by
  induction is generalizing source offset with
  | nil => exact Nat.le_refl _
  | cons i is ih =>
      rw [slots]
      split
      · exact Nat.succ_le_succ (ih ..)
      · exact Nat.zero_le _

theorem taken_length_le (structlen : Nat) (ss : List Slot) : (taken structlen ss).length ≤ ss.length :=
  (List.takeWhile_sublist _).length_le

theorem usbParseData_taken (h : CountsRead structlen groups (start data)) :
    usbParseData (text groups) (data, data.length) structlen =
      .ok ((taken structlen (placed groups data structlen)).map (Slot.codeStore data),
        stopOf 0 (taken structlen (placed groups data structlen))) := by
  obtain ⟨c, more, hrun, hstores, hstop, -⟩ := storeItems_start structlen data (items groups)
  have hformat : parseFormat structlen (text groups) 0 (start data) = .ok c := by
    rw [parseFormat_text h, hrun]
    rfl
  rw [usbParseData]
  change (parseFormat structlen (text groups) 0 (start data) >>= fun c => pure (c.stores, c.structure_)) = _
  rw [hformat]
  exact congrArg Except.ok (Prod.ext hstores hstop)

theorem countsRead_of_parses (h : Parses groups data structlen) : CountsRead structlen groups (start data) := by
  intro pre g post c' hgroups hpre hcount
  by_contra hlarge
  have hfails : parseFormat structlen (text groups) 0 (start data) = .error .overflow :=
    hgroups ▸ parseFormat_fails hpre hcount hlarge
  have hrun := h.1
  rw [usbParseData] at hrun
  change (parseFormat structlen (text groups) 0 (start data) >>= fun c => pure (c.stores, c.structure_)) = _ at hrun
  rw [hfails] at hrun
  cases hrun

theorem Regular.countsRead (h : Regular groups data structlen) : CountsRead structlen groups (start data) := by
  intro pre g post c' hgroups hpre hcount
  obtain ⟨c, more, hrun, -, -, hmore, hcounter⟩ := storeItems_start structlen data (items pre)
  obtain ⟨rfl, rfl⟩ := Prod.mk.inj (Except.ok.inj (hrun.symm.trans hpre))
  have hall := hmore.mp rfl
  have hlen := hcounter rfl
  have htaken := taken_length_le structlen (slots structlen data.length (items pre) 0 0)
  exact h.counts pre g post hgroups (Nat.le_antisymm (slots_length_le ..) (hall ▸ htaken)) (by omega)

theorem counts_of_countsRead (hroom : ∀ s ∈ placed groups data structlen, s.item = .L → s.stop ≠ structlen)
    (h : CountsRead structlen groups (start data)) : ∀ pre g post, groups = pre ++ g :: post →
      (placed pre data structlen).length = (items pre).length → (items pre).length < structlen →
      g.repeats < 2 ^ 31 := by
  intro pre g post hgroups hlen hlt
  obtain ⟨c, more, hrun, -, -, hmore, hcounter⟩ := storeItems_start structlen data (items pre)
  have hsplit : items groups = items pre ++ items (g :: post) := by
    rw [hgroups]
    exact List.flatMap_append
  have hself : taken structlen (placed pre data structlen) = placed pre data structlen := by
    refine taken_eq_self fun s hs => hroom s ?_
    rw [placed, hsplit]
    exact slots_append hs
  have htrue : more = true := hmore.mpr ((congrArg List.length hself).trans hlen)
  have hcount := hcounter htrue
  exact h pre g post c hgroups (htrue ▸ hrun) (by omega)

/-- Everything that fits is stored as it is just if no 'L' item ends with the structure or has bits
that an int loses, and no repeat count overflows. -/
theorem parsed_iff (groups : List Group) (data : List UInt8) (structlen : Nat) :
    Parses groups data structlen ↔ Regular groups data structlen := by
  constructor
  · intro h
    have hcounts := countsRead_of_parses h
    obtain ⟨hstores, hstop⟩ := Prod.mk.inj (Except.ok.inj ((usbParseData_taken hcounts).symm.trans h.1))
    have hself : taken structlen (placed groups data structlen) = placed groups data structlen := by
      have hlen := congrArg List.length hstores
      rw [List.length_map, List.length_map] at hlen
      exact (List.takeWhile_prefix _).eq_of_length hlen
    have hroom : ∀ s ∈ placed groups data structlen, s.item = .L → s.stop ≠ structlen := by
      intro s hs hL hstop
      have hgo := List.takeWhile_eq_self_iff.mp hself s hs
      rw [goesOn, decide_eq_true_iff] at hgo
      exact hgo ⟨hL, hstop⟩
    rw [hself] at hstores
    exact ⟨hroom, fun s hs => (codeStore_eq_iff (h.2 s hs).1).mp (List.map_inj_left.mp hstores s hs),
      counts_of_countsRead hroom hcounts⟩
  · intro h
    refine ⟨?_, fun s hs => slots_inside hs⟩
    rw [usbParseData_taken h.countsRead, taken_eq_self h.room]
    refine congrArg (fun stores => Except.ok (stores, _)) (List.map_congr_left fun s hs => ?_)
    exact (codeStore_eq_iff (slots_inside hs).1).mpr (h.values s hs)

/-- A long item that fills the structure is not stored, and one above the ints loses its upper half. -/
theorem long_item_lost : usbParseData (text [⟨[], .L, nofun⟩]) ([1, 0, 0, 0, 0, 0, 0, 0], 8) 8 = .ok ([], 0) ∧
    usbParseData (text [⟨[], .L, nofun⟩]) ([0, 0, 0, 0, 1, 0, 0, 0], 8) 16 = .ok ([⟨0, 0⟩], 8) ∧
    ¬ Parses [⟨[], .L, nofun⟩] [1, 0, 0, 0, 0, 0, 0, 0] 8 ∧
    ¬ Parses [⟨[], .L, nofun⟩] [0, 0, 0, 0, 1, 0, 0, 0] 16 := by
  have hfull : usbParseData (text [⟨[], .L, nofun⟩]) ([1, 0, 0, 0, 0, 0, 0, 0], 8) 8 = .ok ([], 0) := rfl
  have hwide : usbParseData (text [⟨[], .L, nofun⟩]) ([0, 0, 0, 0, 1, 0, 0, 0], 8) 16 = .ok ([⟨0, 0⟩], 8) := rfl
  refine ⟨hfull, hwide, fun h => ?_, fun h => ?_⟩
  · exact absurd (congrArg Prod.snd (Except.ok.inj (hfull.symm.trans h.1))) (by decide)
  · exact absurd (congrArg Prod.fst (Except.ok.inj (hwide.symm.trans h.1))) (by decide)

end Results

end OiUserland.Libusb.ItemFormats
