import OiUserland.CmapCompact.SaveFile

namespace OiUserland.CmapCompact.ReadBack

open Lib.Layouts SaveFile

variable {order : ByteOrder} {malloc : Malloc}

/-- What cmc_read needs of a record that is all there: it fails without a color,
and without the memory for the colors. -/
def Readable (malloc : Malloc) (k : Nat) (r : SavedScreen) : Prop :=
  0 < r.colors.length ∧ (malloc k (r.colors.length * 16)).isSome

/-- Records that are readable in turn, from the `k`-th call on. -/
def AllReadable (malloc : Malloc) : Nat → List SavedScreen → Prop
  | _, [] => True
  | k, r :: rs => Readable malloc k r ∧ AllReadable malloc (k + 1) rs

/-- What is saved comes back: the header passes, the records are returned in
order, and the end of the file follows. -/
def ComesBack (order : ByteOrder) (malloc : Malloc) (rs : List SavedScreen) : Prop :=
  cmcHeaderTest order (saveFile order rs) = .ok (written order rs) ∧
    readLoop order malloc 0 (written order rs) = ⟨rs.map (·.toScreenRecord), none⟩

/-- A file that ends early makes a read fail, and what was returned before are
records that have been saved. -/
def ReportsCut (order : ByteOrder) (malloc : Malloc) (rs : List SavedScreen) (n : Nat) : Prop :=
  (cmcLoad order malloc ((saveFile order rs).take n)).records <+: rs.map (·.toScreenRecord) ∧
    (cmcLoad order malloc ((saveFile order rs).take n)).ending ≠ none

theorem sizeT_saved (r : SavedScreen) : sizeT r.ncolors = r.colors.length := by
  have hcounts := r.counts
  have hlt := BitVec.toInt_lt (x := r.ncolors)
  rw [sizeT, hcounts, Int.emod_eq_of_lt (by omega) (by omega), Int.toNat_natCast]

theorem colors_length_lt (r : SavedScreen) : r.colors.length < 2 ^ 31 := by
  have hcounts := r.counts
  have hlt := BitVec.toInt_lt (x := r.ncolors)
  omega

theorem xcolor_size (order : ByteOrder) : (xcolor order).size = 16 := rfl

theorem array_size (r : SavedScreen) : r.colors.length * 16 % 2 ^ 64 = r.colors.length * 16 := by
  have hlt := colors_length_lt r
  rw [Nat.mod_eq_of_lt (by omega)]

theorem cmcWrite_saved (r : SavedScreen) :
    cmcWrite order r.toScreenRecord =
      (int order).bytes r.scrNum ++ ((int order).bytes r.ncolors ++ (xcolor order).image r.colors) := by
  rw [cmcWrite, sizeT_saved, List.take_length, List.append_assoc]

theorem length_cmcWrite (r : SavedScreen) :
    (cmcWrite order r.toScreenRecord).length = 8 + 16 * r.colors.length := by
  rw [cmcWrite_saved, List.length_append, List.length_append, (int order).length_bytes, (int order).length_bytes,
    (xcolor order).length_image, xcolor_size]
  show 4 + (4 + _) = _
  omega

theorem expect_bytes (number : String) (expected : BitVec 32) (f : List UInt8) :
    expect order number expected ((int order).bytes expected ++ f) = .ok f := by
  rw [expect, (int order).freadOne_bytes]
  exact if_pos rfl

theorem cmcHeaderTest_write (f : List UInt8) : cmcHeaderTest order (cmcHeaderWrite order ++ f) = .ok f := by
  rw [cmcHeaderTest, cmcHeaderWrite, List.append_assoc, expect_bytes]
  exact expect_bytes _ _ _

theorem cmcLoad_write (f : List UInt8) :
    cmcLoad order malloc (cmcHeaderWrite order ++ f) = readLoop order malloc 0 f := by
  rw [cmcLoad, cmcHeaderTest_write]

section Records

variable {k : Nat} {r : SavedScreen} {f : List UInt8}

theorem cmcRead_noMemory (hm : malloc k (r.colors.length * 16) = none) :
    cmcRead order malloc k ((int order).bytes r.scrNum ++ ((int order).bytes r.ncolors ++ f)) =
      .fatal (.error "not enough memory") := by
  rw [cmcRead, (int order).freadOne_bytes]
  simp only [(int order).freadOne_bytes, sizeT_saved, xcolor_size, array_size, hm]

/-- What cmc_read does behind the two numbers of a record. -/
theorem cmcRead_memory {memory : List UInt8} (hm : malloc k (r.colors.length * 16) = some memory) :
    cmcRead order malloc k ((int order).bytes r.scrNum ++ ((int order).bytes r.ncolors ++ f)) =
      if (fread 16 r.colors.length memory f).1 = 0 then .fatal (.prematureEof "cannot read saved colors")
      else .record
        ⟨r.scrNum, r.ncolors, (xcolor order).values r.colors.length (fread 16 r.colors.length memory f).2.1⟩
        (fread 16 r.colors.length memory f).2.2 := by
  rw [cmcRead, (int order).freadOne_bytes]
  simp only [(int order).freadOne_bytes, sizeT_saved, xcolor_size, array_size, hm]

theorem cmcRead_write (h : Readable malloc k r) (f : List UInt8) :
    cmcRead order malloc k (cmcWrite order r.toScreenRecord ++ f) = .record r.toScreenRecord f := by
  obtain ⟨memory, hm⟩ := Option.isSome_iff_exists.mp h.2
  have hlen : ((xcolor order).image r.colors).length = 16 * r.colors.length := (xcolor order).length_image _
  have hcount : 16 * r.colors.length / 16 ≠ 0 := by
    have hpos := h.1
    omega
  rw [cmcWrite_saved, List.append_assoc, List.append_assoc, cmcRead_memory hm]
  simp only [fread, List.take_left' hlen, List.drop_left' hlen, hlen, if_neg hcount, (xcolor order).values_image]

theorem cmcRead_unreadable (h : ¬ Readable malloc k r) (f : List UInt8) :
    ∃ e, cmcRead order malloc k (cmcWrite order r.toScreenRecord ++ f) = .fatal e := by
  rw [cmcWrite_saved, List.append_assoc, List.append_assoc]
  cases hm : malloc k (r.colors.length * 16) with
  | none => exact ⟨_, cmcRead_noMemory hm⟩
  | some memory =>
      have hzero : r.colors.length = 0 := by
        by_contra hpos
        exact h ⟨Nat.pos_of_ne_zero hpos, by rw [hm]; rfl⟩
      refine ⟨.prematureEof "cannot read saved colors", ?_⟩
      rw [cmcRead_memory hm]
      simp [fread, hzero]

end Records

section Cuts

variable {k n : Nat} {r : SavedScreen}

theorem readLoop_nil (k : Nat) : readLoop order malloc k [] = ⟨[], none⟩ := by
  have hshort : ([] : List UInt8).length < (int order).size := (int order).size_pos
  apply readLoop_eof
  rw [cmcRead, (int order).freadOne_short hshort]

theorem cmcRead_cut_scrNum (h : n < 4) :
    cmcRead order malloc k ((cmcWrite order r.toScreenRecord).take n) = .eof := by
  have hlen : ((cmcWrite order r.toScreenRecord).take n).length < (int order).size := by
    rw [List.length_take]
    show _ < 4
    omega
  rw [cmcRead, (int order).freadOne_short hlen]

theorem cmcRead_cut_ncolors (h : 4 ≤ n) (h' : n < 8) :
    cmcRead order malloc k ((cmcWrite order r.toScreenRecord).take n) =
      .fatal (.prematureEof "cannot read number of saved colors") := by
  have hscr : ((int order).bytes r.scrNum).length = 4 := (int order).length_bytes _
  rw [cmcWrite_saved, List.take_append, hscr, List.take_of_length_le (by omega), cmcRead,
    (int order).freadOne_bytes]
  have hlen : ((((int order).bytes r.ncolors ++ (xcolor order).image r.colors)).take (n - 4)).length <
      (int order).size := by
    rw [List.length_take]
    show _ < 4
    omega
  simp only [(int order).freadOne_short hlen]

theorem cmcRead_cut_colors (h : 8 ≤ n) :
    cmcRead order malloc k ((cmcWrite order r.toScreenRecord).take n) =
      cmcRead order malloc k ((int order).bytes r.scrNum ++
        ((int order).bytes r.ncolors ++ ((xcolor order).image r.colors).take (n - 8))) := by
  have hscr : ((int order).bytes r.scrNum).length = 4 := (int order).length_bytes _
  have hnum : ((int order).bytes r.ncolors).length = 4 := (int order).length_bytes _
  rw [cmcWrite_saved, List.take_append, hscr, List.take_of_length_le (by omega), List.take_append, hnum,
    List.take_of_length_le (by omega), Nat.sub_sub]

theorem cmcRead_cut_record {memory : List UInt8} (h : 24 ≤ n) (hn : n < 8 + 16 * r.colors.length)
    (hm : malloc k (r.colors.length * 16) = some memory) :
    ∃ part, cmcRead order malloc k ((cmcWrite order r.toScreenRecord).take n) = .record part [] := by
  have hlen : ((xcolor order).image r.colors).length = 16 * r.colors.length := (xcolor order).length_image _
  have hcount : (fread 16 r.colors.length memory (((xcolor order).image r.colors).take (n - 8))).1 ≠ 0 := by
    simp only [fread, List.length_take, hlen]
    omega
  have hrest : (fread 16 r.colors.length memory (((xcolor order).image r.colors).take (n - 8))).2.2 = [] := by
    apply List.drop_eq_nil_of_le
    rw [List.length_take]
    omega
  rw [cmcRead_cut_colors (by omega), cmcRead_memory hm, if_neg hcount, hrest]
  exact ⟨_, rfl⟩

theorem cmcRead_cut_first {memory : List UInt8} (h : 8 ≤ n) (hn : n < 24)
    (hm : malloc k (r.colors.length * 16) = some memory) :
    cmcRead order malloc k ((cmcWrite order r.toScreenRecord).take n) =
      .fatal (.prematureEof "cannot read saved colors") := by
  have hcount : (fread 16 r.colors.length memory (((xcolor order).image r.colors).take (n - 8))).1 = 0 := by
    apply Nat.div_eq_of_lt
    simp only [List.length_take]
    omega
  rw [cmcRead_cut_colors h, cmcRead_memory hm]
  simp only [if_pos hcount]

theorem cmcRead_cut_memory (h : 8 ≤ n) (hm : malloc k (r.colors.length * 16) = none) :
    cmcRead order malloc k ((cmcWrite order r.toScreenRecord).take n) = .fatal (.error "not enough memory") := by
  rw [cmcRead_cut_colors h, cmcRead_noMemory hm]

theorem readLoop_cut_reported (order : ByteOrder) (k : Nat) (hn : 4 ≤ n) (h : n < 24 ∨ malloc k (r.colors.length * 16) = none) :
    ∃ e, readLoop order malloc k ((cmcWrite order r.toScreenRecord).take n) = ⟨[], some e⟩ := by
  by_cases h8 : n < 8
  · exact ⟨_, readLoop_fatal (cmcRead_cut_ncolors hn h8)⟩
  · cases hm : malloc k (r.colors.length * 16) with
    | none => exact ⟨_, readLoop_fatal (cmcRead_cut_memory (by omega) hm)⟩
    | some memory =>
        have h24 : n < 24 := by
          apply h.resolve_right
          rw [hm]
          exact Option.some_ne_none memory
        exact ⟨_, readLoop_fatal (cmcRead_cut_first (by omega) h24 hm)⟩

theorem readLoop_cut_unnoticed (hn : n < (cmcWrite order r.toScreenRecord).length)
    (h : 4 ≤ n → 24 ≤ n ∧ malloc k (r.colors.length * 16) ≠ none) :
    (readLoop order malloc k ((cmcWrite order r.toScreenRecord).take n)).ending = none := by
  rw [length_cmcWrite] at hn
  by_cases h4 : n < 4
  · rw [readLoop_eof (cmcRead_cut_scrNum h4)]
  · obtain ⟨h24, hm⟩ := h (by omega)
    obtain ⟨memory, hm⟩ := Option.ne_none_iff_exists'.mp hm
    obtain ⟨r', hr'⟩ := cmcRead_cut_record h24 hn hm
    rw [readLoop_record hr', readLoop_nil]

end Cuts

section Files

variable {k : Nat} {rs : List SavedScreen} {r : SavedScreen} {f : List UInt8}

theorem written_cons (r : SavedScreen) (rs : List SavedScreen) :
    written order (r :: rs) = cmcWrite order r.toScreenRecord ++ written order rs := rfl

theorem written_append (rs rs' : List SavedScreen) :
    written order (rs ++ rs') = written order rs ++ written order rs' := List.flatMap_append

theorem readLoop_written (order : ByteOrder) (h : AllReadable malloc k rs) (f : List UInt8) :
    readLoop order malloc k (written order rs ++ f) =
      ⟨rs.map (·.toScreenRecord) ++ (readLoop order malloc (k + rs.length) f).records,
        (readLoop order malloc (k + rs.length) f).ending⟩ := by
  induction rs generalizing k with
  | nil => rfl
  | cons r rs ih =>
      have hk : k + 1 + rs.length = k + (r :: rs).length := by
        rw [List.length_cons]
        omega
      rw [written_cons, List.append_assoc, readLoop_record (cmcRead_write h.1 _), ih h.2, hk]
      rfl

theorem readLoop_unreadable (order : ByteOrder) (h : ¬ AllReadable malloc k rs) (f : List UInt8) :
    (readLoop order malloc k (written order rs ++ f)).records <+: rs.map (·.toScreenRecord) ∧
      (readLoop order malloc k (written order rs ++ f)).ending ≠ none := by
  induction rs generalizing k with
  | nil => exact absurd trivial h
  | cons r rs ih =>
      rw [written_cons, List.append_assoc]
      by_cases hr : Readable malloc k r
      · rw [readLoop_record (cmcRead_write hr _)]
        have hrs : ¬ AllReadable malloc (k + 1) rs := fun hrs => h ⟨hr, hrs⟩
        obtain ⟨hpre, hend⟩ := ih hrs
        exact ⟨List.cons_prefix_cons.mpr ⟨rfl, hpre⟩, hend⟩
      · obtain ⟨e, he⟩ := cmcRead_unreadable hr (written order rs ++ f)
        rw [readLoop_fatal he]
        exact ⟨List.nil_prefix, Option.some_ne_none e⟩

theorem comesBack_iff (rs : List SavedScreen) : ComesBack order malloc rs ↔ AllReadable malloc 0 rs := by
  constructor
  · intro h
    by_contra hrs
    have hend := (readLoop_unreadable order hrs []).2
    rw [List.append_nil, h.2] at hend
    exact hend rfl
  · intro h
    refine ⟨cmcHeaderTest_write _, ?_⟩
    have hload := readLoop_written order h []
    rw [List.append_nil, readLoop_nil, List.append_nil] at hload
    exact hload

theorem take_saveFile {rs' : List SavedScreen} {n : Nat} (hn : n < (cmcWrite order r.toScreenRecord).length) :
    (saveFile order (rs ++ r :: rs')).take ((saveFile order rs).length + n) =
      cmcHeaderWrite order ++ (written order rs ++ (cmcWrite order r.toScreenRecord).take n) := by
  have hfile : saveFile order (rs ++ r :: rs') =
      saveFile order rs ++ (cmcWrite order r.toScreenRecord ++ written order rs') := by
    rw [saveFile, written_append, written_cons, saveFile, List.append_assoc]
  rw [hfile, List.take_length_add_append, List.take_append_of_le_length (Nat.le_of_lt hn), saveFile,
    List.append_assoc]

theorem reportsCut_iff (rs rs' : List SavedScreen) {n : Nat} (hn : n < (cmcWrite order r.toScreenRecord).length) :
    ReportsCut order malloc (rs ++ r :: rs') ((saveFile order rs).length + n) ↔
      ¬ AllReadable malloc 0 rs ∨ 4 ≤ n ∧ (n < 24 ∨ malloc rs.length (r.colors.length * 16) = none) := by
  rw [ReportsCut, take_saveFile hn, cmcLoad_write]
  by_cases h : AllReadable malloc 0 rs
  · rw [readLoop_written order h, Nat.zero_add]
    constructor
    · intro ⟨_, hend⟩
      by_contra hno
      push Not at hno
      exact hend (readLoop_cut_unnoticed hn hno.2)
    · intro hcut
      obtain ⟨hn4, hcut⟩ := hcut.resolve_left (fun hno => hno h)
      obtain ⟨e, he⟩ := readLoop_cut_reported order rs.length hn4 hcut
      rw [he, List.append_nil, List.map_append]
      exact ⟨List.prefix_append _ _, Option.some_ne_none e⟩
  · obtain ⟨hpre, hend⟩ := readLoop_unreadable order h ((cmcWrite order r.toScreenRecord).take n)
    constructor
    · exact fun _ => .inl h
    · intro _
      refine ⟨hpre.trans ?_, hend⟩
      rw [List.map_append]
      exact List.prefix_append _ _

end Files

/-- What is saved comes back if each screen has a color and there is memory for its
colors. A file that ends within a record is reported if the number of colors is not
all there or no color is, if there is no memory, or if a record before it fails. -/
theorem saved_colors (order : ByteOrder) (malloc : Malloc) :
    (∀ rs, ComesBack order malloc rs ↔ AllReadable malloc 0 rs) ∧
    ∀ rs r rs' n, 0 < n → n < (cmcWrite order r.toScreenRecord).length →
      (ReportsCut order malloc (rs ++ r :: rs') ((saveFile order rs).length + n) ↔
        ¬ AllReadable malloc 0 rs ∨ 4 ≤ n ∧ (n < 24 ∨ malloc rs.length (r.colors.length * 16) = none)) :=
  ⟨comesBack_iff, fun rs _ rs' _ _ hn => reportsCut_iff rs rs' hn⟩

def zeroed : Malloc := fun _ n => some (List.replicate n 0)

def noColors : SavedScreen := ⟨⟨0, 0, []⟩, rfl⟩

def red : XColor := ⟨1, 0xffff, 0, 0, 7, 0⟩

def blue : XColor := ⟨2, 0, 0, 0xffff, 7, 0⟩

def twoColors : SavedScreen := ⟨⟨1, 2, [red, blue]⟩, rfl⟩

theorem saved_colors_two :
    ComesBack .little zeroed [twoColors, twoColors] ∧
    ReportsCut .little zeroed [twoColors, twoColors] ((saveFile .little [twoColors]).length + 9) := by
  obtain ⟨hback, hcut⟩ := saved_colors .little zeroed
  have htwo (k : Nat) : Readable zeroed k twoColors := ⟨by decide, rfl⟩
  constructor
  · exact (hback _).mpr ⟨htwo 0, htwo 1, trivial⟩
  · exact (hcut [twoColors] twoColors [] 9 (by decide) (by rw [length_cmcWrite]; decide)).mpr
      (.inr ⟨by decide, .inl (by decide)⟩)

/-- A screen without colors does not come back. A file that ends behind the first
of two colors, or within the number of a screen, is not reported, and in place of
the missing color there is what the memory held. -/
theorem saved_colors_lost :
    ¬ ComesBack .little zeroed [noColors] ∧
    ¬ ReportsCut .little zeroed [twoColors] ((saveFile .little []).length + 24) ∧
    ¬ ReportsCut .little zeroed [twoColors] ((saveFile .little []).length + 2) ∧
    cmcLoad .little zeroed (saveFile .little [noColors]) = ⟨[], some (.prematureEof "cannot read saved colors")⟩ ∧
    cmcLoad .little zeroed ((saveFile .little [twoColors]).take ((saveFile .little []).length + 24)) =
      ⟨[⟨1, 2, [red, ⟨0, 0, 0, 0, 0, 0⟩]⟩], none⟩ ∧
    cmcLoad .little zeroed ((saveFile .little [twoColors]).take ((saveFile .little []).length + 2)) = ⟨[], none⟩ := by
  have hnone : cmcLoad .little zeroed (saveFile .little [noColors]) =
      ⟨[], some (.prematureEof "cannot read saved colors")⟩ := by decide +kernel
  have hfirst : cmcLoad .little zeroed ((saveFile .little [twoColors]).take ((saveFile .little []).length + 24)) =
      ⟨[⟨1, 2, [red, ⟨0, 0, 0, 0, 0, 0⟩]⟩], none⟩ := by decide +kernel
  have hscr : cmcLoad .little zeroed ((saveFile .little [twoColors]).take ((saveFile .little []).length + 2)) =
      ⟨[], none⟩ := by decide +kernel
  refine ⟨?_, ?_, ?_, hnone, hfirst, hscr⟩
  · intro h
    have hread := ((comesBack_iff _).mp h).1.1
    exact absurd hread (by decide)
  · exact fun h => h.2 (congrArg Load.ending hfirst)
  · exact fun h => h.2 (congrArg Load.ending hscr)

end OiUserland.CmapCompact.ReadBack
