import OiUserland.Lib.DoubleLinks
import OiUserland.Libusb.Handles

namespace OiUserland.Libusb.FindDevices

open Lib.Chains Lib.CStrings Lib.DoubleLinks Handles

def pathMax : Nat := 1024

abbrev Filename := { s : List Char // '\x00' ∉ s ∧ s.length ≤ pathMax }

/-- A usb_device: its file name, and the rest that opening it may fill in. -/
structure Device (β : Type) where
  filename : Filename
  rest : β

variable {β : Type}

abbrev Devices (β : Type) := Cells (Device β)

def usbAddDevice (list dev : Nat) (h : Devices β) : Option (Nat × Devices β) := do
  let h ← setNext dev list h
  let h ← linkBack list dev h
  let h ← setPrev dev 0 h
  return (dev, h)

def usbRemoveDevice (list dev : Nat) (h : Devices β) : Option (Nat × Devices β) := do
  let v ← h.lookup dev
  let h ← linkForth v.prev v.next h
  let list := if v.prev ≠ 0 then list else v.next
  let v ← h.lookup dev
  let h ← linkBack v.next v.prev h
  let h ← setPrev dev 0 h
  let h ← setNext dev 0 h
  return (list, h)

def usbFreeDev (dev : Nat) (h : Devices β) : Option (Devices β) := (h.lookup dev).map fun _ => h.erase dev

/-- What usb_search_dev_usb finds: the devices that are online, each with the memory that it gets, and
the error that ends the search, if one does. -/
structure Found (β : Type) where
  devices : List (Nat × Device β)
  error : Option Errno := none

def searchDevices : List (Nat × Device β) → Nat → Devices β → Option (Nat × Devices β)
  | [], list, h => some (list, h)
  | (dev, item) :: rest, list, h => do
      let (list, h) ← usbAddDevice list dev (h.insert dev ⟨0, 0, item⟩)
      searchDevices rest list h

def matchNew (filename : Filename) : Nat → Nat → Nat → Devices β → Option (Bool × Nat × Devices β)
  | 0, new, newDevices, h => if new = 0 then some (false, newDevices, h) else none
  | n + 1, new, newDevices, h =>
      if new = 0 then some (false, newDevices, h)
      else do
        let v ← h.lookup new
        if strncmp (pathMax + 1) filename.val v.item.filename.val = 0 then
          let (newDevices, h) ← usbRemoveDevice newDevices new h
          let h ← usbFreeDev new h
          return (true, newDevices, h)
        else matchNew filename n v.next newDevices h

def checkOld : Nat → Nat → Nat → Nat → Devices β → Option (Nat × Nat × Devices β)
  | 0, dev, devices, newDevices, h => if dev = 0 then some (devices, newDevices, h) else none
  | n + 1, dev, devices, newDevices, h =>
      if dev = 0 then some (devices, newDevices, h)
      else do
        let v ← h.lookup dev
        let (found, newDevices, h) ← matchNew v.item.filename h.keys.length newDevices newDevices h
        if found then checkOld n v.next devices newDevices h
        else
          let (devices, h) ← usbRemoveDevice devices dev h
          let h ← usbFreeDev dev h
          checkOld n v.next devices newDevices h

def usbOpenClose (opened : Nat → β → β) (dev : Nat) (h : Devices β) : Option (Devices β) :=
  (h.lookup dev).map fun v => h.insert dev { v with item := { v.item with rest := opened dev v.item.rest } }

def moveNew (opened : Nat → β → β) : Nat → Nat → Nat → Nat → Int → Devices β → Option (Nat × Int × Devices β)
  | 0, new, devices, _, changes, h => if new = 0 then some (devices, changes, h) else none
  | n + 1, new, devices, newDevices, changes, h =>
      if new = 0 then some (devices, changes, h)
      else do
        let v ← h.lookup new
        let (newDevices, h) ← usbRemoveDevice newDevices new h
        let (devices, h) ← usbAddDevice devices new h
        let h ← usbOpenClose opened new h
        moveNew opened n v.next devices newDevices (changes + 1) h

/-- usb_find_devices: its value and usb_busses->devices. -/
def usbFindDevices (found : Found β) (opened : Nat → β → β) (devices : Nat) (h : Devices β) :
    Option (Int × Nat × Devices β) := do
  let (newDevices, h) ← searchDevices found.devices 0 h
  match found.error with
  | some errno => return (-(errno.val : Int), devices, h)
  | none =>
      let (devices, newDevices, h) ← checkOld h.keys.length devices devices newDevices h
      let (devices, changes, h) ← moveNew opened h.keys.length newDevices devices newDevices 0 h
      return (changes, devices, h)

variable {h h' : Devices β} {c d n : Nat} {l l₁ l₂ : List Nat}

theorem removeDevice_eq (hl : LinkedIn h (l₁ ++ c :: l₂)) :
    ∃ h', usbRemoveDevice ((l₁ ++ c :: l₂).headD 0) c h = some ((l₁ ++ l₂).headD 0, h') ∧
    LinkedIn h' (l₁ ++ l₂) ∧ (∀ d, itemOf h' d = itemOf h d) ∧
    ∀ d, d ∉ l₁ ++ c :: l₂ → h'.lookup d = h.lookup d := by
  obtain ⟨x, hx⟩ := hl.lookup
  obtain ⟨h₁, h₂, hforth, hx₁, hback, hx₂, hrelinked⟩ := hl.relink
  rw [hx] at hx₁ hx₂
  obtain ⟨h₃, hprev, -, -, hitem₃, hothers₃⟩ := @setPrev_eq _ h₂ c 0 (by rw [hx₂]; rfl)
  obtain ⟨h₄, hnext, -, -, hitem₄, hothers₄⟩ := @setNext_eq _ h₃ c 0 (by
    have hsome : (itemOf h₂ c).isSome := by rw [itemOf, hx₂]; rfl
    rwa [← hitem₃, itemOf, Option.isSome_map] at hsome)
  have hothers (d : Nat) (hd : d ≠ c) : h₄.lookup d = h₂.lookup d := (hothers₄ d hd).trans (hothers₃ d hd)
  have hne (d : Nat) (hd : d ∈ l₁) : d ≠ 0 := hl.ne_zero (List.mem_append_left _ hd)
  refine ⟨h₄, ?_, hl.unlinked fun d hd => (hothers d hd).trans (hrelinked d), fun d => ?_, fun d hd => ?_⟩
  · simp only [usbRemoveDevice, Option.bind_eq_bind, Option.bind_some, hx, hforth, hx₁, hback, hprev,
      hnext, headD_unlink c l₁ l₂ hne]
    rfl
  · by_cases hd : d = c
    · rw [hd, hitem₄, hitem₃, itemOf, itemOf, hx₂, hx]
    · rw [itemOf, hothers d hd]
      exact item_relinked (hrelinked d)
  · have hd' : d ≠ c := fun heq => hd (heq ▸ List.mem_append_right _ (List.mem_cons_self ..))
    obtain ⟨hlast, hfirst⟩ := hl.ends
    rw [hothers d hd']
    refine lookup_relinked (hrelinked d) (fun h0 heq => hd ?_) fun h0 heq => hd ?_
    · exact List.mem_append_left _ (List.mem_of_getLast? ((hlast d).mpr ⟨h0, heq⟩))
    · exact List.mem_append_right _ (List.mem_cons_of_mem _ (List.mem_of_mem_head? ((hfirst d).mpr ⟨h0, heq⟩)))

theorem addDevice_eq (hl : LinkedIn h l) (hc : (h.lookup c).isSome) (hc0 : c ≠ 0) (hnot : c ∉ l) :
    ∃ h', usbAddDevice (l.headD 0) c h = some (c, h') ∧
    LinkedIn h' (c :: l) ∧ (∀ d, itemOf h' d = itemOf h d) ∧ ∀ d, d ∉ c :: l → h'.lookup d = h.lookup d := by
  obtain ⟨h₁, hnext, hnext₁, -, hitem₁, hothers₁⟩ := @setNext_eq _ h c (l.headD 0) hc
  have hfirst (h0 : l.headD 0 ≠ 0) : l.headD 0 ∈ l := List.mem_of_mem_head? (hl.mem_first.mpr ⟨h0, rfl⟩)
  have hfirst' (h0 : l.headD 0 ≠ 0) : l.headD 0 ≠ c := fun heq => hnot (heq ▸ hfirst h0)
  obtain ⟨h₂, hback, hback₂⟩ := @linkBack_eq _ h₁ (l.headD 0) c fun h0 => by
    rw [hothers₁ _ (hfirst' h0)]
    exact hl.isSome (hfirst h0)
  have hc₂ : h₂.lookup c = h₁.lookup c := by
    rw [hback₂]
    cases h₁.lookup c with
    | none => rfl
    | some v => rw [Option.map_some, if_neg fun hall => hfirst' hall.1 hall.2.symm]
  have hc₁ : (h₁.lookup c).isSome := by
    have hsome : (itemOf h c).isSome := by rwa [itemOf, Option.isSome_map]
    rwa [← hitem₁, itemOf, Option.isSome_map] at hsome
  obtain ⟨h₃, hprev, hprev₃, hnext₃, hitem₃, hothers₃⟩ := @setPrev_eq _ h₂ c 0 (hc₂ ▸ hc₁)
  have hrelinked (d : Nat) (hd : d ≠ c) : h₃.lookup d = (h.lookup d).map (relinked c (l.headD 0) d) := by
    rw [hothers₃ d hd, hback₂, hothers₁ d hd]
    refine congrArg (Option.map · _) (funext fun v => ?_)
    rw [relinked, @if_neg (c ≠ 0 ∧ d = c) _ fun hall => hd hall.2]
  refine ⟨h₃, ?_, hl.pushed hc0 hnot ⟨?_, hprev₃, hrelinked⟩, fun d => ?_, fun d hd => ?_⟩
  · simp only [usbAddDevice, Option.bind_eq_bind, Option.bind_some, hnext, hback, hprev]
    rfl
  · rw [hnext₃, linkOf, hc₂]
    exact hnext₁
  · by_cases hd : d = c
    · rw [hd, hitem₃, itemOf, hc₂]
      exact hitem₁
    · exact item_relinked (hrelinked d hd)
  · obtain ⟨hd, hnotin⟩ := List.ne_and_not_mem_of_not_mem_cons hd
    exact lookup_relinked (hrelinked d hd) (fun _ => hd) fun h0 heq => hnotin (heq ▸ hfirst h0)

def nameOf (h : Devices β) (a : Nat) : Option Filename := (itemOf h a).map Device.filename

theorem freeDevice_eq (hl : LinkedIn h (l₁ ++ c :: l₂)) :
    ∃ h₁ h', usbRemoveDevice ((l₁ ++ c :: l₂).headD 0) c h = some ((l₁ ++ l₂).headD 0, h₁) ∧
    usbFreeDev c h₁ = some h' ∧ LinkedIn h' (l₁ ++ l₂) ∧ Shrunk (l₁ ++ c :: l₂) (l₁ ++ l₂) h h' := by
  obtain ⟨h₁, hrun, hl₁, hitems, hframe⟩ := removeDevice_eq hl
  have hc : c ∉ l₁ ++ l₂ := (List.nodup_cons.mp (List.nodup_middle.mp hl.nodup)).1
  have hin (d : Nat) : d ∈ l₁ ++ c :: l₂ ↔ d = c ∨ d ∈ l₁ ++ l₂ := by
    rw [List.mem_append, List.mem_cons, List.mem_append, or_left_comm]
  have hsome : (itemOf h₁ c).isSome := by
    rw [hitems, itemOf, Option.isSome_map]
    exact hl.isSome ((hin c).mpr (.inl rfl))
  rw [itemOf, Option.isSome_map] at hsome
  obtain ⟨v, hv⟩ := Option.isSome_iff_exists.mp hsome
  have herase (d : Nat) (hd : d ≠ c) : (h₁.erase c).lookup d = h₁.lookup d := AList.lookup_erase_ne hd
  refine ⟨h₁, h₁.erase c, hrun, by rw [usbFreeDev, hv, Option.map_some], ?_,
    fun d hd => (hin d).mpr (.inr hd), fun d hd => ?_,
    fun d hd hnot => ?_, fun d hd => ?_⟩
  · exact hl₁.frame fun d hd => herase d fun heq => hc (heq ▸ hd)
  · rw [itemOf, herase d fun heq => hc (heq ▸ hd)]
    exact hitems d
  · obtain rfl | hd := (hin d).mp hd
    · exact AList.lookup_erase d h₁
    · exact absurd hd hnot
  · rw [herase d fun heq => hd ((hin d).mpr (.inl heq)), hframe d hd]

theorem matchNew_eq {filename : Filename} {name : Nat → Option Filename} {before new : List Nat}
    (hl : LinkedIn h (before ++ new))
    (hname : ∀ d ∈ new, nameOf h d = name d) (hn : new.length ≤ n) : ∃ h',
    matchNew filename n (new.headD 0) ((before ++ new).headD 0) h =
      some (new.any (fun d => name d = some filename),
      (before ++ new.eraseP fun d => name d = some filename).headD 0, h') ∧
    LinkedIn h' (before ++ new.eraseP fun d => name d = some filename) ∧
    Shrunk (before ++ new) (before ++ new.eraseP fun d => name d = some filename) h h' := by
  induction new generalizing n before with
  | nil =>
      refine ⟨h, ?_, hl, .refl _ h⟩
      cases n <;> rfl
  | cons c new ih =>
      obtain ⟨n, rfl⟩ : ∃ m, n = m + 1 := ⟨n - 1, by rw [List.length_cons] at hn; omega⟩
      obtain ⟨x, hx⟩ := hl.lookup
      have hc : c ≠ 0 := hl.ne_zero (List.mem_append_right _ (List.mem_cons_self ..))
      have hcname : name c = some x.filename := by
        rw [← hname c (List.mem_cons_self ..), nameOf, itemOf, hx, Option.map_some, Option.map_some]
      have hcompare : strncmp (pathMax + 1) filename.val x.filename.val = 0 ↔ name c = some filename := by
        rw [strncmp_eq filename.property.1 x.filename.property.1
          (Nat.lt_succ_of_le filename.property.2), hcname, Option.some_inj, Subtype.ext_iff,
          eq_comm]
      by_cases heq : name c = some filename
      · obtain ⟨h₁, h', hremove, hfree, hl', hs⟩ := freeDevice_eq hl
        have herase : (c :: new).eraseP (fun d => name d = some filename) = new :=
          List.eraseP_cons_of_pos (by simpa using heq)
        have hany : (c :: new).any (fun d => name d = some filename) = true :=
          List.any_eq_true.mpr ⟨c, List.mem_cons_self .., by simpa using heq⟩
        rw [herase, hany]
        refine ⟨h', ?_, hl', hs⟩
        rw [matchNew, List.headD_cons, if_neg hc]
        simp only [hx, Option.bind_eq_bind, Option.bind_some, if_pos (hcompare.mpr heq), hremove, hfree]
        rfl
      · have herase : (c :: new).eraseP (fun d => name d = some filename)
          = c :: new.eraseP fun d => name d = some filename :=
          List.eraseP_cons_of_neg (by simpa using heq)
        have hany : (c :: new).any (fun d => name d = some filename) = new.any fun d => name d = some filename := by
          rw [List.any_cons, decide_eq_false heq, Bool.false_or]
        rw [List.append_cons] at hl
        obtain ⟨h', hrun, hl', hs⟩ := ih hl (fun d hd => hname d (List.mem_cons_of_mem _ hd))
          (Nat.le_of_succ_le_succ hn)
        rw [herase, hany, List.append_cons, List.append_cons before c (new.eraseP _)]
        refine ⟨h', ?_, hl', hs⟩
        rw [matchNew, List.headD_cons, if_neg hc]
        simp only [hx, Option.bind_eq_bind, Option.bind_some, if_neg fun hall => heq (hcompare.mp hall)]
        exact hrun

def checkNames {γ : Type} [DecidableEq γ] (name : Nat → γ) : List Nat → List Nat → List Nat × List Nat
  | [], new => ([], new)
  | c :: old, new =>
      if new.any fun d => name d = name c then
        let (kept, left) := checkNames name old (new.eraseP fun d => name d = name c)
        (c :: kept, left)
      else checkNames name old new

section Names

variable {γ : Type} [DecidableEq γ] {name : Nat → γ} {old new : List Nat}

theorem checkNames_found (h : new.any fun d => name d = name c) : checkNames name (c :: old) new =
    (c :: (checkNames name old (new.eraseP fun d => name d = name c)).1,
      (checkNames name old (new.eraseP fun d => name d = name c)).2) := by
  rw [checkNames, if_pos h]

theorem checkNames_gone (h : ¬ new.any fun d => name d = name c) :
    checkNames name (c :: old) new = checkNames name old new := by
  rw [checkNames, if_neg h]

theorem kept_subset : (checkNames name old new).1 ⊆ old := by
  induction old generalizing new with
  | nil => exact List.Subset.refl _
  | cons c old ih =>
      by_cases h : new.any fun d => name d = name c
      · rw [checkNames_found h]
        exact List.cons_subset_cons c ih
      · rw [checkNames_gone h]
        exact List.subset_cons_of_subset c ih

theorem left_sublist : (checkNames name old new).2.Sublist new := by
  induction old generalizing new with
  | nil => exact List.Sublist.refl _
  | cons c old ih =>
      by_cases h : new.any fun d => name d = name c
      · rw [checkNames_found h]
        exact ih.trans (List.eraseP_sublist ..)
      · rw [checkNames_gone h]
        exact ih

theorem perm_eraseP (h : new.any fun d => name d = name c) :
    (name c :: (new.eraseP fun d => name d = name c).map name).Perm (new.map name) := by
  induction new with
  | nil => exact absurd h Bool.false_ne_true
  | cons d new ih =>
      by_cases hd : name d = name c
      · rw [List.eraseP_cons_of_pos (by simpa using hd), List.map_cons, hd]
      · rw [List.any_cons, decide_eq_false hd, Bool.false_or] at h
        rw [List.eraseP_cons_of_neg (by simpa using hd), List.map_cons, List.map_cons]
        exact (List.Perm.swap ..).trans ((ih h).cons _)

theorem checkNames_perm :
    ((checkNames name old new).1.map name ++ (checkNames name old new).2.map name).Perm (new.map name) := by
  induction old generalizing new with
  | nil => exact List.Perm.refl _
  | cons c old ih =>
      by_cases h : new.any fun d => name d = name c
      · rw [checkNames_found h, List.map_cons, List.cons_append]
        exact (ih.cons _).trans (perm_eraseP h)
      · rw [checkNames_gone h]
        exact ih

theorem left_ne (hnodup : (new.map name).Nodup) :
    ∀ d ∈ (checkNames name old new).2, ∀ c ∈ old, name d ≠ name c := by
  induction old generalizing new with
  | nil => exact fun d _ c hc => absurd hc List.not_mem_nil
  | cons c old ih =>
      intro d hd e he
      by_cases h : new.any fun d => name d = name c
      · rw [checkNames_found h] at hd
        obtain ⟨hnot, hrest⟩ := List.nodup_cons.mp ((perm_eraseP h).nodup_iff.mpr hnodup)
        rcases List.mem_cons.mp he with rfl | he
        · have hin : d ∈ new.eraseP fun d => name d = name e := left_sublist.subset hd
          have hname : name d ∈ (new.eraseP fun d => name d = name e).map name := List.mem_map_of_mem hin
          exact fun heq => hnot (heq ▸ hname)
        · exact ih hrest d hd e he
      · rw [checkNames_gone h] at hd
        rcases List.mem_cons.mp he with rfl | he
        · exact fun heq => h (List.any_eq_true.mpr ⟨d, left_sublist.subset hd, decide_eq_true heq⟩)
        · exact ih hnodup d hd e he

end Names

theorem nameOf_shrunk (hs : Shrunk l₁ l₂ h h') (hd : d ∈ l₂) : nameOf h' d = nameOf h d := by
  rw [nameOf, nameOf, hs.items d hd]

theorem checkOld_eq {name : Nat → Option Filename} {kept old new : List Nat}
    (hold : LinkedIn h (kept ++ old)) (hnew : LinkedIn h new)
    (hdisj : (kept ++ old).Disjoint new) (hname : ∀ d ∈ old ++ new, nameOf h d = name d)
    (hn : old.length ≤ n) : ∃ h',
    checkOld n (old.headD 0) ((kept ++ old).headD 0) (new.headD 0) h =
      some ((kept ++ (checkNames name old new).1).headD 0, (checkNames name old new).2.headD 0, h') ∧
    LinkedIn h' (kept ++ (checkNames name old new).1) ∧ LinkedIn h' (checkNames name old new).2 ∧
    Shrunk ((kept ++ old) ++ new) ((kept ++ (checkNames name old new).1) ++ (checkNames name old new).2) h h' := by
  induction old generalizing n kept new h with
  | nil =>
      refine ⟨h, ?_, hold, hnew, .refl _ h⟩
      cases n <;> rfl
  | cons c old ih =>
      obtain ⟨n, rfl⟩ : ∃ m, n = m + 1 := ⟨n - 1, by rw [List.length_cons] at hn; omega⟩
      obtain ⟨x, hx⟩ := hold.lookup
      have hc : c ≠ 0 := hold.ne_zero (List.mem_append_right _ (List.mem_cons_self ..))
      have hcname : name c = some x.filename := by
        rw [← hname c (List.mem_cons_self ..), nameOf, itemOf, hx, Option.map_some, Option.map_some]
      have hnamenew (d : Nat) (hd : d ∈ new) : nameOf h d = name d := hname d (List.mem_append_right _ hd)
      obtain ⟨h₁, hmatch, hnew₁, hs₁⟩ :=
        @matchNew_eq β h h.keys.length x.filename name [] new hnew hnamenew hnew.length_le
      simp only [List.nil_append, ← hcname] at hmatch hnew₁ hs₁
      have hold₁ : LinkedIn h₁ (kept ++ c :: old) := hs₁.linked (fun d hd hd' => hdisj hd' hd) hold
      have hs₁' := (hs₁.beside fun d hd hd' => hdisj hd' hd).comm
      have hnames₁ (l : List Nat) (hl : l ⊆ c :: old) (d : Nat)
        (hd : d ∈ l ++ new.eraseP fun d => name d = name c) : nameOf h₁ d = name d := by
        rcases List.mem_append.mp hd with hd | hd
        · rw [nameOf_shrunk hs₁' (List.mem_append_left _ (List.mem_append_right _ (hl hd)))]
          exact hname d (List.mem_append_left _ (hl hd))
        · rw [nameOf_shrunk hs₁' (List.mem_append_right _ hd)]
          exact hname d (List.mem_append_right _ (List.eraseP_subset hd))
      by_cases hany : new.any fun d => name d = name c
      · rw [hany] at hmatch
        have hdisj₁ : (kept ++ c :: old).Disjoint (new.eraseP fun d => name d = name c) :=
          fun d hd hd' => hdisj hd (List.eraseP_subset hd')
        rw [List.append_cons] at hold₁ hdisj₁
        obtain ⟨h', hrun, hold', hnew', hs'⟩ :=
          ih hold₁ hnew₁ hdisj₁ (hnames₁ old (List.subset_cons_self ..)) (Nat.le_of_succ_le_succ hn)
        rw [checkNames_found hany]
        simp only [← List.append_cons] at hrun hold' hs'
        refine ⟨h', ?_, hold', hnew', hs₁'.trans hs'⟩
        rw [checkOld, List.headD_cons, if_neg hc]
        simp only [hx, Option.bind_eq_bind, Option.bind_some, hmatch, if_true]
        exact hrun
      · rw [Bool.not_eq_true] at hany
        have herase : new.eraseP (fun d => name d = name c) = new := by
          refine List.eraseP_of_forall_not fun d hd hall => ?_
          exact Bool.false_ne_true (hany.symm.trans (List.any_eq_true.mpr ⟨d, hd, hall⟩))
        rw [hany, herase] at hmatch
        rw [herase] at hnew₁ hs₁' hnames₁
        obtain ⟨h₂, h₃, hremove, hfree, hold₃, hs₃⟩ := freeDevice_eq hold₁
        have hdisj' : (kept ++ c :: old).Disjoint new := fun d hd hd' => hdisj hd hd'
        have hnew₃ : LinkedIn h₃ new := hs₃.linked hdisj hnew₁
        have hs₃' := hs₃.beside hdisj
        have hdisj₃ : (kept ++ old).Disjoint new := fun d hd => hdisj (hs₃.sub hd)
        have hnames₃ (d : Nat) (hd : d ∈ old ++ new) : nameOf h₃ d = name d := by
          rw [nameOf_shrunk hs₃' (by rw [List.append_assoc]; exact List.mem_append_right _ hd)]
          exact hnames₁ old (List.subset_cons_self ..) d hd
        obtain ⟨h', hrun, hold', hnew', hs'⟩ := ih hold₃ hnew₃ hdisj₃ hnames₃ (Nat.le_of_succ_le_succ hn)
        rw [checkNames_gone (by rw [hany]; exact Bool.false_ne_true)]
        refine ⟨h', ?_, hold', hnew', hs₁'.trans (hs₃'.trans hs')⟩
        rw [checkOld, List.headD_cons, if_neg hc]
        simp only [hx, Option.bind_eq_bind, Option.bind_some, hmatch, Bool.false_eq_true, if_false, hremove, hfree]
        exact hrun

theorem openClose_eq (opened : Nat → β → β) (hl : LinkedIn h l) (hc : c ∈ l) :
    ∃ h', usbOpenClose opened c h = some h' ∧ LinkedIn h' l ∧
    itemOf h' c = (itemOf h c).map (fun v => { v with rest := opened c v.rest }) ∧
    ∀ d, d ≠ c → h'.lookup d = h.lookup d := by
  obtain ⟨v, hv⟩ := Option.isSome_iff_exists.mp (hl.isSome hc)
  refine ⟨_, by rw [usbOpenClose, hv, Option.map_some], hl.congr (fun d _ => ?_) fun d _ => ?_, ?_,
    fun d hd => AList.lookup_insert_ne hd⟩
  · refine linkOf_insert_same hv ?_ d
    rfl
  · refine linkOf_insert_same hv ?_ d
    rfl
  · rw [itemOf, itemOf, AList.lookup_insert, hv, Option.map_some, Option.map_some, Option.map_some]

theorem moveNew_eq {new devices : List Nat} {changes : Int} (opened : Nat → β → β)
    (hnew : LinkedIn h new) (hdevices : LinkedIn h devices)
    (hdisj : new.Disjoint devices) (hn : new.length ≤ n) : ∃ h',
    moveNew opened n (new.headD 0) (devices.headD 0) (new.headD 0) changes h
    = some ((new.reverse ++ devices).headD 0, changes + new.length, h') ∧
    LinkedIn h' (new.reverse ++ devices) ∧
    (∀ d ∈ new, itemOf h' d = (itemOf h d).map fun v => { v with rest := opened d v.rest }) ∧
    (∀ d, d ∉ new → itemOf h' d = itemOf h d) ∧ ∀ d, d ∉ new → d ∉ devices → h'.lookup d = h.lookup d := by
  induction new generalizing n devices changes h with
  | nil =>
      refine ⟨h, ?_, hdevices, fun d hd => absurd hd List.not_mem_nil, fun _ _ => rfl, fun _ _ _ => rfl⟩
      rw [List.length_nil, Int.natCast_zero, Int.add_zero]
      cases n <;> rfl
  | cons c new ih =>
      obtain ⟨n, rfl⟩ : ∃ m, n = m + 1 := ⟨n - 1, by rw [List.length_cons] at hn; omega⟩
      obtain ⟨x, hx⟩ := @Linked.lookup _ h c [] new hnew
      have hc : c ≠ 0 := hnew.ne_zero (List.mem_cons_self ..)
      have hcdevices : c ∉ devices := hdisj (List.mem_cons_self ..)
      obtain ⟨hcnew, -⟩ := List.nodup_cons.mp hnew.nodup
      obtain ⟨h₁, hremove, hnew₁, hitems₁, hframe₁⟩ := @removeDevice_eq β h c [] new hnew
      simp only [List.nil_append, List.headD_cons] at hremove hnew₁ hframe₁
      have hdevices₁ : LinkedIn h₁ devices := hdevices.frame fun d hd => hframe₁ d fun hin => hdisj hin hd
      have hc₁ : (h₁.lookup c).isSome := by
        have hsome := hitems₁ c
        rw [itemOf, itemOf, hx, Option.map_some] at hsome
        rw [← Option.isSome_map, hsome, Option.isSome_some]
      obtain ⟨h₂, hadd, hdevices₂, hitems₂, hframe₂⟩ := addDevice_eq hdevices₁ hc₁ hc hcdevices
      have hnew₂ : LinkedIn h₂ new := by
        refine hnew₁.frame fun d hd => hframe₂ d ?_
        rintro (_ | ⟨_, hin⟩)
        · exact hcnew hd
        · exact hdisj (List.mem_cons_of_mem _ hd) hin
      obtain ⟨h₃, hopen, hdevices₃, hitem₃, hothers₃⟩ := openClose_eq opened hdevices₂ (List.mem_cons_self ..)
      have hnew₃ : LinkedIn h₃ new := hnew₂.frame fun d hd => hothers₃ d fun heq => hcnew (heq ▸ hd)
      have hitems₃ (d : Nat) (hd : d ≠ c) : itemOf h₃ d = itemOf h d := by
        rw [itemOf, hothers₃ d hd, ← itemOf, hitems₂, hitems₁]
      have hdisj₃ : new.Disjoint (c :: devices) := by
        rintro d hd (_ | ⟨_, hin⟩)
        · exact hcnew hd
        · exact hdisj (List.mem_cons_of_mem _ hd) hin
      obtain ⟨h', hrun, hlinked, hmoved, hitems, hframe⟩ :=
        @ih h₃ n (c :: devices) (changes + 1) hnew₃ hdevices₃ hdisj₃ (Nat.le_of_succ_le_succ hn)
      refine ⟨h', ?_, ?_, fun d hd => ?_, fun d hd => ?_, fun d hd hd' => ?_⟩
      · rw [moveNew, List.headD_cons, if_neg hc]
        simp only [hx, Option.bind_eq_bind, Option.bind_some, hremove, hadd, hopen]
        rw [List.headD_cons] at hrun
        rw [hrun, List.reverse_cons, List.append_assoc, List.singleton_append, List.length_cons,
          Int.natCast_succ, Int.add_right_comm, Int.add_assoc]
      · rwa [List.reverse_cons, List.append_assoc, List.singleton_append]
      · rcases List.mem_cons.mp hd with rfl | hd
        · rw [hitems d hcnew, hitem₃, hitems₂, hitems₁]
        · rw [hmoved d hd, hitems₃ d fun heq => hcnew (heq ▸ hd)]
      · obtain ⟨hdc, hd⟩ := List.ne_and_not_mem_of_not_mem_cons hd
        rw [hitems d hd, hitems₃ d hdc]
      · obtain ⟨hdc, hdnew⟩ := List.ne_and_not_mem_of_not_mem_cons hd
        have hddevices : d ∉ c :: devices := List.not_mem_cons_of_ne_of_not_mem hdc hd'
        rw [hframe d hdnew hddevices, hothers₃ d hdc, hframe₂ d hddevices, hframe₁ d hd]

theorem searchDevices_eq (found : List (Nat × Device β)) (hl : LinkedIn h l) (hnodup : (found.map Prod.fst).Nodup)
    (hfresh : ∀ a ∈ found.map Prod.fst, a ≠ 0 ∧ h.lookup a = none) : ∃ h',
    searchDevices found (l.headD 0) h = some (((found.map Prod.fst).reverse ++ l).headD 0, h') ∧
    LinkedIn h' ((found.map Prod.fst).reverse ++ l) ∧
    (∀ a v, (a, v) ∈ found → itemOf h' a = some v) ∧ (∀ d, d ∉ found.map Prod.fst → itemOf h' d = itemOf h d) ∧
    ∀ d, d ∉ found.map Prod.fst → d ∉ l → h'.lookup d = h.lookup d := by
  induction found generalizing l h with
  | nil => exact ⟨h, rfl, hl, fun _ _ hin => absurd hin List.not_mem_nil, fun _ _ => rfl, fun _ _ _ => rfl⟩
  | cons e found ih =>
      obtain ⟨c, x⟩ := e
      rw [List.map_cons] at hnodup hfresh
      obtain ⟨hcnot, hnodup⟩ := List.nodup_cons.mp hnodup
      obtain ⟨hc, hcnone⟩ := hfresh c (List.mem_cons_self ..)
      have hcl : c ∉ l := fun hin => by
        have hsome := hl.isSome hin
        rw [hcnone] at hsome
        exact Bool.false_ne_true hsome
      have hothers (d : Nat) (hd : d ≠ c) : (h.insert c ⟨0, 0, x⟩).lookup d = h.lookup d :=
        AList.lookup_insert_ne hd
      have hl₀ : LinkedIn (h.insert c ⟨0, 0, x⟩) l := hl.frame fun d hd => hothers d fun heq => hcl (heq ▸ hd)
      obtain ⟨h₁, hadd, hl₁, hitems₁, hframe₁⟩ := addDevice_eq hl₀ (by rw [AList.lookup_insert]; rfl) hc hcl
      have hfresh₁ (a : Nat) (ha : a ∈ found.map Prod.fst) : a ≠ 0 ∧ h₁.lookup a = none := by
        have hac : a ≠ c := fun heq => hcnot (heq ▸ ha)
        obtain ⟨ha0, hanone⟩ := hfresh a (List.mem_cons_of_mem _ ha)
        refine ⟨ha0, ?_⟩
        have hitem : itemOf h₁ a = none := by rw [hitems₁, itemOf, hothers a hac, hanone, Option.map_none]
        rwa [itemOf, Option.map_eq_none_iff] at hitem
      obtain ⟨h', hrun, hlinked, hfound, hitems, hframe⟩ := ih hl₁ hnodup hfresh₁
      have happend : (found.map Prod.fst).reverse ++ c :: l = ((c :: found.map Prod.fst).reverse) ++ l := by
        rw [List.reverse_cons, List.append_assoc, List.singleton_append]
      rw [List.map_cons, ← happend]
      refine ⟨h', ?_, hlinked, fun a v hin => ?_, fun d hd => ?_, fun d hd hd' => ?_⟩
      · rw [searchDevices, Option.bind_eq_bind, hadd, Option.bind_some]
        exact hrun
      · rcases List.mem_cons.mp hin with heq | hin
        · obtain ⟨rfl, rfl⟩ := Prod.mk.inj heq
          rw [hitems a hcnot, hitems₁, itemOf, AList.lookup_insert, Option.map_some]
        · exact hfound a v hin
      · obtain ⟨hdc, hd⟩ := List.ne_and_not_mem_of_not_mem_cons hd
        rw [hitems d hd, hitems₁, itemOf, hothers d hdc, itemOf]
      · obtain ⟨hdc, hd⟩ := List.ne_and_not_mem_of_not_mem_cons hd
        have hdl : d ∉ c :: l := List.not_mem_cons_of_ne_of_not_mem hdc hd'
        rw [hframe d hd hdl, hframe₁ d hdl, hothers d hdc]

section Refresh

theorem names_found (found : List (Nat × Device β)) (hfound : ∀ a v, (a, v) ∈ found → itemOf h a = some v) :
    (found.map Prod.fst).map (nameOf h) = found.map fun d => some d.2.filename := by
  rw [List.map_map]
  refine List.map_congr_left fun d hd => ?_
  rw [Function.comp_apply, nameOf, hfound d.1 d.2 hd, Option.map_some]

variable {found : Found β} {old : List Nat}

/-- The three loops: `name` gives the names that the devices have. -/
theorem usbFindDevices_eq (opened : Nat → β → β) (herror : found.error = none) (hold : LinkedIn h old)
    (hnodup : (found.devices.map Prod.fst).Nodup)
    (hfresh : ∀ a ∈ found.devices.map Prod.fst, a ≠ 0 ∧ h.lookup a = none) : ∃ name h' kept left,
    (∀ c ∈ old, name c = nameOf h c) ∧
    (found.devices.map Prod.fst).map name = found.devices.map (fun d => some d.2.filename) ∧
    checkNames name old (found.devices.map Prod.fst).reverse = (kept, left) ∧ (∀ c ∈ old, c ∉ left) ∧
    usbFindDevices found opened (old.headD 0) h = some ((left.length : Int), (left.reverse ++ kept).headD 0, h') ∧
    LinkedIn h' (left.reverse ++ kept) ∧ (∀ c ∈ left.reverse ++ kept, nameOf h' c = name c) ∧
    (∀ c ∈ kept, itemOf h' c = itemOf h c) ∧
    (∀ c ∈ old ++ found.devices.map Prod.fst, c ∉ left.reverse ++ kept → h'.lookup c = none) ∧
    ∀ d, d ∉ old ++ found.devices.map Prod.fst → h'.lookup d = h.lookup d := by
  obtain ⟨h₁, hsearch, hnew₁, hfound, -, hframe₁⟩ := searchDevices_eq found.devices (Linked.nil _ _) hnodup hfresh
  rw [List.append_nil, List.headD_nil] at hsearch
  rw [List.append_nil] at hnew₁
  have hfresh' (d : Nat) (hd : d ∈ old) : d ∉ found.devices.map Prod.fst := fun hin => by
    have hsome := hold.isSome hd
    rw [(hfresh d hin).2] at hsome
    exact Bool.false_ne_true hsome
  have hold_item (c : Nat) (hc : c ∈ old) : itemOf h₁ c = itemOf h c := by
    rw [itemOf, itemOf, hframe₁ c (hfresh' c hc) List.not_mem_nil]
  have hold₁ : LinkedIn h₁ old := hold.frame fun d hd => hframe₁ d (hfresh' d hd) List.not_mem_nil
  have hdisj : ([] ++ old).Disjoint (found.devices.map Prod.fst).reverse :=
    fun d hd hd' => hfresh' d hd (List.mem_reverse.mp hd')
  obtain ⟨h₂, hcheck, hkept, hleft, hs⟩ :=
    @checkOld_eq β h₁ h₁.keys.length (nameOf h₁) [] old _ hold₁ hnew₁ hdisj (fun _ _ => rfl) hold₁.length_le
  have hleftsub := @left_sublist _ _ (nameOf h₁) old (found.devices.map Prod.fst).reverse
  have hkeptsub := @kept_subset _ _ (nameOf h₁) old (found.devices.map Prod.fst).reverse
  simp only [List.nil_append] at hcheck hkept hs hdisj
  rcases hchecked : checkNames (nameOf h₁) old (found.devices.map Prod.fst).reverse with ⟨kept, left⟩
  rw [hchecked] at hcheck hkept hleft hs hleftsub hkeptsub
  have hdisj₂ : left.Disjoint kept := fun d hd hd' => hdisj (hkeptsub hd') (hleftsub.subset hd)
  obtain ⟨h', hmove, hlinked, hmoved, hitems, hframe⟩ :=
    @moveNew_eq β h₂ h₂.keys.length left kept 0 opened hleft hkept hdisj₂ hleft.length_le
  have hlookup (d : Nat) (hd : d ∉ left.reverse ++ kept) : h'.lookup d = h₂.lookup d :=
    hframe d (fun hin => hd (List.mem_append_left _ (List.mem_reverse.mpr hin))) fun hin =>
      hd (List.mem_append_right _ hin)
  have hparts (d : Nat) : d ∈ kept ++ left ↔ d ∈ left.reverse ++ kept := by
    rw [List.mem_append, List.mem_append, List.mem_reverse, or_comm]
  have hall (d : Nat) : d ∈ old ++ (found.devices.map Prod.fst).reverse ↔
    d ∈ old ++ found.devices.map Prod.fst := by
    rw [List.mem_append, List.mem_append, List.mem_reverse]
  refine ⟨nameOf h₁, h', kept, left, fun c hc => ?_, names_found found.devices hfound, hchecked,
    fun c hc hin => hdisj hc (hleftsub.subset hin), ?_,
    hlinked, fun c hc => ?_, fun c hc => ?_, fun c hc hnot => ?_, fun d hd => ?_⟩
  · rw [nameOf, nameOf, hold_item c hc]
  · simp only [usbFindDevices, hsearch, Option.bind_eq_bind, Option.bind_some, herror, hcheck, hmove, Int.zero_add]
    rfl
  · rcases List.mem_append.mp hc with hc | hc
    · have hc' := List.mem_reverse.mp hc
      rw [nameOf, hmoved c hc', Option.map_map]
      exact nameOf_shrunk hs (List.mem_append_right _ hc')
    · rw [nameOf, hitems c fun hin => hdisj₂ hin hc]
      exact nameOf_shrunk hs (List.mem_append_left _ hc)
  · rw [hitems c fun hin => hdisj₂ hin hc, hs.items c (List.mem_append_left _ hc), hold_item c (hkeptsub hc)]
  · rw [hlookup c hnot, hs.freed c ((hall c).mpr hc) fun hin => hnot ((hparts c).mp hin)]
  · have hd' : d ∉ old ++ (found.devices.map Prod.fst).reverse := fun hin => hd ((hall d).mp hin)
    rw [hlookup d fun hin => hd' (hs.sub ((hparts d).mpr hin)), hs.frame d hd',
      hframe₁ d (fun hin => hd (List.mem_append_right _ hin)) List.not_mem_nil]

/-- The list `l` after a search that found `found`, where `old` was the list before. -/
structure Refreshed (found : List (Nat × Device β)) (old l : List Nat) (h h' : Devices β) : Prop where
  linked : LinkedIn h' l
  names : (l.map (nameOf h')).Perm (found.map fun d => some d.2.filename)
  known : ∀ c ∈ l, nameOf h' c ∈ old.map (nameOf h) → c ∈ old ∧ itemOf h' c = itemOf h c
  vanished : ∀ c ∈ old, nameOf h c ∉ found.map (fun d => some d.2.filename) → c ∉ l
  freed : ∀ c ∈ old ++ found.map Prod.fst, c ∉ l → h'.lookup c = none
  frame : ∀ d, d ∉ old ++ found.map Prod.fst → h'.lookup d = h.lookup d

theorem find_devices_refreshes (opened : Nat → β → β) (herror : found.error = none) (hold : LinkedIn h old)
    (hnodup : (found.devices.map Prod.fst).Nodup)
    (hfresh : ∀ a ∈ found.devices.map Prod.fst, a ≠ 0 ∧ h.lookup a = none)
    (hnames : (found.devices.map fun d => d.2.filename).Nodup) : ∃ l h',
    usbFindDevices found opened (old.headD 0) h = some ((l.filter (· ∉ old)).length, l.headD 0, h') ∧
    Refreshed found.devices old l h h' := by
  obtain ⟨name, h', kept, left, hname, hfound, hchecked, hleft_old, hrun, hlinked, hname', hkept, hfreed, hframe⟩ :=
    usbFindDevices_eq opened herror hold hnodup hfresh
  have hperm := @checkNames_perm _ _ name old (found.devices.map Prod.fst).reverse
  have hsub := @kept_subset _ _ name old (found.devices.map Prod.fst).reverse
  have hne := @left_ne _ _ name old (found.devices.map Prod.fst).reverse
  rw [hchecked] at hperm hsub hne
  rw [List.map_reverse, hfound] at hperm hne
  replace hperm := hperm.trans (List.reverse_perm _)
  have hunique : (found.devices.map fun d => some d.2.filename).reverse.Nodup := by
    have hsome := List.Nodup.map (fun _ _ hsome => Option.some.inj hsome) hnames
    rw [List.map_map] at hsome
    exact List.nodup_reverse.mpr hsome
  refine ⟨left.reverse ++ kept, h', ?_, hlinked, ?_, fun c hc hknown => ?_, fun c hc hgone hin => ?_,
    hfreed, hframe⟩
  · have hadded : left.reverse.filter (· ∉ old) = left.reverse := by
      refine List.filter_eq_self.mpr fun c hc => decide_eq_true fun hin => ?_
      exact hleft_old c hin (List.mem_reverse.mp hc)
    have hsame : kept.filter (· ∉ old) = [] := List.filter_eq_nil_iff.mpr fun c hc => by simpa using hsub hc
    rw [hrun, List.filter_append, hadded, hsame, List.append_nil, List.length_reverse]
  · rw [List.map_congr_left hname', List.map_append, List.map_reverse]
    exact ((List.reverse_perm _).append_right _).trans (List.perm_append_comm.trans hperm)
  · obtain ⟨o, ho, heq⟩ := List.mem_map.mp hknown
    rw [hname' c hc, ← hname o ho] at heq
    rcases List.mem_append.mp hc with hc | hc
    · exact absurd heq.symm (hne hunique c (List.mem_reverse.mp hc) o ho)
    · exact ⟨hsub hc, hkept c hc⟩
  · rcases List.mem_append.mp hin with hin | hin
    · exact hleft_old c hc (List.mem_reverse.mp hin)
    · refine hgone ?_
      rw [← hname c hc]
      exact hperm.subset (List.mem_append_left _ (List.mem_map_of_mem hin))

def devA : Filename := ⟨['a'], by decide⟩

def devB : Filename := ⟨['b'], by decide⟩

def devC : Filename := ⟨['c'], by decide⟩

/-- A list of two devices. -/
def twoDevices : Devices Unit := ((∅ : Devices Unit).insert 1 ⟨2, 0, devA, ()⟩).insert 2 ⟨0, 1, devB, ()⟩

theorem linked_twoDevices : LinkedIn twoDevices [1, 2] := by
  refine ⟨.cons (by decide) rfl (.cons (by decide) rfl .nil), ?_⟩
  exact .cons (by decide) rfl (.cons (by decide) rfl .nil)

theorem find_devices_refreshes_two : ∃ l h',
    usbFindDevices ⟨[(3, ⟨devB, ()⟩), (4, ⟨devC, ()⟩)], none⟩ (fun _ v => v) 1 twoDevices
    = some ((l.filter (· ∉ [1, 2])).length, l.headD 0, h') ∧
      Refreshed [(3, ⟨devB, ()⟩), (4, ⟨devC, ()⟩)] [1, 2] l twoDevices h' :=
  @find_devices_refreshes Unit twoDevices ⟨[(3, ⟨devB, ()⟩), (4, ⟨devC, ()⟩)], none⟩ [1, 2]
    (fun _ v => v) rfl linked_twoDevices (by decide) (by decide)
    (by decide)

end Refresh

end OiUserland.Libusb.FindDevices
