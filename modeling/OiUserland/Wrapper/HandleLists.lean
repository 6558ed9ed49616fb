import OiUserland.Lib.DoubleLinks
import OiUserland.Lib.Runs
import OiUserland.Wrapper.Routing

namespace OiUserland.Wrapper.HandleLists

open Lib.Chains Lib.DoubleLinks Routing
open Plugins hiding setNext

structure Lists where
  devHandles : Nat → Nat
  cells : Cells DevHandle

def usbAddDev (dev device pindex devh : Nat) (x : Lists) : Option (Int × Lists) :=
  if x.devHandles pindex = 0 then
    if devh = 0 then some (failure, x)
    else some (Startup.success, ⟨Function.update x.devHandles pindex devh, x.cells.insert devh ⟨0, 0, dev, device⟩⟩)
  else do
    let currDevh ← endOf (linkOf Node.next x.cells) x.cells.keys.length (x.devHandles pindex)
    let cells ← setNext currDevh devh x.cells
    if devh = 0 then return (failure, { x with cells })
    else return (Startup.success, { x with cells := cells.insert devh ⟨0, currDevh, dev, device⟩ })

def delFrom (dev pindex : Nat) : Nat → Nat → Lists → Option Lists
  | 0, dDev, x => if dDev = 0 then some x else none
  | n + 1, dDev, x =>
      if dDev = 0 then some x
      else do
        let v ← x.cells.lookup dDev
        if v.item.dev = dev then
          let cells ← linkBack v.next v.prev x.cells
          let v ← cells.lookup dDev
          if v.prev ≠ 0 then
            let cells ← setNext v.prev v.next cells
            return ⟨x.devHandles, cells.erase dDev⟩
          else
            let cells ← linkBack v.next 0 cells
            return ⟨Function.update x.devHandles pindex v.next, cells.erase dDev⟩
        else delFrom dev pindex n v.next x

def usbDelDev (dev pindex : Nat) (x : Lists) : Option Lists :=
  delFrom dev pindex x.cells.keys.length (x.devHandles pindex) x

def hasHandle (dev : Nat) : Nat → Nat → Cells DevHandle → Option Bool
  | 0, devh, _ => if devh = 0 then some false else none
  | n + 1, devh, cells =>
      if devh = 0 then some false
      else (cells.lookup devh).bind fun v => if dev = v.item.dev then some true else hasHandle dev n v.next cells

def getIndexFrom (dev : Nat) (x : Lists) : List Nat → Option Int
  | [] => some failure
  | pindex :: rest =>
      (hasHandle dev x.cells.keys.length (x.devHandles pindex) x.cells).bind fun found =>
        if found then some pindex else getIndexFrom dev x rest

def getIndexDevhdl (w : WrapperState) (dev : Nat) (x : Lists) : Option Int :=
  getIndexFrom dev x (List.range w.ploaded)

def getPindex (w : WrapperState) (dev : Nat) (x : Lists) : Option Int :=
  if dev = 0 then some (-einval)
  else if w.activeIndex = -1 then (getIndexDevhdl w dev x).map fun pindex => if pindex < 0 then -enodev else pindex
  else some w.activeIndex

/-- usb_open: the plug-in's own usb_open returns `dev`. Of `w` only the busses and the plug-ins are read. -/
def usbOpen (w : WrapperState) (device dev devh : Nat) (x : Lists) : Option (Nat × Lists) := do
  let pindex ← openIndex w device
  if pindex < 0 then return (0, x)
  else if !checkSymHdl (w.pInfo pindex.toNat) .usbOpen then return (0, x)
  else
    let (ret, x) ← usbAddDev dev device pindex.toNat devh x
    if ret = Startup.success then return (dev, x) else return (0, x)

def usbClose (w : WrapperState) (dev : Nat) (ret : Int) (x : Lists) : Option (Int × Lists) := do
  let pindex ← getPindex w dev x
  if pindex < 0 then return (pindex, x)
  else if !checkSymHdl (w.pInfo pindex.toNat) .usbClose then return (failure, x)
  else
    let x ← usbDelDev dev pindex.toNat x
    return (ret, x)

section Lists

structure Represents (x : Lists) (hs : Nat → List DevHandle) (lists : Nat → List Nat) : Prop where
  linked : ∀ i, LinkedIn x.cells (lists i)
  heads : ∀ i, x.devHandles i = (lists i).headD 0
  apart : ∀ i j d, d ∈ lists i → d ∈ lists j → i = j
  items : ∀ i, (lists i).map (itemOf x.cells) = (hs i).map some

variable {x : Lists} {hs : Nat → List DevHandle} {lists : Nat → List Nat} {cells : Cells DevHandle}
    {l l₁ : List Nat} {g : List DevHandle}
  {dev device devh c d i n pindex : Nat} {item : DevHandle}

theorem Represents.replace (hx : Represents x hs lists) (hl : LinkedIn cells l)
    (hitems : l.map (itemOf cells) = g.map some)
    (hframe : ∀ j, j ≠ i → ∀ d ∈ lists j, cells.lookup d = x.cells.lookup d)
    (hin : ∀ d ∈ l, d ∈ lists i ∨ ∀ j, d ∉ lists j) :
    Represents ⟨Function.update x.devHandles i (l.headD 0), cells⟩ (Function.update hs i g)
    (Function.update lists i l) := by
  refine ⟨fun j => ?_, fun j => ?_, fun j k d hj hk => ?_, fun j => ?_⟩
  · by_cases hji : j = i
    · subst hji
      rwa [Function.update_self]
    · rw [Function.update_of_ne hji]
      exact (hx.linked j).frame (hframe j hji)
  · by_cases hji : j = i
    · subst hji
      simp only [Function.update_self]
    · simp only [Function.update_of_ne hji]
      exact hx.heads j
  · by_cases hji : j = i
    · by_cases hki : k = i
      · rw [hji, hki]
      · rw [hji, Function.update_self] at hj
        rw [Function.update_of_ne hki] at hk
        rcases hin d hj with hold | hout
        · exact hji.trans (hx.apart i k d hold hk)
        · exact absurd hk (hout k)
    · rw [Function.update_of_ne hji] at hj
      by_cases hki : k = i
      · rw [hki, Function.update_self] at hk
        rcases hin d hk with hold | hout
        · exact (hx.apart j i d hj hold).trans hki.symm
        · exact absurd hj (hout j)
      · rw [Function.update_of_ne hki] at hk
        exact hx.apart j k d hj hk
  · by_cases hji : j = i
    · subst hji
      rwa [Function.update_self, Function.update_self]
    · rw [Function.update_of_ne hji, Function.update_of_ne hji, ← hx.items j]
      refine List.map_congr_left fun d hd => ?_
      rw [itemOf, itemOf, hframe j hji d hd]

theorem itemOf_insert_self (h : Cells DevHandle) (v : Node DevHandle) : itemOf (h.insert c v) c = some v.item := by
  rw [itemOf, AList.lookup_insert, Option.map_some]

theorem Represents.not_mem (hx : Represents x hs lists) (hfree : x.cells.lookup devh = none) (j : Nat) :
    devh ∉ lists j := by
  intro hin
  have hsome := (hx.linked j).isSome hin
  rw [hfree] at hsome
  exact Bool.false_ne_true hsome

theorem Represents.ne_nil (hx : Represents x hs lists) (hhead : x.devHandles pindex ≠ 0) : lists pindex ≠ [] := by
  intro hnil
  rw [hx.heads, hnil] at hhead
  exact hhead rfl

theorem Represents.eq_nil (hx : Represents x hs lists) (hhead : x.devHandles pindex = 0) : lists pindex = [] := by
  have hforth := (hx.linked pindex).forth
  rw [← hx.heads, hhead] at hforth
  exact hforth.zero

theorem Represents.append (hx : Represents x hs lists) (hdevh : devh ≠ 0) (hfree : x.cells.lookup devh = none)
    (happ : Appended ((lists pindex).reverse.headD 0) devh x.cells cells) (hitem : itemOf cells devh = some item) :
    Represents ⟨Function.update x.devHandles pindex ((lists pindex ++ [devh]).headD 0), cells⟩
      (Function.update hs pindex (hs pindex ++ [item]))
      (Function.update lists pindex (lists pindex ++ [devh])) := by
  have hnot := hx.not_mem hfree
  have hne {j : Nat} (d : Nat) (hd : d ∈ lists j) : d ≠ devh := fun heq => hnot j (heq ▸ hd)
  refine hx.replace ((hx.linked pindex).appended hdevh (hnot pindex) happ) ?_ (fun j hj d hd => ?_) fun d hd => ?_
  · rw [List.map_append, List.map_append, ← hx.items pindex, List.map_singleton, List.map_singleton, hitem]
    refine congrArg (· ++ _) (List.map_congr_left fun d hd => ?_)
    exact item_relinked (happ.2.2 d (hne d hd))
  · refine lookup_relinked (happ.2.2 d (hne d hd)) (fun h0 heq => hj ?_) fun _ => hne d hd
    have hlast := (hx.linked pindex).mem_last.mpr ⟨h0, heq⟩
    exact hx.apart j pindex d hd (List.mem_of_getLast? hlast)
  · rcases List.mem_append.mp hd with hd | hd
    · exact .inl hd
    · rw [List.mem_singleton.mp hd]
      exact .inr hnot

theorem usbAddDev_eq (hx : Represents x hs lists) (hdevh : devh ≠ 0) (hfree : x.cells.lookup devh = none) : ∃ x',
    usbAddDev dev device pindex devh x = some (Startup.success, x') ∧
    Represents x' (Function.update hs pindex (hs pindex ++ [⟨dev, device⟩]))
    (Function.update lists pindex (lists pindex ++ [devh])) := by
  by_cases hhead : x.devHandles pindex = 0
  · refine ⟨_, by rw [usbAddDev, if_pos hhead, if_neg hdevh], ?_⟩
    have hnil := hx.eq_nil hhead
    have happ := @Represents.append _ _ _
      (x.cells.insert devh ⟨0, 0, dev, device⟩) _ pindex _ hx hdevh hfree ?_ (itemOf_insert_self ..)
    · rw [hnil] at happ ⊢
      exact happ
    · rw [hnil]
      refine ⟨linkOf_insert .., linkOf_insert .., fun d hd => ?_⟩
      rw [AList.lookup_insert_ne hd]
      cases x.cells.lookup d with
      | none => rfl
      | some v => exact congrArg some (relinked_of_ne v (absurd rfl) fun _ => hd).symm
  · obtain ⟨curr, p, item, hlast, hcurr, hend, hv⟩ := (hx.linked pindex).lastCell (hx.ne_nil hhead)
    have hcurr0 : curr ≠ 0 := (hx.linked pindex).ne_zero hcurr
    have happ : Appended ((lists pindex).reverse.headD 0) devh x.cells
        ((x.cells.insert curr ⟨devh, p, item⟩).insert devh ⟨0, curr, dev, device⟩) := by
      rw [hlast]
      refine ⟨linkOf_insert .., linkOf_insert .., fun d hd => ?_⟩
      rw [AList.lookup_insert_ne hd]
      by_cases hdc : d = curr
      · subst hdc
        rw [AList.lookup_insert, hv, Option.map_some, relinked, if_pos ⟨hcurr0, rfl⟩, if_neg fun hall => hd hall.2]
      · rw [AList.lookup_insert_ne hdc]
        cases x.cells.lookup d with
        | none => rfl
        | some v => exact congrArg some (relinked_of_ne v (fun _ => hdc) fun _ => hd).symm
    have hnew := hx.append hdevh hfree happ (itemOf_insert_self _ _)
    have hheads : Function.update x.devHandles pindex ((lists pindex ++ [devh]).headD 0) = x.devHandles := by
      rw [Function.update_eq_self_iff, hx.heads]
      cases hlist : lists pindex with
      | nil => exact absurd hlist (hx.ne_nil hhead)
      | cons a l => rfl
    rw [hheads] at hnew
    refine ⟨_, ?_, hnew⟩
    rw [← hx.heads] at hend
    rw [usbAddDev, if_neg hhead]
    simp only [Option.bind_eq_bind, hend, Option.bind_some, setNext, hv, Option.map_some, if_neg hdevh]
    rfl

theorem usbAddDev_fails (hx : Represents x hs lists) :
    ∃ x', usbAddDev dev device pindex 0 x = some (failure, x') ∧ Represents x' hs lists := by
  by_cases hhead : x.devHandles pindex = 0
  · exact ⟨x, by rw [usbAddDev, if_pos hhead, if_pos rfl], hx⟩
  · obtain ⟨curr, p, item, -, hcurr, hend, hv⟩ := (hx.linked pindex).lastCell (hx.ne_nil hhead)
    rw [← hx.heads] at hend
    have hlookup (d : Nat) : (x.cells.insert curr ⟨0, p, item⟩).lookup d = x.cells.lookup d := by
      by_cases hd : d = curr
      · rw [hd, AList.lookup_insert, hv]
      · exact AList.lookup_insert_ne hd
    refine ⟨{ x with cells := x.cells.insert curr ⟨0, p, item⟩ }, ?_,
      fun i => (hx.linked i).frame fun d _ => hlookup d, hx.heads, hx.apart, fun i => ?_⟩
    · rw [usbAddDev, if_neg hhead]
      simp only [Option.bind_eq_bind, hend, Option.bind_some, setNext, hv, Option.map_some, if_true]
      rfl
    · rw [← hx.items i]
      refine List.map_congr_left fun d _ => ?_
      simp only [itemOf, hlookup]

def devOf (cells : Cells DevHandle) (d : Nat) : Option Nat := (itemOf cells d).map DevHandle.dev

theorem delFrom_found (hl : LinkedIn x.cells (l₁ ++ c :: l)) (hhead : x.devHandles pindex = (l₁ ++ c :: l).headD 0)
    (hdev : devOf x.cells c = some dev) : ∃ cells,
    delFrom dev pindex (n + 1) c x = some ⟨Function.update x.devHandles pindex ((l₁ ++ l).headD 0), cells⟩ ∧
    LinkedIn cells (l₁ ++ l) ∧ Shrunk (l₁ ++ c :: l) (l₁ ++ l) x.cells cells := by
  obtain ⟨item, hx⟩ := hl.lookup
  have hc : c ≠ 0 := hl.ne_zero (List.mem_append_right _ (List.mem_cons_self ..))
  have heq : item.dev = dev := by
    rw [devOf, itemOf, hx, Option.map_some, Option.map_some] at hdev
    exact Option.some.inj hdev
  obtain ⟨h₁, h₂, hback, hx₁, hforth, hx₂, hrelinked⟩ := hl.relink_back
  rw [hx] at hx₁ hx₂
  have hnone (h : Cells DevHandle) : (h.erase c).lookup c = none := AList.lookup_erase c h
  have hhead' := headD_unlink c l₁ l fun d hd => hl.ne_zero (List.mem_append_left _ hd)
  by_cases hp : l₁.reverse.headD 0 = 0
  · rw [hp] at hback hforth hrelinked hx₁
    obtain rfl := Option.some.inj ((if_pos rfl).symm.trans hforth)
    rw [if_neg (not_not.mpr hp)] at hhead'
    obtain ⟨h₃, hback', hlookup⟩ := @linkBack_eq _ h₁ (l.headD 0) 0 fun h0 => by
      rw [hrelinked, Option.isSome_map]
      exact (hl.beside.2 h0).1
    -- the second store is the first one again
    have hu : Unlinked (l₁.reverse.headD 0) (l.headD 0) c x.cells (h₃.erase c) := fun d hd => by
      rw [AList.lookup_erase_ne hd, hlookup, hrelinked d, Option.map_map, hp]
      refine congrArg (Option.map · _) (funext fun v => ?_)
      by_cases hn0 : l.headD 0 ≠ 0 ∧ d = l.headD 0
      · simp only [Function.comp_apply, relinked, if_pos hn0]
      · simp only [Function.comp_apply, relinked, if_neg hn0]
    refine ⟨h₃.erase c, ?_, hl.unlinked hu, hl.shrunk hu (hnone h₃)⟩
    rw [delFrom, if_neg hc]
    simp only [Option.bind_eq_bind, hx, Option.bind_some, if_pos heq, hp, hback, hx₁, ne_eq,
      not_true_eq_false, if_false, hback', ← hhead']
    rfl
  · have hu : Unlinked (l₁.reverse.headD 0) (l.headD 0) c x.cells (h₂.erase c) := fun d hd => by
      rw [AList.lookup_erase_ne hd, hrelinked d]
    refine ⟨h₂.erase c, ?_, hl.unlinked hu, hl.shrunk hu (hnone h₂)⟩
    rw [delFrom, if_neg hc]
    rw [linkForth, if_neg hp] at hforth
    have hheads : Function.update x.devHandles pindex ((l₁ ++ l).headD 0) = x.devHandles := by
      rw [if_pos hp] at hhead'
      rw [Function.update_eq_self_iff, hhead, hhead']
    simp only [Option.bind_eq_bind, hx, Option.bind_some, if_pos heq, hback, hx₁, ne_eq, hp,
      not_false_eq_true, if_true, hforth, hheads]
    rfl

theorem delFrom_eq (hl : LinkedIn x.cells (l₁ ++ l)) (hhead : x.devHandles pindex = (l₁ ++ l).headD 0)
    (hn : l.length ≤ n) : ∃ cells,
    delFrom dev pindex n (l.headD 0) x =
      some ⟨Function.update x.devHandles pindex
        ((l₁ ++ l.eraseP fun d => devOf x.cells d = some dev).headD 0), cells⟩ ∧
    LinkedIn cells (l₁ ++ l.eraseP fun d => devOf x.cells d = some dev) ∧
    Shrunk (l₁ ++ l) (l₁ ++ l.eraseP fun d => devOf x.cells d = some dev) x.cells cells := by
  induction l generalizing n l₁ with
  | nil =>
      refine ⟨x.cells, ?_, hl, .refl _ _⟩
      rw [List.eraseP_nil, ← hhead, Function.update_eq_self]
      cases n <;> rfl
  | cons c l ih =>
      obtain ⟨n, rfl⟩ : ∃ m, n = m + 1 := ⟨n - 1, by rw [List.length_cons] at hn; omega⟩
      by_cases hdev : devOf x.cells c = some dev
      · have herase : (c :: l).eraseP (fun d => devOf x.cells d = some dev) = l :=
          List.eraseP_cons_of_pos (decide_eq_true hdev)
        rw [herase, List.headD_cons]
        exact delFrom_found hl hhead hdev
      · have herase : (c :: l).eraseP (fun d => devOf x.cells d = some dev)
          = c :: l.eraseP fun d => devOf x.cells d = some dev :=
          List.eraseP_cons_of_neg (by rw [decide_eq_true_eq]; exact hdev)
        obtain ⟨item, hx⟩ := hl.lookup
        have hc : c ≠ 0 := hl.ne_zero (List.mem_append_right _ (List.mem_cons_self ..))
        have hne : item.dev ≠ dev := fun heq => hdev (by rw [devOf, itemOf, hx, ← heq]; rfl)
        rw [List.append_cons] at hl hhead
        obtain ⟨cells, hrun, hl', hs⟩ := ih hl hhead (Nat.le_of_succ_le_succ hn)
        rw [herase, List.append_cons, List.append_cons l₁ c l]
        refine ⟨cells, ?_, hl', hs⟩
        rw [delFrom, List.headD_cons, if_neg hc]
        simp only [Option.bind_eq_bind, hx, Option.bind_some, if_neg hne]
        exact hrun

theorem usbDelDev_eq (hx : Represents x hs lists) : ∃ x' lists', usbDelDev dev pindex x = some x' ∧
    Represents x' (Function.update hs pindex ((hs pindex).eraseP fun h => h.dev = dev)) lists' := by
  have hhead : x.devHandles pindex = ([] ++ lists pindex).headD 0 := hx.heads pindex
  obtain ⟨cells, hrun, hl, hs'⟩ := @delFrom_eq x (lists pindex) [] dev x.cells.keys.length pindex
    (hx.linked pindex) hhead (hx.linked pindex).length_le
  simp only [List.nil_append] at hrun hl hs'
  rw [← hx.heads] at hrun
  refine ⟨_, _, hrun, hx.replace hl ?_ (fun j hj d hd => hs'.frame d fun hin =>
    hj (hx.apart j pindex d hd hin)) fun d hd => .inl (hs'.sub hd)⟩
  have hsame := List.map_congr_left hs'.items
  rw [hsame]
  have hitems := congrArg (List.eraseP fun v => v.map DevHandle.dev = some dev) (hx.items pindex)
  rw [List.eraseP_map, List.eraseP_map] at hitems
  simp only [Function.comp_def, Option.map_some, Option.some_inj] at hitems
  exact hitems

end Lists

end OiUserland.Wrapper.HandleLists
