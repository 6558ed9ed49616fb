import Mathlib.Algebra.Group.Nat.Defs
import Mathlib.Algebra.Group.Int.Defs
import OiUserland.Lib.Faults

namespace OiUserland.Xinerama.FrameBuffers

open Lib.Faults

def MAXSCREEN : Nat := 16

structure XineramaScreenInfo where
  screen_number : Int
  x_org : Int
  y_org : Int
  width : Int
  height : Int

structure SubWID where
  wid : Int
  dx : Int
  dy : Int
  x : Int
  y : Int
  wdx : Int
  wdy : Int

structure XRectangle where
  x : Int
  y : Int
  width : Nat
  height : Nat
  deriving DecidableEq

def toShort (n : Int) : Int := n.bmod (2 ^ 16)

def toUShort (n : Int) : Nat := (n % 2 ^ 16).toNat

def XineramaScreenInfo.rect (xsi : XineramaScreenInfo) : XRectangle where
  x := toShort xsi.x_org
  y := toShort xsi.y_org
  width := toUShort xsi.width
  height := toUShort xsi.height

def SubWID.rect (sub : SubWID) : XRectangle where
  x := toShort sub.dx
  y := toShort sub.dy
  width := toUShort sub.wdx
  height := toUShort sub.wdy

structure QueryScreensReply where
  number : Nat
  screens : List XineramaScreenInfo
  complete : screens.length = number

structure XineramaInfoReply where
  subs : List SubWID
  complete : subs.length = MAXSCREEN

/-- What `XineramaGetState` learns: whether there is the extension, its version, and
whether it is active. A query that fails has no answer. -/
structure StateReplies where
  extension : Bool
  version : Option (Nat × Nat)
  active : Option Bool

def XineramaIsActive (q : StateReplies) : Bool := q.extension && q.active.getD false

def extended (version : Nat × Nat) : Bool := decide (version.1 = 1 ∧ 0 ≤ version.2)

def XineramaGetState (screen_number : Int) (q : StateReplies) : Bool :=
  if screen_number ≠ 0 then false
  else if q.extension = false then false
  else
    match q.version with
    | none => false
    | some version => if extended version = true then XineramaIsActive q else true

/-- The answers to what `XQueryScreens` asks for: the reply, and the memory for its screens. -/
structure ScreensReplies where
  extension : Bool
  reply : Option QueryScreensReply
  malloc : Nat → Bool

def XineramaQueryScreens (q : ScreensReplies) : Option (List XineramaScreenInfo) :=
  if q.extension = false then none
  else
    match q.reply with
    | none => none
    | some rep => if 0 < rep.number ∧ rep.number ≤ 1024 ∧ q.malloc rep.number = true then some rep.screens else none

/-- The answers to what `XGetXineramaInfo` asks for. -/
structure InfoReplies where
  state : StateReplies
  malloc : Bool
  reply : Option XineramaInfoReply

abbrev Cells (α : Type) := List (Option α)

def blank (α : Type) : Cells α := List.replicate MAXSCREEN none

def store {α : Type} (i : Nat) : List (Option α) → Cells α → Run (Cells α)
  | [], cells => .ok cells
  | v :: vs, cells => if i < cells.length then store (i + 1) vs (cells.set i v) else .error .badWrite

/-- The caller's structure. -/
structure XineramaInfo where
  subs : Cells SubWID
  slots : subs.length = MAXSCREEN

def XGetXineramaInfo (screen_number : Int) (q : InfoReplies) (info : XineramaInfo) : Run (Option (Cells SubWID)) :=
  if XineramaGetState screen_number q.state = false then .ok none
  else if q.malloc = false then .error .badWrite
  else
    match q.reply with
    | none => .ok none
    | some rep => do return some (← store 0 ((rep.subs.take (MAXSCREEN - 1)).map some) info.subs)

def newInfo : XineramaInfo := ⟨blank SubWID, List.length_replicate⟩

inductive Place
  | none
  | top
  | bottom
  | right
  | left
  deriving DecidableEq

def placeOf (front r : XRectangle) : Place :=
  if front.x < r.x then if r.y = front.y then .right else .none
  else if r.x = front.x then
    if front.y < r.y then .top else if r.y < front.y then .bottom else .none
  else if r.y = front.y then .left else .none

def hints (front : Option XRectangle) (i : Nat) : List (Option XRectangle) → List (Option Place)
  | [] => []
  | r :: rs => (if i = 0 then some .none else do return placeOf (← front) (← r)) :: hints r (i + 1) rs

/-- The answers to what `XineramaGetInfo` asks for. A count that cannot be got is whatever
the variable held before. -/
structure Replies where
  state : StateReplies
  version : Option (Nat × Nat)
  screens : ScreensReplies
  count : Option Nat
  leftover : Int
  malloc : Bool
  info : InfoReplies

/-- What `XineramaGetInfo` stores for its caller. -/
structure Reported where
  num_framebuffers : Int
  framebuffer_rects : Cells XRectangle
  framebuffer_hints : Cells Place

def report (count : Int) (rects : List (Option XRectangle)) : Run Reported := do
  let framebuffer_rects ← store 0 rects (blank XRectangle)
  let framebuffer_hints ← store 0 (hints none 0 rects) (blank Place)
  return ⟨count, framebuffer_rects, framebuffer_hints⟩

def screenCount (q : Replies) : Int :=
  match q.count with
  | none => q.leftover
  | some n => n

def clamp (count : Int) : Int := if (MAXSCREEN : Int) < count then MAXSCREEN else count

def subRects (count : Int) (subs : Cells SubWID) : List (Option XRectangle) :=
  (subs.take count.toNat).map (Option.map SubWID.rect)

def XineramaGetInfo (screen_number : Int) (q : Replies) : Run (Option Reported) :=
  if XineramaGetState screen_number q.state = false then .ok none
  else
    match q.version with
    | none => .ok none
    | some version =>
        if extended version = true then
          match XineramaQueryScreens q.screens with
          | none => .ok none
          | some xsi => do return some (← report xsi.length (xsi.map fun s => some s.rect))
        else if screenCount q = 0 then .ok none
        else if q.malloc = false then .ok none
        else do
          match ← XGetXineramaInfo screen_number q.info newInfo with
          | none => return none
          | some subs =>
              let count := clamp (screenCount q)
              return some (← report count (subRects count subs))

structure Resources where
  xineramaDefaultFramebuffer : Option Int
  xineramaCenterHintX : Option Int
  xineramaCenterHintY : Option Int

structure CenterReplies where
  state : StateReplies
  info : Replies
  xrdb : Option Resources
  width : Int
  height : Int

def CenterReplies.fb (q : CenterReplies) : Int :=
  match q.xrdb with
  | none => -1
  | some r => r.xineramaDefaultFramebuffer.getD (-1)

def CenterReplies.point (q : CenterReplies) (fbs : Int) : Int × Int :=
  match q.xrdb with
  | none => (-1, -1)
  | some r =>
      if q.fb < 0 ∨ fbs ≤ q.fb then (r.xineramaCenterHintX.getD (-1), r.xineramaCenterHintY.getD (-1)) else (-1, -1)

def CenterReplies.onScreen (q : CenterReplies) (p : Int × Int) : Int × Int :=
  (if 0 ≤ p.1 ∧ p.1 < q.width then p.1 else q.width / 2, if 0 ≤ p.2 ∧ p.2 < q.height then p.2 else q.height / 2)

def XineramaGetCenterHint (screen_number : Int) (q : CenterReplies) : Run (Option (Int × Int)) :=
  if screen_number ≠ 0 then .ok none
  else do
    let xiGetInfo ← XineramaGetInfo screen_number q.info
    if XineramaGetState screen_number q.state = false then
      if q.fb = 0 then return some (q.width / 2, q.height / 2)
      else return some (q.onScreen (q.point 1))
    else
      match xiGetInfo with
      | none => return none
      | some r =>
          if 0 ≤ q.fb ∧ q.fb < r.num_framebuffers ∧ q.fb < MAXSCREEN then
            match r.framebuffer_rects[q.fb.toNat]? with
            | some (some rect) => return some (rect.x + (rect.width / 2 : Nat), rect.y + (rect.height / 2 : Nat))
            | _ => .error .badRead
          else return some (q.onScreen (q.point r.num_framebuffers))

def Replies.source (q : Replies) : List XRectangle :=
  if (q.version.map extended) = some true then (q.screens.reply.elim [] (·.screens)).map XineramaScreenInfo.rect
  else (q.info.reply.elim [] (·.subs)).map SubWID.rect

def hintAt (source : List XRectangle) (i : Nat) : Place :=
  if i = 0 then .none
  else
    match source[i - 1]?, source[i]? with
    | some front, some r => placeOf front r
    | _, _ => .none

structure FromReply (source : List XRectangle) (r : Reported) : Prop where
  bounded : r.num_framebuffers ≤ MAXSCREEN
  rects : ∀ i : Nat, (i : Int) < r.num_framebuffers → ∃ rect, source[i]? = some rect ∧
    r.framebuffer_rects[i]? = some (some rect)
  hints : ∀ i : Nat, (i : Int) < r.num_framebuffers → r.framebuffer_hints[i]? = some (some (hintAt source i))

structure TakesScreens (screen_number : Int) (q : Replies) (rep : QueryScreensReply) : Prop where
  state : XineramaGetState screen_number q.state = true
  version : q.version.map extended = some true
  extension : q.screens.extension = true
  reply : q.screens.reply = some rep
  number : 0 < rep.number ∧ rep.number ≤ 1024
  malloc : q.screens.malloc rep.number = true

structure AsksSolaris (screen_number : Int) (q : Replies) : Prop where
  state : XineramaGetState screen_number q.state = true
  version : q.version.map extended = some false
  count : screenCount q ≠ 0
  malloc : q.malloc = true
  again : XineramaGetState screen_number q.info.state = true

def InfoRight (screen_number : Int) (q : Replies) : Prop :=
  ∃ r, XineramaGetInfo screen_number q = .ok r ∧ ∀ rep, r = some rep → FromReply q.source rep

/-- Not more screens than the arrays have places, and one fewer with the Solaris reply. -/
structure InfoFits (screen_number : Int) (q : Replies) : Prop where
  screens : ∀ rep, TakesScreens screen_number q rep → rep.number ≤ MAXSCREEN
  reply : AsksSolaris screen_number q → q.info.malloc = true
  subs : AsksSolaris screen_number q → q.info.reply.isSome = true → screenCount q < MAXSCREEN

def CenterRight (screen_number : Int) (q : CenterReplies) : Prop := ∃ r, XineramaGetCenterHint screen_number q = .ok r

structure CenterFits (screen_number : Int) (q : CenterReplies) : Prop where
  screens : ∀ rep, TakesScreens screen_number q.info rep → rep.number ≤ MAXSCREEN
  reply : AsksSolaris screen_number q.info → q.info.info.malloc = true
  subs : AsksSolaris screen_number q.info → q.info.info.reply.isSome = true →
    XineramaGetState screen_number q.state = true → q.fb = MAXSCREEN - 1 → screenCount q.info < MAXSCREEN

/-- All places of the structure but the last one hold what the reply has there. -/
def GetRight (screen_number : Int) (q : InfoReplies) (info : XineramaInfo) : Prop :=
  ∃ r, XGetXineramaInfo screen_number q info = .ok r ∧ ∀ subs, r = some subs →
    ∃ rep, q.reply = some rep ∧ subs = (rep.subs.take (MAXSCREEN - 1)).map some ++ info.subs.drop (MAXSCREEN - 1)

def QueryRight (q : ScreensReplies) : Prop :=
  ∀ xsi, XineramaQueryScreens q = some xsi → ∃ rep, q.reply = some rep ∧ xsi = rep.screens ∧ xsi.length = rep.number

section Storing

variable {α : Type}

theorem store_eq (i : Nat) (vs : List (Option α)) (cells : Cells α) (hi : i ≤ cells.length) :
    store i vs cells = if i + vs.length ≤ cells.length then .ok (cells.take i ++ (vs ++ cells.drop (i + vs.length)))
      else .error .badWrite := by
  induction vs generalizing i cells with
  | nil => simp [store, hi]
  | cons v vs ih =>
      rw [store]
      by_cases hlt : i < cells.length
      · rw [if_pos hlt, ih (i + 1) _ (by rw [List.length_set]; exact hlt), List.length_set, List.length_cons]
        have hcount : i + 1 + vs.length = i + (vs.length + 1) := by omega
        have htake : (cells.set i v).take (i + 1) = cells.take i ++ [v] := by
          rw [List.take_add_one, List.take_set_of_le (Nat.le_refl i), List.getElem?_set_self hlt]
          rfl
        have hdrop : (cells.set i v).drop (i + (vs.length + 1)) = cells.drop (i + (vs.length + 1)) :=
          List.drop_set_of_lt (by omega)
        rw [hcount, htake, hdrop]
        simp only [List.append_assoc, List.cons_append, List.nil_append]
      · rw [if_neg hlt, if_neg]
        rw [List.length_cons]
        omega

theorem store_blank (vs : List (Option α)) :
    store 0 vs (blank α) =
      if vs.length ≤ MAXSCREEN then .ok (vs ++ (blank α).drop vs.length) else .error .badWrite := by
  have hlength : (blank α).length = MAXSCREEN := List.length_replicate
  rw [store_eq 0 vs (blank α) (Nat.zero_le _), hlength, Nat.zero_add, List.take_zero, List.nil_append]

end Storing

section Reports

variable {source : List XRectangle} {rs : List (Option XRectangle)} {count : Int}

theorem hints_length (front : Option XRectangle) (k : Nat) (rs : List (Option XRectangle)) :
    (hints front k rs).length = rs.length := by
  induction rs generalizing front k with
  | nil => rfl
  | cons r rs ih => rw [hints, List.length_cons, List.length_cons, ih]

theorem hints_getElem (front : Option XRectangle) (k i : Nat) (rs : List (Option XRectangle)) :
    (hints front k rs)[i]? = rs[i]?.map fun r =>
      if k + i = 0 then some .none else do return placeOf (← if i = 0 then front else (rs[i - 1]?).join) (← r) := by
  induction rs generalizing front k i with
  | nil => rfl
  | cons r rs ih =>
      cases i with
      | zero => rfl
      | succ i =>
          have hsum : k + 1 + i = k + (i + 1) := by omega
          rw [hints, List.getElem?_cons_succ, List.getElem?_cons_succ, ih, hsum]
          cases i with
          | zero => rfl
          | succ i => rfl

theorem report_short (h : rs.length ≤ MAXSCREEN) : report count rs =
    .ok ⟨count, rs ++ (blank XRectangle).drop rs.length, hints none 0 rs ++ (blank Place).drop rs.length⟩ := by
  simp only [report, store_blank, if_pos h, hints_length]
  rfl

theorem report_long (h : ¬ rs.length ≤ MAXSCREEN) : report count rs = .error .badWrite := by
  simp only [report, store_blank, if_neg h]
  rfl

theorem fromReply_of_rects (h : rs.length ≤ MAXSCREEN) (hcount : count ≤ rs.length)
    (hrs : ∀ i : Nat, (i : Int) < count → ∃ rect, source[i]? = some rect ∧ rs[i]? = some (some rect)) :
    FromReply source
      ⟨count, rs ++ (blank XRectangle).drop rs.length, hints none 0 rs ++ (blank Place).drop rs.length⟩ where
  bounded := by
    change count ≤ (MAXSCREEN : Int)
    omega
  rects := by
    intro i hi
    obtain ⟨rect, hsource, hrect⟩ := hrs i hi
    refine ⟨rect, hsource, ?_⟩
    have hlt := (List.getElem?_eq_some_iff.mp hrect).1
    exact (List.getElem?_append_left hlt).trans hrect
  hints := by
    intro i hi
    obtain ⟨rect, hsource, hrect⟩ := hrs i hi
    have hlt := (List.getElem?_eq_some_iff.mp hrect).1
    refine (List.getElem?_append_left ((hints_length none 0 rs).symm ▸ hlt)).trans ?_
    rw [hints_getElem, hrect, Option.map_some, Nat.zero_add]
    cases i with
    | zero => rfl
    | succ i =>
        have hi' : (i : Int) < count := by
          have hsucc : ((i + 1 : Nat) : Int) < count := hi
          omega
        obtain ⟨rect', hsource', hrect'⟩ := hrs i hi'
        rw [Nat.add_sub_cancel, hrect', hintAt, if_neg (Nat.succ_ne_zero i), Nat.add_sub_cancel, hsource, hsource']
        rfl

end Reports

section Paths

variable {screen_number : Int} {q : Replies} {rep : QueryScreensReply}

theorem get_reply {i : InfoReplies} {r : XineramaInfoReply} (info : XineramaInfo)
    (hstate : XineramaGetState screen_number i.state = true) (hmalloc : i.malloc = true) (hreply : i.reply = some r) :
    XGetXineramaInfo screen_number i info =
      .ok (some ((r.subs.take (MAXSCREEN - 1)).map some ++ info.subs.drop (MAXSCREEN - 1))) := by
  have hlength : ((r.subs.take (MAXSCREEN - 1)).map some).length = MAXSCREEN - 1 := by
    rw [List.length_map, List.length_take, r.complete]
    decide
  have hstore := store_eq 0 ((r.subs.take (MAXSCREEN - 1)).map some) info.subs (Nat.zero_le _)
  rw [hlength, info.slots, if_pos (by decide), List.take_zero, List.nil_append, Nat.zero_add] at hstore
  simp only [XGetXineramaInfo, hstate, hmalloc, hreply, hstore, ↓reduceIte, Bool.true_eq_false]
  rfl

theorem info_screens (h : TakesScreens screen_number q rep) : XineramaGetInfo screen_number q =
    (report rep.number (rep.screens.map fun xsi => some xsi.rect) >>= fun r => pure (some r)) := by
  obtain ⟨version, hversion, hextended⟩ := Option.map_eq_some_iff.mp h.version
  have hquery : XineramaQueryScreens q.screens = some rep.screens := by
    rw [XineramaQueryScreens, h.extension, h.reply]
    exact if_pos (And.intro h.number.1 (And.intro h.number.2 h.malloc))
  simp only [XineramaGetInfo, h.state, hversion, hextended, hquery, rep.complete, ↓reduceIte, Bool.true_eq_false]

theorem info_solaris (h : AsksSolaris screen_number q) : XineramaGetInfo screen_number q =
    (XGetXineramaInfo screen_number q.info newInfo >>= fun r =>
      match r with
      | none => pure none
      | some subs => report (clamp (screenCount q)) (subRects (clamp (screenCount q)) subs) >>=
          fun r => pure (some r)) := by
  obtain ⟨version, hversion, hextended⟩ := Option.map_eq_some_iff.mp h.version
  simp only [XineramaGetInfo, h.state, hversion, hextended, h.count, h.malloc, ↓reduceIte, Bool.true_eq_false,
    Bool.false_eq_true]

theorem info_none (hscreens : ∀ rep, ¬ TakesScreens screen_number q rep) (hsolaris : ¬ AsksSolaris screen_number q) :
    XineramaGetInfo screen_number q = .ok none := by
  cases hstate : XineramaGetState screen_number q.state with
  | false => simp only [XineramaGetInfo, hstate, ↓reduceIte]
  | true =>
      cases hversion : q.version with
      | none => simp only [XineramaGetInfo, hstate, hversion, ↓reduceIte, Bool.true_eq_false]
      | some version =>
          cases hextended : extended version with
          | true =>
              cases hquery : XineramaQueryScreens q.screens with
              | none =>
                  simp only [XineramaGetInfo, hstate, hversion, hextended, hquery, ↓reduceIte, Bool.true_eq_false]
              | some xsi =>
                  exfalso
                  rw [XineramaQueryScreens] at hquery
                  split at hquery
                  · cases hquery
                  · rename_i hext
                    split at hquery
                    · cases hquery
                    · rename_i rep hreply
                      split at hquery
                      · rename_i hnumber
                        refine hscreens rep ⟨hstate, ?_, ?_, hreply, ⟨hnumber.1, hnumber.2.1⟩, hnumber.2.2⟩
                        · rw [hversion, Option.map_some, hextended]
                        · exact Bool.not_eq_false _ ▸ hext
                      · cases hquery
          | false =>
              by_cases hcount : screenCount q = 0
              · simp only [XineramaGetInfo, hstate, hversion, hextended, hcount, ↓reduceIte, Bool.true_eq_false,
                  Bool.false_eq_true]
              cases hmalloc : q.malloc with
              | false =>
                  simp only [XineramaGetInfo, hstate, hversion, hextended, hcount, hmalloc, ↓reduceIte,
                    Bool.true_eq_false, Bool.false_eq_true]
              | true =>
                  have hagain : XineramaGetState screen_number q.info.state = false := by
                    rw [← Bool.not_eq_true]
                    refine fun hagain => hsolaris ⟨hstate, ?_, hcount, hmalloc, hagain⟩
                    rw [hversion, Option.map_some, hextended]
                  simp only [XineramaGetInfo, XGetXineramaInfo, hstate, hversion, hextended, hcount, hmalloc, hagain,
                    ↓reduceIte, Bool.true_eq_false, Bool.false_eq_true]
                  rfl

/-- The two protocols are never both taken. -/
theorem TakesScreens.not_solaris (h : TakesScreens screen_number q rep) : ¬ AsksSolaris screen_number q := by
  intro h'
  have hboth := h.version.symm.trans h'.version
  cases hboth

def copied (r : XineramaInfoReply) : Cells SubWID :=
  (r.subs.take (MAXSCREEN - 1)).map some ++ newInfo.subs.drop (MAXSCREEN - 1)

theorem copied_below {r : XineramaInfoReply} {i : Nat} (h : i < MAXSCREEN - 1) :
    ∃ sub, r.subs[i]? = some sub ∧ (copied r)[i]? = some (some sub) := by
  have hlt : i < r.subs.length := by
    rw [r.complete]
    exact Nat.lt_of_lt_of_le h (by decide)
  refine ⟨r.subs[i], List.getElem?_eq_getElem hlt, ?_⟩
  have htake : ((r.subs.take (MAXSCREEN - 1)).map some)[i]? = some (some r.subs[i]) := by
    rw [List.getElem?_map, List.getElem?_take_of_lt h, List.getElem?_eq_getElem hlt, Option.map_some]
  rw [copied, List.getElem?_append_left (List.getElem?_eq_some_iff.mp htake).1, htake]

theorem copied_last (r : XineramaInfoReply) : (copied r)[MAXSCREEN - 1]? = some none := by
  have hlength : ((r.subs.take (MAXSCREEN - 1)).map some).length = MAXSCREEN - 1 := by
    rw [List.length_map, List.length_take, r.complete]
    decide
  rw [copied, List.getElem?_append_right (Nat.le_of_eq hlength), hlength]
  rfl

theorem copied_length (r : XineramaInfoReply) : (copied r).length = MAXSCREEN := by
  rw [copied, List.length_append, List.length_map, List.length_take, r.complete]
  rfl

theorem subRects_getElem {count : Int} {i : Nat} (h : (i : Int) < count) (subs : Cells SubWID) :
    (subRects count subs)[i]? = subs[i]?.map (Option.map SubWID.rect) := by
  rw [subRects, List.getElem?_map, List.getElem?_take_of_lt (by omega)]

theorem subRects_length (count : Int) (r : XineramaInfoReply) :
    (subRects (clamp count) (copied r)).length = (clamp count).toNat := by
  rw [subRects, List.length_map, List.length_take, copied_length, clamp]
  split
  · rfl
  · omega

theorem clamp_le (count : Int) : clamp count ≤ MAXSCREEN := by
  rw [clamp]
  split
  · exact Int.le_refl _
  · omega

theorem source_screens (h : TakesScreens screen_number q rep) :
    q.source = rep.screens.map XineramaScreenInfo.rect := by
  rw [Replies.source, if_pos h.version, h.reply]
  rfl

theorem source_solaris {r : XineramaInfoReply} (h : AsksSolaris screen_number q) (hreply : q.info.reply = some r) :
    q.source = r.subs.map SubWID.rect := by
  have hne : ¬ q.version.map extended = some true := by
    rw [h.version]
    decide
  rw [Replies.source, if_neg hne, hreply]
  rfl

theorem info_copied {r : XineramaInfoReply} (h : AsksSolaris screen_number q) (hmalloc : q.info.malloc = true)
    (hreply : q.info.reply = some r) : XineramaGetInfo screen_number q = .ok (some
      ⟨clamp (screenCount q),
        subRects (clamp (screenCount q)) (copied r) ++
          (blank XRectangle).drop (subRects (clamp (screenCount q)) (copied r)).length,
        hints none 0 (subRects (clamp (screenCount q)) (copied r)) ++
          (blank Place).drop (subRects (clamp (screenCount q)) (copied r)).length⟩) := by
  have hle : (subRects (clamp (screenCount q)) (copied r)).length ≤ MAXSCREEN := by
    rw [subRects_length]
    have := clamp_le (screenCount q)
    omega
  rw [info_solaris h, get_reply newInfo h.again hmalloc hreply]
  change (report (clamp (screenCount q)) (subRects (clamp (screenCount q)) (copied r)) >>= fun r => pure (some r)) = _
  rw [report_short hle]
  rfl

theorem info_refused (h : AsksSolaris screen_number q) (hmalloc : q.info.malloc = false) :
    XineramaGetInfo screen_number q = .error .badWrite := by
  rw [info_solaris h]
  simp only [XGetXineramaInfo, h.again, hmalloc, ↓reduceIte, Bool.true_eq_false]
  rfl

theorem info_unanswered (h : AsksSolaris screen_number q) (hmalloc : q.info.malloc = true)
    (hreply : q.info.reply = none) : XineramaGetInfo screen_number q = .ok none := by
  rw [info_solaris h]
  simp only [XGetXineramaInfo, h.again, hmalloc, hreply, ↓reduceIte, Bool.true_eq_false]
  rfl

theorem fromReply_copied {r : XineramaInfoReply} (h : AsksSolaris screen_number q) (hreply : q.info.reply = some r) :
    FromReply q.source
      ⟨clamp (screenCount q),
        subRects (clamp (screenCount q)) (copied r) ++
          (blank XRectangle).drop (subRects (clamp (screenCount q)) (copied r)).length,
        hints none 0 (subRects (clamp (screenCount q)) (copied r)) ++
          (blank Place).drop (subRects (clamp (screenCount q)) (copied r)).length⟩ ↔ screenCount q < MAXSCREEN := by
  constructor
  · intro hreport
    by_contra hge
    have hclamp : clamp (screenCount q) = MAXSCREEN := by
      rw [clamp]
      split
      · rfl
      · omega
    have hlast : ((MAXSCREEN - 1 : Nat) : Int) < clamp (screenCount q) := by
      rw [hclamp]
      decide
    obtain ⟨rect, -, hrect⟩ := hreport.rects (MAXSCREEN - 1) hlast
    have hnone : (subRects (clamp (screenCount q)) (copied r))[MAXSCREEN - 1]? = some none := by
      rw [subRects_getElem hlast, copied_last]
      rfl
    have hlt := (List.getElem?_eq_some_iff.mp hnone).1
    have happ := (List.getElem?_append_left hlt).symm.trans hrect
    rw [hnone] at happ
    cases happ
  · intro hlt
    have hclamp : clamp (screenCount q) = screenCount q := by
      rw [clamp, if_neg (by omega)]
    apply fromReply_of_rects
    · rw [subRects_length]
      have := clamp_le (screenCount q)
      omega
    · rw [subRects_length]
      omega
    · intro i hi
      have hi' : i < MAXSCREEN - 1 := by
        rw [hclamp] at hi
        omega
      obtain ⟨sub, hsub, hcopied⟩ := copied_below (r := r) hi'
      refine ⟨sub.rect, ?_, ?_⟩
      · rw [source_solaris h hreply, List.getElem?_map, hsub]
        rfl
      · rw [subRects_getElem hi, hcopied]
        rfl

theorem infoFits_screens (h : TakesScreens screen_number q rep) :
    InfoFits screen_number q ↔ rep.number ≤ MAXSCREEN := by
  refine ⟨fun hf => hf.screens rep h, fun hle => ⟨fun rep' h' => ?_, ?_, ?_⟩⟩
  · obtain rfl := Option.some.inj (h.reply.symm.trans h'.reply)
    exact hle
  · exact fun h' => absurd h' h.not_solaris
  · exact fun h' => absurd h' h.not_solaris

theorem infoRight_iff : InfoRight screen_number q ↔ InfoFits screen_number q := by
  by_cases hscreens : ∃ rep, TakesScreens screen_number q rep
  · obtain ⟨rep, h⟩ := hscreens
    have hlength : (rep.screens.map fun xsi => some xsi.rect).length = rep.number := by
      rw [List.length_map, rep.complete]
    rw [infoFits_screens h, InfoRight, info_screens h]
    by_cases hle : rep.number ≤ MAXSCREEN
    · refine ⟨fun _ => hle, fun _ => ?_⟩
      rw [report_short (hlength ▸ hle)]
      refine ⟨_, rfl, ?_⟩
      intro r hr
      cases hr
      rw [source_screens h]
      refine fromReply_of_rects (hlength ▸ hle) (Int.ofNat_le.mpr (Nat.le_of_eq hlength.symm)) ?_
      intro i hi
      have hlt : i < rep.screens.length := by
        rw [rep.complete]
        omega
      refine ⟨rep.screens[i].rect, ?_, ?_⟩
      · rw [List.getElem?_map, List.getElem?_eq_getElem hlt, Option.map_some]
      · rw [List.getElem?_map, List.getElem?_eq_getElem hlt, Option.map_some]
    · refine ⟨fun hright => ?_, fun h' => absurd h' hle⟩
      rw [report_long (by rw [hlength]; exact hle)] at hright
      obtain ⟨r, hr, -⟩ := hright
      cases hr
  have hnot : ∀ rep, ¬ TakesScreens screen_number q rep := fun rep h => hscreens ⟨rep, h⟩
  by_cases h : AsksSolaris screen_number q
  · have hfits : InfoFits screen_number q ↔ q.info.malloc = true ∧
        (q.info.reply.isSome = true → screenCount q < MAXSCREEN) :=
      ⟨fun hf => ⟨hf.reply h, hf.subs h⟩,
        fun hf => ⟨fun rep h' => absurd h' (hnot rep), fun _ => hf.1, fun _ => hf.2⟩⟩
    rw [hfits, InfoRight]
    cases hmalloc : q.info.malloc with
    | false =>
        rw [info_refused h hmalloc]
        refine ⟨fun hright => ?_, fun h' => absurd h'.1 Bool.false_ne_true⟩
        obtain ⟨r, hr, -⟩ := hright
        cases hr
    | true =>
        cases hreply : q.info.reply with
        | none =>
            rw [info_unanswered h hmalloc hreply]
            exact ⟨fun _ => ⟨rfl, nofun⟩, fun _ => ⟨_, rfl, nofun⟩⟩
        | some r =>
            rw [info_copied h hmalloc hreply, ← fromReply_copied h hreply]
            constructor
            · rintro ⟨o, ho, hreport⟩
              cases ho
              exact ⟨rfl, fun _ => hreport _ rfl⟩
            · intro hreport
              refine ⟨_, rfl, ?_⟩
              intro rep hrep
              cases hrep
              exact hreport.2 rfl
  · rw [InfoRight, info_none hnot h]
    refine ⟨fun _ => ⟨fun rep h' => absurd h' (hnot rep), fun h' => absurd h' h, fun h' => absurd h' h⟩, fun _ => ?_⟩
    exact ⟨_, rfl, nofun⟩

end Paths

section Center

variable {screen_number : Int} {q : CenterReplies}

theorem center_of_info {o : Option Reported} (hinfo : XineramaGetInfo 0 q.info = .ok o) :
    CenterRight 0 q ↔ ∀ r, o = some r → XineramaGetState 0 q.state = true →
      0 ≤ q.fb ∧ q.fb < r.num_framebuffers ∧ q.fb < MAXSCREEN →
        ∃ rect, r.framebuffer_rects[q.fb.toNat]? = some (some rect) := by
  rw [CenterRight]
  cases hstate : XineramaGetState 0 q.state with
  | false =>
      constructor
      · intro _ r _ h
        cases h
      intro _
      by_cases hfb : q.fb = 0
      · refine ⟨some (q.width / 2, q.height / 2), ?_⟩
        simp only [XineramaGetCenterHint, hinfo, hstate, hfb, ne_eq, not_true_eq_false, ↓reduceIte]
        rfl
      · refine ⟨some (q.onScreen (q.point 1)), ?_⟩
        simp only [XineramaGetCenterHint, hinfo, hstate, hfb, ne_eq, not_true_eq_false, ↓reduceIte]
        rfl
  | true =>
      cases o with
      | none =>
          refine ⟨fun _ => nofun, fun _ => ⟨none, ?_⟩⟩
          simp only [XineramaGetCenterHint, hinfo, hstate, ne_eq, not_true_eq_false, ↓reduceIte, Bool.true_eq_false]
          rfl
      | some r =>
          have hrun : XineramaGetCenterHint 0 q =
              if 0 ≤ q.fb ∧ q.fb < r.num_framebuffers ∧ q.fb < MAXSCREEN then
                match r.framebuffer_rects[q.fb.toNat]? with
                | some (some rect) =>
                    .ok (some (rect.x + (rect.width / 2 : Nat), rect.y + (rect.height / 2 : Nat)))
                | _ => .error .badRead
              else .ok (some (q.onScreen (q.point r.num_framebuffers))) := by
            simp only [XineramaGetCenterHint, hinfo, hstate, ne_eq, not_true_eq_false, ↓reduceIte, Bool.true_eq_false]
            rfl
          rw [hrun]
          by_cases hfb : 0 ≤ q.fb ∧ q.fb < r.num_framebuffers ∧ q.fb < MAXSCREEN
          · rw [if_pos hfb]
            constructor
            · rintro ⟨p, hp⟩ r' hr' - -
              cases hr'
              split at hp
              · exact ⟨_, ‹_›⟩
              · cases hp
            · intro h
              obtain ⟨rect, hrect⟩ := h r rfl rfl hfb
              rw [hrect]
              exact ⟨_, rfl⟩
          · rw [if_neg hfb]
            refine ⟨fun _ r' hr' _ h => ?_, fun _ => ⟨_, rfl⟩⟩
            cases hr'
            exact absurd h hfb

theorem center_fault {e : Fault} (hinfo : XineramaGetInfo 0 q.info = .error e) : ¬ CenterRight 0 q := by
  rintro ⟨r, hr⟩
  simp only [XineramaGetCenterHint, hinfo, ne_eq, not_true_eq_false, ↓reduceIte] at hr
  cases hr

theorem centerRight_iff : CenterRight screen_number q ↔ CenterFits screen_number q := by
  by_cases hzero : screen_number = 0
  swap
  · have hstate : ∀ s, ¬ XineramaGetState screen_number s = true := fun s h => by
      rw [XineramaGetState, if_pos hzero] at h
      cases h
    refine ⟨fun _ => ⟨?_, ?_, ?_⟩, fun _ => ⟨none, if_pos hzero⟩⟩
    · exact fun rep h => absurd h.state (hstate _)
    · exact fun h => absurd h.state (hstate _)
    · exact fun h => absurd h.state (hstate _)
  subst hzero
  by_cases hscreens : ∃ rep, TakesScreens 0 q.info rep
  · obtain ⟨rep, h⟩ := hscreens
    have hfits : InfoFits 0 q.info ↔ rep.number ≤ MAXSCREEN := infoFits_screens h
    have hcenter : CenterFits 0 q ↔ InfoFits 0 q.info :=
      ⟨fun hf => ⟨hf.screens, hf.reply, fun h' => absurd h' h.not_solaris⟩,
        fun hf => ⟨hf.screens, hf.reply, fun h' => absurd h' h.not_solaris⟩⟩
    rw [hcenter]
    constructor
    · intro hright
      by_contra hnot
      rw [hfits] at hnot
      refine center_fault (e := .badWrite) ?_ hright
      rw [info_screens h, report_long (by rw [List.length_map, rep.complete]; exact hnot)]
      rfl
    · intro hf
      obtain ⟨o, ho, hreport⟩ := infoRight_iff.mpr hf
      rw [center_of_info ho]
      intro r hr _ hfb
      have hnat : ((q.fb.toNat : Nat) : Int) < r.num_framebuffers := by omega
      obtain ⟨rect, -, hrect⟩ := (hreport r hr).rects q.fb.toNat hnat
      exact ⟨rect, hrect⟩
  have hnot : ∀ rep, ¬ TakesScreens 0 q.info rep := fun rep h => hscreens ⟨rep, h⟩
  by_cases h : AsksSolaris 0 q.info
  swap
  · rw [center_of_info (info_none hnot h)]
    refine ⟨fun _ => ⟨fun rep h' => absurd h' (hnot rep), fun h' => absurd h' h, fun h' => absurd h' h⟩, fun _ => ?_⟩
    intro r hr
    cases hr
  have hfits : CenterFits 0 q ↔ q.info.info.malloc = true ∧ (q.info.info.reply.isSome = true →
      XineramaGetState 0 q.state = true → q.fb = MAXSCREEN - 1 → screenCount q.info < MAXSCREEN) :=
    ⟨fun hf => ⟨hf.reply h, hf.subs h⟩, fun hf => ⟨fun rep h' => absurd h' (hnot rep), fun _ => hf.1, fun _ => hf.2⟩⟩
  rw [hfits]
  cases hmalloc : q.info.info.malloc with
  | false => exact ⟨fun hright => absurd hright (center_fault (info_refused h hmalloc)), fun h' => by cases h'.1⟩
  | true =>
      cases hreply : q.info.info.reply with
      | none =>
          rw [center_of_info (info_unanswered h hmalloc hreply)]
          refine ⟨fun _ => ⟨rfl, nofun⟩, fun _ => ?_⟩
          intro r hr
          cases hr
      | some r =>
          rw [center_of_info (info_copied h hmalloc hreply)]
          constructor
          · intro hread
            refine ⟨rfl, fun _ hstate hfb => ?_⟩
            by_contra hge
            have hclamp : clamp (screenCount q.info) = MAXSCREEN := by
              rw [clamp]
              split
              · rfl
              · omega
            have hlast : q.fb < clamp (screenCount q.info) := by
              rw [hclamp, hfb]
              decide
            obtain ⟨rect, hrect⟩ := hread _ rfl hstate ⟨by rw [hfb]; decide, hlast, by rw [hfb]; decide⟩
            have hnat : q.fb.toNat = MAXSCREEN - 1 := by
              rw [hfb]
              rfl
            have hnone : (subRects (clamp (screenCount q.info)) (copied r))[MAXSCREEN - 1]? = some none := by
              rw [subRects_getElem (by rw [hclamp]; decide), copied_last]
              rfl
            have hlt := (List.getElem?_eq_some_iff.mp hnone).1
            rw [hnat] at hrect
            have happ := (List.getElem?_append_left hlt).symm.trans hrect
            rw [hnone] at happ
            cases happ
          · rintro ⟨-, hcount⟩ r' hr' hstate hfb
            cases hr'
            have hnat : ((q.fb.toNat : Nat) : Int) < clamp (screenCount q.info) := by
              have hlt : q.fb < clamp (screenCount q.info) := hfb.2.1
              omega
            have hbelow : q.fb.toNat < MAXSCREEN - 1 := by
              by_contra hge
              have hlast : q.fb = MAXSCREEN - 1 := by
                have hmax : q.fb < MAXSCREEN := hfb.2.2
                omega
              have hlt := hcount rfl hstate hlast
              have hclamp : clamp (screenCount q.info) ≤ screenCount q.info := by
                rw [clamp]
                split
                · omega
                · exact Int.le_refl _
              have hmax : (MAXSCREEN : Int) = 16 := rfl
              omega
            obtain ⟨sub, -, hsub⟩ := copied_below (r := r) hbelow
            have hrect : (subRects (clamp (screenCount q.info)) (copied r))[q.fb.toNat]? = some (some sub.rect) := by
              rw [subRects_getElem hnat, hsub]
              rfl
            have hlt := (List.getElem?_eq_some_iff.mp hrect).1
            exact ⟨sub.rect, (List.getElem?_append_left hlt).trans hrect⟩

end Center

theorem getRight_iff {screen_number : Int} {q : InfoReplies} {info : XineramaInfo} :
    GetRight screen_number q info ↔ (XineramaGetState screen_number q.state = true → q.malloc = true) := by
  cases hstate : XineramaGetState screen_number q.state with
  | false =>
      refine ⟨fun _ h => absurd h Bool.false_ne_true, fun _ => ⟨none, ?_, nofun⟩⟩
      rw [XGetXineramaInfo, if_pos hstate]
  | true =>
      rw [imp_iff_right rfl]
      cases hmalloc : q.malloc with
      | false =>
          refine ⟨?_, fun h => absurd h Bool.false_ne_true⟩
          rintro ⟨r, hr, -⟩
          simp only [XGetXineramaInfo, hstate, hmalloc, ↓reduceIte, Bool.true_eq_false] at hr
          cases hr
      | true =>
          refine ⟨fun _ => rfl, fun _ => ?_⟩
          cases hreply : q.reply with
          | none =>
              refine ⟨none, ?_, nofun⟩
              simp only [XGetXineramaInfo, hstate, hmalloc, hreply, ↓reduceIte, Bool.true_eq_false]
          | some rep =>
              refine ⟨_, get_reply info hstate hmalloc hreply, ?_⟩
              intro subs hsubs
              exact ⟨rep, hreply, (Option.some.inj hsubs).symm⟩

theorem queryRight (q : ScreensReplies) : QueryRight q := by
  intro xsi h
  rw [XineramaQueryScreens] at h
  split at h
  · cases h
  · split at h
    · cases h
    · rename_i rep hreply
      split at h
      · cases h
        exact ⟨rep, hreply, rfl, rep.complete⟩
      · cases h

/-- How far the four functions do what they should with the answers they get. -/
theorem frameBuffers_iff (screen_number : Int) (q : Replies) (center : CenterReplies) (i : InfoReplies)
    (info : XineramaInfo) (screens : ScreensReplies) :
    (InfoRight screen_number q ∧ CenterRight screen_number center ∧ GetRight screen_number i info ∧
      QueryRight screens) ↔
    (InfoFits screen_number q ∧ CenterFits screen_number center ∧
      (XineramaGetState screen_number i.state = true → i.malloc = true)) := by
  rw [infoRight_iff, centerRight_iff, getRight_iff]
  exact ⟨fun h => ⟨h.1, h.2.1, h.2.2.1⟩, fun h => ⟨h.1, h.2.1, h.2.2, queryRight screens⟩⟩

def activeState : StateReplies := ⟨true, some (1, 1), some true⟩

/-- A server of the XFree86 protocol with seventeen screens. -/
def manyScreens : Replies where
  state := activeState
  version := some (1, 1)
  screens := ⟨true, some ⟨17, List.replicate 17 ⟨0, 0, 0, 1, 1⟩, by decide⟩, fun _ => true⟩
  count := none
  leftover := 0
  malloc := true
  info := ⟨activeState, true, none⟩

theorem frameBuffers_overrun : ¬ InfoRight 0 manyScreens := by
  rintro ⟨r, hr, -⟩
  cases hr

end OiUserland.Xinerama.FrameBuffers
