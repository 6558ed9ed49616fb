import OiUserland.HealthMonitor.DiskLists
import OiUserland.Lib.Runs

namespace OiUserland.HealthMonitor.DiskCursors

open Lib.Chains Lib.Contents Lib.Runs Iostat DiskLists

variable {ν : Type}

/-- What kstat_chain_update() answers, and whether everything can be read of a changed chain. -/
inductive Answer (ν : Type)
  | unchanged
  | changed (x : Chain ν) (loaded : Bool)
  | failed

structure Round (ν : Type) where
  opened : Option (Chain ν)
  answers : List (Answer ν)

structure Cursors (ν : Type) where
  io : IoState ν
  firstTime : Bool
  detailDisk : Addr
  srvDisk : Addr

def begin : Cursors ν := ⟨start, true, 0, 0⟩

structure Report where
  disk : Option Addr
  code : Nat
  deriving DecidableEq

def updateKstatChain (chars : ν → List Char) (io : IoState ν) : Answer ν → Option (IoState ν × Bool)
  | .unchanged => some (io, true)
  | .changed x loaded => (initDisks chars x io).map fun t => (t.1, loaded)
  | .failed => some (io, false)

def updateLoop (chars : ν → List Char) : List (Answer ν) → IoState ν → Option (IoState ν)
  | [], _ => none
  | a :: answers, io => do
      let (io, done) ← updateKstatChain chars io a
      if done then some io else updateLoop chars answers io

def advance (io : IoState ν) (disk : Addr) : Option (Addr × Report) :=
  if disk = 0 then some (io.firstdisk, ⟨none, 1⟩)
  else do
    let d ← io.heap.lookup disk
    let shown := if d.selected then some disk else none
    if d.next = 0 then some (io.firstdisk, ⟨shown, 1⟩) else some (d.next, ⟨shown, 0⟩)

def initializeEverything (chars : ν → List Char) (opened : Option (Chain ν)) (io : IoState ν) : Option (IoState ν) := do
  let x ← opened
  let (io, _) ← initDisks chars x io
  some io

def openFirst (chars : ν → List Char) (r : Round ν) (s : Cursors ν) (disk : Addr) : Option (IoState ν × Addr) :=
  if s.firstTime then (initializeEverything chars r.opened s.io).map fun io => (io, io.firstdisk) else some (s.io, disk)

def refreshDetail (io : IoState ν) (disk : Addr) : IoState ν × Addr :=
  if io.refreshDiskdetail then ({ io with refreshDiskdetail := false }, io.firstdisk) else (io, disk)

def refreshSrv (io : IoState ν) (disk : Addr) : IoState ν × Addr :=
  if io.refreshDisksrv then ({ io with refreshDisksrv := false }, io.firstdisk) else (io, disk)

def updateAtFirst (chars : ν → List Char) (answers : List (Answer ν)) (disk : Addr) (io : IoState ν) : Option (IoState ν) :=
  if disk = io.firstdisk then updateLoop chars answers io else some io

def krgetdiskdetail (chars : ν → List Char) (r : Round ν) (s : Cursors ν) : Option (Cursors ν × Report) := do
  let disk := if s.detailDisk = 0 then s.io.firstdisk else s.detailDisk
  let (io, disk) ← openFirst chars r s disk
  let (io, disk) := refreshDetail io disk
  let io ← updateAtFirst chars r.answers disk io
  let (disk, report) ← advance io disk
  some (⟨io, false, disk, s.srvDisk⟩, report)

def krgetdisksrv (s : Cursors ν) : Option (Cursors ν × Report) := do
  let disk := if s.srvDisk = 0 then s.io.firstdisk else s.srvDisk
  let (io, disk) := refreshSrv s.io disk
  let (disk, report) ← advance io disk
  some (⟨io, s.firstTime, s.detailDisk, disk⟩, report)

/-- What both functions have reported in a round, and the list at its end. -/
structure Entry (ν : Type) where
  detail : Report
  srv : Report
  io : IoState ν

structure History (ν : Type) where
  cursors : Cursors ν
  log : List (Entry ν)

def round (chars : ν → List Char) (r : Round ν) (h : History ν) : Option (History ν) := do
  let (s, detail) ← krgetdiskdetail chars r h.cursors
  let (s, srv) ← krgetdisksrv s
  some ⟨s, h.log ++ [⟨detail, srv, s.io⟩]⟩

def seenAfter (log : List (Entry ν)) : List Addr :=
  log.foldl (fun seen e => if e.srv.code = 1 then [] else seen ++ e.srv.disk.toList) []

/-- Both functions report on the same disk of the list, and when 1 is returned the whole list has been reported. -/
structure InStep (log : List (Entry ν)) : Prop where
  same : ∀ e ∈ log, e.detail = e.srv
  current : ∀ e ∈ log, ∀ a, e.srv.disk = some a → ∃ list, IsChain (linkOf DiskInfo.next e.io.heap) e.io.firstdisk list ∧ a ∈ list
  covers : ∀ pre e post, log = pre ++ e :: post → e.srv.code = 1 →
    IsChain (linkOf DiskInfo.next e.io.heap) e.io.firstdisk (seenAfter pre ++ e.srv.disk.toList)

def noticed : List (Answer ν) → List (Chain ν)
  | [] => []
  | .unchanged :: _ => []
  | .changed x loaded :: answers => x :: if loaded then [] else noticed answers
  | .failed :: answers => noticed answers

def AtFirst (s : Cursors ν) : Prop :=
  s.firstTime = true ∨ s.io.refreshDiskdetail = true ∨ s.detailDisk = 0 ∨ s.detailDisk = s.io.firstdisk

def HadDisks (r : Round ν) (s : Cursors ν) : Prop :=
  if s.firstTime = true then ∃ x, r.opened = some x ∧ accepted x.kcChain ≠ [] else s.io.firstdisk ≠ 0

/-- No change is noticed at the first disk but one that leaves a single disk, with the node that it had, or
none where there was none. -/
def Steady (chars : ν → List Char) (r : Round ν) (h : History ν) : Prop :=
  AtFirst h.cursors → ∀ x, (noticed r.answers).getLast? = some x →
    (HadDisks r h.cursors ∧ (accepted x.kcChain).length = 1 ∧
      ∀ y ∈ (noticed r.answers).dropLast, Lead chars y (accepted y.kcChain)) ∨
    ¬ HadDisks r h.cursors ∧ accepted x.kcChain = []

section Updates

variable {chars : ν → List Char} {io io' : IoState ν} {list aside : Cells ν}

def Selected (io : IoState ν) (list : Cells ν) : Prop := ∀ a ∈ list.map Prod.fst, ∃ d, io.heap.lookup a = some d ∧ d.selected = true

theorem head_eq {heap : Heap (DiskInfo ν)} {a : Addr} {cells : Cells ν} (h : Nodes heap a cells) : a = (cells.map Prod.fst).headD 0 := by
  cases h with
  | nil => rfl
  | cons _ _ _ => rfl

def Front (list aside : Cells ν) (a : Addr) : Prop := (list.map Prod.fst ++ aside.map Prod.fst).head? = some a

structure Updated (chars : ν → List Char) (xs : List (Chain ν)) (io io' : IoState ν) (list aside list' aside' : Cells ν) : Prop where
  kept : Kept io' list' aside'
  selected : Selected io' list'
  idle : xs = [] → io' = io ∧ list' = list
  last : ∀ x, xs.getLast? = some x → list'.length = (accepted x.kcChain).length ∧ io'.refreshDisksrv = true
  front : (∀ y ∈ xs, Lead chars y (accepted y.kcChain)) → ∀ a, Front list aside a → Front list' aside' a

theorem initDisks_updated (chars : ν → List Char) (x : Chain ν) (h : Kept io list aside) :
    ∃ io' searches list' aside', initDisks chars x io = some (io', searches) ∧ Updated chars [x] io io' list aside list' aside' ∧
      io'.refreshDiskdetail = true := by
  obtain ⟨io', searches, sorted, aside', hrun, hkept, -, -, hperm, -, hlead, hselected, hdetail, hsrv⟩ := initDisks_spec chars x h
  refine ⟨io', searches, cellsOf x sorted, aside', hrun, ⟨hkept, ?_, nofun, ?_, fun hall a ha => ?_⟩, hdetail⟩
  · rw [Selected, fst_cellsOf]
    exact hselected
  · intro y hy
    obtain rfl : x = y := Option.some.inj hy
    refine ⟨?_, hsrv⟩
    rw [cellsOf, List.length_map, ← hperm.length_eq, List.length_map]
  · rw [Front, fst_cellsOf]
    exact hlead (hall x (List.mem_singleton_self x)) a ha

theorem updateLoop_spec {answers : List (Answer ν)} (h : Kept io list aside) (hselected : Selected io list)
    (hrun : updateLoop chars answers io = some io') :
    ∃ list' aside', Updated chars (noticed answers) io io' list aside list' aside' := by
  induction answers generalizing io list aside with
  | nil => cases hrun
  | cons a answers ih =>
      cases a with
      | unchanged =>
          obtain rfl := Option.some.inj hrun
          exact ⟨list, aside, h, hselected, fun _ => ⟨rfl, rfl⟩, nofun, fun _ _ ha => ha⟩
      | failed =>
          rw [noticed]
          exact ih h hselected hrun
      | changed x loaded =>
          obtain ⟨io₁, searches, list₁, aside₁, hinit, hupdated, -⟩ := initDisks_updated chars x h
          have hstep : updateLoop chars (.changed x loaded :: answers) io = if loaded then some io₁ else updateLoop chars answers io₁ := by
            simp only [updateLoop, updateKstatChain, hinit, Option.map_some, Option.bind_eq_bind, Option.bind_some]
          rw [hstep] at hrun
          cases loaded with
          | true =>
              obtain rfl := Option.some.inj hrun
              rw [noticed, if_pos rfl]
              exact ⟨list₁, aside₁, hupdated⟩
          | false =>
              obtain ⟨list', aside', h'⟩ := ih hupdated.kept hupdated.selected hrun
              rw [noticed, if_neg Bool.false_ne_true]
              refine ⟨list', aside', h'.kept, h'.selected, nofun, fun y hy => ?_, fun hall a ha => ?_⟩
              · cases hnoticed : noticed answers with
                | nil =>
                    rw [hnoticed] at hy
                    obtain rfl : x = y := Option.some.inj hy
                    obtain ⟨rfl, rfl⟩ := h'.idle hnoticed
                    exact hupdated.last x rfl
                | cons z l =>
                    rw [List.getLast?_cons_of_ne_nil (hnoticed ▸ List.cons_ne_nil z l)] at hy
                    exact h'.last y hy
              · obtain ⟨hx, hall⟩ := List.forall_mem_cons.mp hall
                exact h'.front hall a (hupdated.front (fun y hy => List.mem_singleton.mp hy ▸ hx) a ha)

end Updates

section Walks

variable {chars : ν → List Char} {io io' : IoState ν} {list aside : Cells ν} {seen left : List Addr} {log : List (Entry ν)}

structure Ready (io : IoState ν) (list aside : Cells ν) (seen left : List Addr) : Prop where
  kept : Kept io list aside
  selected : Selected io list
  split : list.map Prod.fst = seen ++ left
  ahead : left = [] → list = []

theorem Ready.flags (h : Ready io list aside seen left) (detail srv : Bool) :
    Ready { io with refreshDiskdetail := detail, refreshDisksrv := srv } list aside seen left :=
  ⟨⟨h.kept.listed, h.kept.first, h.kept.kept, h.kept.last, h.kept.apart, h.kept.nodes, h.kept.fresh⟩, h.selected, h.split, h.ahead⟩

theorem Ready.firstdisk (h : Ready io list aside seen left) : io.firstdisk = (seen ++ left).headD 0 := by
  rw [← h.split]
  exact head_eq h.kept.current

theorem Ready.advance (h : Ready io list aside seen left) :
    advance io (left.headD 0) = some (if left.tail = [] then io.firstdisk else left.tail.headD 0,
      ⟨left.head?, if left.tail = [] then 1 else 0⟩) := by
  cases left with
  | nil => rfl
  | cons a left =>
      have hcells := h.kept.current
      obtain ⟨xs, t, hsplit, hxs, ht⟩ := List.map_eq_append_iff.mp h.split
      obtain ⟨c, ys, rfl, rfl, rfl⟩ := List.map_eq_cons_iff.mp ht
      rw [hsplit] at hcells
      obtain ⟨ha, v, hv, -, -, hys⟩ := hcells.at_cell
      obtain ⟨v', hv', hselected⟩ := h.selected c.1 (hsplit ▸ mem_fst c.1 c.2 xs ys)
      obtain rfl := Option.some.inj (hv.symm.trans hv')
      have hnext : v.next = (ys.map Prod.fst).headD 0 := head_eq hys
      have hzero : v.next = 0 ↔ ys.map Prod.fst = [] := by
        rw [← hys.nil_iff, List.map_eq_nil_iff]
      rw [DiskCursors.advance, List.headD_cons, if_neg ha, hv, Option.bind_eq_bind, Option.bind_some, if_pos hselected, List.tail_cons]
      by_cases hnil : ys.map Prod.fst = []
      · rw [if_pos (hzero.mpr hnil), if_pos hnil, if_pos hnil]
        rfl
      · rw [if_neg (mt hzero.mp hnil), if_neg hnil, if_neg hnil, hnext]
        rfl

theorem Ready.next (h : Ready io list aside seen left) :
    ∃ left', Ready io list aside (if left.tail = [] then [] else seen ++ left.head?.toList) left' ∧
      left'.headD 0 = if left.tail = [] then io.firstdisk else left.tail.headD 0 := by
  by_cases htail : left.tail = []
  · rw [if_pos htail, if_pos htail]
    refine ⟨list.map Prod.fst, ⟨h.kept, h.selected, rfl, List.map_eq_nil_iff.mp⟩, ?_⟩
    rw [h.firstdisk, h.split]
  · rw [if_neg htail, if_neg htail]
    refine ⟨left.tail, ⟨h.kept, h.selected, ?_, fun hnil => absurd hnil htail⟩, rfl⟩
    cases left with
    | nil => exact absurd rfl htail
    | cons a left => exact h.split.trans (List.append_cons seen a left)

theorem InStep.concat (h : InStep log) {e : Entry ν} (hsame : e.detail = e.srv)
    (hcurrent : ∀ a, e.srv.disk = some a → ∃ list, IsChain (linkOf DiskInfo.next e.io.heap) e.io.firstdisk list ∧ a ∈ list)
    (hcovers : e.srv.code = 1 → IsChain (linkOf DiskInfo.next e.io.heap) e.io.firstdisk (seenAfter log ++ e.srv.disk.toList)) :
    InStep (log ++ [e]) := by
  refine ⟨fun e' he' => ?_, fun e' he' => ?_, fun pre e' post hlog hcode => ?_⟩
  · rcases List.mem_append.mp he' with hin | hin
    · exact h.same e' hin
    · exact List.mem_singleton.mp hin ▸ hsame
  · rcases List.mem_append.mp he' with hin | hin
    · exact h.current e' hin
    · exact List.mem_singleton.mp hin ▸ hcurrent
  · rcases List.eq_nil_or_concat' post with rfl | ⟨post, e'', rfl⟩
    · obtain ⟨rfl, heq⟩ := List.append_inj' hlog rfl
      obtain rfl := List.singleton_inj.mp heq
      exact hcovers hcode
    · rw [← List.cons_append, ← List.append_assoc] at hlog
      exact h.covers pre e' post (List.append_inj' hlog rfl).1 hcode

theorem seenAfter_concat (log : List (Entry ν)) (e : Entry ν) :
    seenAfter (log ++ [e]) = if e.srv.code = 1 then [] else seenAfter log ++ e.srv.disk.toList := by
  rw [seenAfter, List.foldl_concat]
  rfl

structure Walking (h : History ν) (list aside : Cells ν) (seen left : List Addr) : Prop where
  ready : Ready h.cursors.io list aside seen left
  opened : h.cursors.firstTime = false
  detail : h.cursors.detailDisk = left.headD 0
  srv : h.cursors.srvDisk = left.headD 0
  shown : h.cursors.io.refreshDisksrv = false
  again : h.cursors.io.refreshDiskdetail = true → seen = []
  log : seenAfter h.log = seen
  inStep : InStep h.log

structure Settled (io : IoState ν) (srvDisk : Addr) (list aside : Cells ν) (seen left : List Addr) : Prop where
  ready : Ready io list aside seen left
  srv : io.refreshDisksrv = false → srvDisk = left.headD 0
  shown : io.refreshDisksrv = true → seen = []
  again : io.refreshDiskdetail = true → left.tail = []

theorem Ready.firstdisk_zero (h : Ready io list aside seen left) (hzero : left.headD 0 = 0) : io.firstdisk = 0 := by
  cases left with
  | nil => rw [h.firstdisk, ← h.split, h.ahead rfl, List.map_nil, List.headD_nil]
  | cons a left =>
      have hin : a ∈ list.map Prod.fst := by
        rw [h.split]
        exact List.mem_append_right _ (List.mem_cons_self ..)
      have hle := ((h.kept.nodes a).mp (List.mem_append_left _ hin)).1
      rw [show a = 0 from hzero] at hle
      exact absurd hle (by decide)

theorem Settled.srv_call {srvDisk detailDisk : Addr} (h : Settled io srvDisk list aside seen left) :
    krgetdisksrv ⟨io, false, detailDisk, srvDisk⟩ =
      some (⟨{ io with refreshDisksrv := false }, false, detailDisk, if left.tail = [] then io.firstdisk else left.tail.headD 0⟩,
        ⟨left.head?, if left.tail = [] then 1 else 0⟩) := by
  have hready := h.ready.flags io.refreshDiskdetail false
  have hchosen : refreshSrv io (if srvDisk = 0 then io.firstdisk else srvDisk) = ({ io with refreshDisksrv := false }, left.headD 0) := by
    unfold refreshSrv
    cases hshown : io.refreshDisksrv with
    | true =>
        have hfirst := h.ready.firstdisk
        rw [h.shown hshown, List.nil_append] at hfirst
        rw [if_pos rfl, hfirst]
    | false =>
        have hsame : ({ io with refreshDisksrv := false } : IoState ν) = io := by rw [← hshown]
        rw [if_neg Bool.false_ne_true, hsame, h.srv hshown]
        by_cases hzero : left.headD 0 = 0
        · rw [if_pos hzero, h.ready.firstdisk_zero hzero, hzero]
        · rw [if_neg hzero]
  simp only [krgetdisksrv, hchosen, hready.advance, Option.bind_eq_bind, Option.bind_some]

theorem Settled.walking {srvDisk : Addr} (h : Settled io srvDisk list aside seen left) (hlog : InStep log) (hseen : seenAfter log = seen) :
    ∃ s report seen' left', krgetdisksrv ⟨io, false, if left.tail = [] then io.firstdisk else left.tail.headD 0, srvDisk⟩ =
        some (s, report) ∧ report = ⟨left.head?, if left.tail = [] then 1 else 0⟩ ∧
      Walking ⟨s, log ++ [⟨report, report, s.io⟩]⟩ list aside seen' left' := by
  obtain ⟨left', hready, hleft'⟩ := h.ready.next
  have hlast : (if left.tail = [] then 1 else 0) = 1 ↔ left.tail = [] := by
    split_ifs with htail
    · exact iff_of_true rfl htail
    · exact iff_of_false (by decide) htail
  refine ⟨_, _, _, left', h.srv_call, rfl, ⟨hready.flags io.refreshDiskdetail false, rfl, hleft'.symm, hleft'.symm, rfl,
    fun hagain => if_pos (h.again hagain), ?_, hlog.concat rfl (fun a ha => ?_) fun hcode => ?_⟩⟩
  · rw [seenAfter_concat, hseen]
    exact if_congr hlast rfl rfl
  · refine ⟨list.map Prod.fst, h.ready.kept.current.chain, ?_⟩
    rw [h.ready.split]
    exact List.mem_append_right _ (List.mem_of_head? ha)
  · have htail := hlast.mp hcode
    have hall : seen ++ left.head?.toList = list.map Prod.fst := by
      rw [h.ready.split]
      cases left with
      | nil => rfl
      | cons a left =>
          obtain rfl : left = [] := htail
          rfl
    rw [hseen]
    dsimp only
    rw [hall]
    exact h.ready.kept.current.chain

theorem update_settled (srvDisk : Addr) {answers : List (Answer ν)} (h : Ready io list aside [] (list.map Prod.fst))
    (hdetail : io.refreshDiskdetail = false) (hsrv : io.refreshDisksrv = false → srvDisk = io.firstdisk)
    (hloop : updateLoop chars answers io = some io')
    (hsteady : ∀ x, (noticed answers).getLast? = some x →
      (list ≠ [] ∧ (accepted x.kcChain).length = 1 ∧ ∀ y ∈ (noticed answers).dropLast, Lead chars y (accepted y.kcChain)) ∨
      list = [] ∧ accepted x.kcChain = []) :
    ∃ list' aside', Settled io' srvDisk list' aside' [] (list'.map Prod.fst) ∧ io.firstdisk = (list'.map Prod.fst).headD 0 := by
  have hfirst : io.firstdisk = (list.map Prod.fst).headD 0 := h.firstdisk
  obtain ⟨list', aside', hupdated⟩ := updateLoop_spec h.kept h.selected hloop
  have hready : Ready io' list' aside' [] (list'.map Prod.fst) := ⟨hupdated.kept, hupdated.selected, rfl, List.map_eq_nil_iff.mp⟩
  rcases List.eq_nil_or_concat' (noticed answers) with hnil | ⟨xs, x, hnoticed⟩
  · obtain ⟨rfl, rfl⟩ := hupdated.idle hnil
    refine ⟨list', aside', ⟨hready, fun hshown => (hsrv hshown).trans hfirst, fun _ => rfl, fun hagain => ?_⟩, hfirst⟩
    rw [hdetail] at hagain
    cases hagain
  · have hlast : (noticed answers).getLast? = some x := by rw [hnoticed, List.getLast?_concat]
    obtain ⟨hlength, hshown⟩ := hupdated.last x hlast
    have hnot : io'.refreshDisksrv = false → srvDisk = (list'.map Prod.fst).headD 0 := fun hfalse => by
      rw [hshown] at hfalse
      cases hfalse
    rcases hsteady x hlast with ⟨hne, hone, hlead⟩ | ⟨rfl, hnone⟩
    · rw [hone] at hlength
      obtain ⟨t, rfl⟩ := List.length_eq_one_iff.mp hlength
      obtain ⟨k, hk⟩ := List.length_eq_one_iff.mp hone
      have hall : ∀ y ∈ noticed answers, Lead chars y (accepted y.kcChain) := by
        rw [hnoticed, List.dropLast_concat] at hlead
        rw [hnoticed]
        refine List.forall_mem_append.mpr ⟨hlead, List.forall_mem_singleton.mpr ?_⟩
        rw [hk]
        rintro _ _ ⟨rfl, rfl⟩ k' hk'
        cases hk'
      have hfront : Front list aside io.firstdisk := by
        obtain ⟨u, l, rfl⟩ := List.exists_cons_of_ne_nil hne
        rw [hfirst]
        rfl
      have hsame : t.1 = io.firstdisk := Option.some.inj (hupdated.front hall _ hfront)
      exact ⟨[t], aside', ⟨hready, hnot, fun _ => rfl, fun _ => rfl⟩, hsame.symm⟩
    · rw [hnone] at hlength
      obtain rfl := List.length_eq_zero_iff.mp hlength
      exact ⟨[], aside', ⟨hready, hnot, fun _ => rfl, fun _ => rfl⟩, hfirst⟩

def Inv (h : History ν) : Prop := h = ⟨begin, []⟩ ∨ ∃ list aside seen left, Walking h list aside seen left

theorem Steady.permitted {h : History ν} {r : Round ν} (hsteady : Steady chars r h) (hfirst : AtFirst h.cursors)
    (hdisks : HadDisks r h.cursors ↔ list ≠ []) : ∀ x, (noticed r.answers).getLast? = some x →
      (list ≠ [] ∧ (accepted x.kcChain).length = 1 ∧ ∀ y ∈ (noticed r.answers).dropLast, Lead chars y (accepted y.kcChain)) ∨
      list = [] ∧ accepted x.kcChain = [] := by
  intro x hx
  rcases hsteady hfirst x hx with ⟨hhad, hrest⟩ | ⟨hhad, hnone⟩
  · exact .inl ⟨hdisks.mp hhad, hrest⟩
  · exact .inr ⟨not_not.mp (mt hdisks.mpr hhad), hnone⟩

theorem Ready.seen_nil (h : Ready io list aside seen left) (hfirst : left.headD 0 = io.firstdisk) : seen = [] := by
  rw [h.firstdisk] at hfirst
  cases seen with
  | nil => rfl
  | cons b seen =>
      have hnodup : (list.map Prod.fst).Nodup := (List.nodup_append.mp h.kept.apart).1
      rw [h.split] at hnodup
      cases left with
      | nil => exact absurd h.split (by rw [h.ahead rfl]; exact nofun)
      | cons a left =>
          obtain rfl : a = b := hfirst
          exact absurd (List.mem_append_right seen (List.mem_cons_self ..)) (List.nodup_cons.mp hnodup).1

theorem Walking.update_settled {h : History ν} {r : Round ν} (hw : Walking h list aside seen left) (hsteady : Steady chars r h)
    (hfirst : AtFirst h.cursors) (hnil : seen = [])
    (hloop : updateLoop chars r.answers { h.cursors.io with refreshDiskdetail := false } = some io') :
    ∃ list' aside', Settled io' h.cursors.srvDisk list' aside' [] (list'.map Prod.fst) ∧
      h.cursors.io.firstdisk = (list'.map Prod.fst).headD 0 := by
  subst hnil
  obtain rfl : list.map Prod.fst = left := hw.ready.split
  have hdisks : HadDisks r h.cursors ↔ list ≠ [] := by
    rw [HadDisks, hw.opened, if_neg Bool.false_ne_true]
    exact not_congr hw.ready.kept.current.nil_iff.symm
  have hsettled := DiskCursors.update_settled _ (hw.ready.flags false h.cursors.io.refreshDisksrv) rfl
    (fun _ => hw.srv.trans hw.ready.firstdisk.symm) hloop (hsteady.permitted hfirst hdisks)
  exact hsettled

theorem detail_settled {h : History ν} {r : Round ν} {s : Cursors ν} {report : Report} (hinv : Inv h) (hsteady : Steady chars r h)
    (hrun : krgetdiskdetail chars r h.cursors = some (s, report)) :
    ∃ io list aside seen left, Settled io h.cursors.srvDisk list aside seen left ∧ seenAfter h.log = seen ∧ InStep h.log ∧
      advance io (left.headD 0) = some (s.detailDisk, report) ∧ s = ⟨io, false, s.detailDisk, h.cursors.srvDisk⟩ := by
  simp only [krgetdiskdetail, Option.bind_eq_bind, Option.bind_eq_some_iff, Prod.exists] at hrun
  obtain ⟨io, disk, hopen, io', hupdate, disk', report', hadvance, heq⟩ := hrun
  obtain ⟨rfl, rfl⟩ := Prod.mk.inj (Option.some.inj heq)
  rcases hinv with rfl | ⟨list, aside, seen, left, hw⟩
  · obtain ⟨io₀, hinit, hio₀⟩ := Option.map_eq_some_iff.mp (hopen : Option.map _ _ = _)
    obtain ⟨rfl, rfl⟩ := Prod.mk.inj hio₀
    simp only [initializeEverything, Option.bind_eq_bind, Option.bind_eq_some_iff, Prod.exists] at hinit
    obtain ⟨x, hx, io₁, searches, hinit, hio₁⟩ := hinit
    obtain rfl := Option.some.inj hio₁
    obtain ⟨io₂, searches', list, aside, hinit', hupdated, hdetail⟩ := initDisks_updated chars x kept_start
    obtain ⟨rfl, rfl⟩ := Prod.mk.inj (Option.some.inj (hinit.symm.trans hinit'))
    have hready : Ready io₁ list aside [] (list.map Prod.fst) := ⟨hupdated.kept, hupdated.selected, rfl, List.map_eq_nil_iff.mp⟩
    obtain ⟨hlength, hshown⟩ := hupdated.last x rfl
    simp only [refreshDetail, hdetail, if_pos, updateAtFirst] at hupdate hadvance
    have hdisks : HadDisks r begin ↔ list ≠ [] := by
      rw [HadDisks, begin, if_pos rfl, hx]
      simp only [Option.some.injEq, exists_eq_left', ne_eq]
      rw [← List.length_eq_zero_iff, ← List.length_eq_zero_iff, hlength]
    obtain ⟨list', aside', hsettled, hdisk⟩ := update_settled (begin : Cursors ν).srvDisk
      (hready.flags false io₁.refreshDisksrv) rfl (fun hfalse => absurd (hshown.symm.trans hfalse) (by decide)) hupdate
      (hsteady.permitted (.inl rfl) hdisks)
    refine ⟨io', list', aside', [], _, hsettled, rfl, ⟨nofun, nofun, ?_⟩, hdisk ▸ hadvance, rfl⟩
    intro pre e post hlog
    exact absurd hlog.symm (by simp)
  · rw [openFirst, hw.opened, if_neg Bool.false_ne_true] at hopen
    obtain ⟨rfl, hdisk⟩ := Prod.mk.inj (Option.some.inj hopen)
    have hchosen : disk = left.headD 0 := by
      rw [← hdisk, hw.detail]
      split_ifs with hzero
      · rw [hw.ready.firstdisk_zero hzero, hzero]
      · rfl
    cases hagain : h.cursors.io.refreshDiskdetail with
    | true =>
        simp only [refreshDetail, hagain, if_pos, updateAtFirst] at hupdate hadvance
        obtain ⟨list', aside', hsettled, hfirst⟩ := hw.update_settled hsteady (.inr (.inl hagain)) (hw.again hagain) hupdate
        refine ⟨io', list', aside', [], _, hsettled, hw.log.trans (hw.again hagain), hw.inStep, hfirst ▸ hadvance, rfl⟩
    | false =>
        simp only [refreshDetail, hagain, if_neg Bool.false_ne_true, updateAtFirst] at hupdate hadvance
        by_cases hfirst : disk = h.cursors.io.firstdisk
        · rw [if_pos hfirst] at hupdate
          have hsame : ({ h.cursors.io with refreshDiskdetail := false } : IoState ν) = h.cursors.io := by rw [← hagain]
          have hnil := hw.ready.seen_nil (hchosen.symm.trans hfirst)
          have hat : AtFirst h.cursors := .inr (.inr (.inr (hw.detail.trans (hchosen.symm.trans hfirst))))
          rw [← hsame] at hupdate
          obtain ⟨list', aside', hsettled, hfirst'⟩ := hw.update_settled hsteady hat hnil hupdate
          refine ⟨io', list', aside', [], _, hsettled, hw.log.trans hnil, hw.inStep, ?_, rfl⟩
          rw [← hfirst', ← hfirst]
          exact hadvance
        · rw [if_neg hfirst] at hupdate
          obtain rfl := Option.some.inj hupdate
          refine ⟨_, list, aside, seen, left, ⟨hw.ready, fun _ => hw.srv, fun hshown => ?_, fun h => ?_⟩, hw.log, hw.inStep, ?_, rfl⟩
          · exact absurd (hw.shown.symm.trans hshown) (by decide)
          · exact absurd (hagain.symm.trans h) (by decide)
          · rw [← hchosen]
            exact hadvance

theorem inv_reachable {h : History ν} (hr : Reachable (round chars) (Steady chars) (· = ⟨begin, []⟩) h) : Inv h := by
  refine hr.invariant Inv (fun _ h => .inl h) fun r h h' hinv hsteady hround => .inr ?_
  simp only [round, Option.bind_eq_bind, Option.bind_eq_some_iff, Prod.exists] at hround
  obtain ⟨s, detail, hdetail, s', srv, hsrv, heq⟩ := hround
  obtain rfl := Option.some.inj heq
  obtain ⟨io, list, aside, seen, left, hsettled, hseen, hlog, hadvance, hs⟩ := detail_settled hinv hsteady hdetail
  rw [hsettled.ready.advance] at hadvance
  obtain ⟨hdisk, rfl⟩ := Prod.mk.inj (Option.some.inj hadvance)
  obtain ⟨s'', report, seen', left', hcall, rfl, hwalking⟩ := hsettled.walking hlog hseen
  rw [hs, ← hdisk, hcall] at hsrv
  obtain ⟨rfl, rfl⟩ := Prod.mk.inj (Option.some.inj hsrv)
  exact ⟨list, aside, seen', left', hwalking⟩

end Walks

/-- Both functions stay in step in every run that notices a change at the first disk only if it leaves a
single disk or none, as before. -/
theorem cursors_in_step (chars : ν → List Char) {h : History ν}
    (hr : Reachable (round chars) (Steady chars) (· = ⟨begin, []⟩) h) : InStep h.log := by
  rcases inv_reachable hr with rfl | ⟨_, _, _, _, hw⟩
  · exact ⟨nofun, nofun, fun _ _ _ hlog => absurd hlog.symm (by simp)⟩
  · exact hw.inStep

def sd (i : Fin 2) : KStat where
  ksType := kstatTypeIO
  ksClass := ['d', 'i', 's', 'k']
  ksModule := ['s', 'd']
  ksInstance := i
  ksName := ['s', 'd', if i = 0 then '0' else '1']
  isInt := by omega

def bothSds : Chain Unit := ⟨[sd 0, sd 1], false, fun _ => none⟩

def anew : List (Round Unit) :=
  [⟨some bothSds, [.unchanged]⟩, ⟨none, []⟩, ⟨none, [.changed bothSds true]⟩, ⟨none, [.unchanged]⟩]

theorem cursors_in_step_two : ∃ h : History Unit, exec (round fun _ => []) (anew.take 2) ⟨begin, []⟩ = some h ∧
    h.log.map Entry.srv = [⟨some 2, 0⟩, ⟨some 3, 1⟩] ∧ InStep h.log := by
  have hsome : (exec (round fun _ => []) (anew.take 2) (⟨begin, []⟩ : History Unit)).isSome = true := by decide
  obtain ⟨h, hrun⟩ := Option.isSome_iff_exists.mp hsome
  have hlog : (exec (round fun _ => []) (anew.take 2) (⟨begin, []⟩ : History Unit)).map (fun h => h.log.map Entry.srv) =
      some [⟨some 2, 0⟩, ⟨some 3, 1⟩] := by decide
  have hsteady : ∀ r ∈ anew.take 2, ∀ h, Steady (fun _ : Unit => []) r h := by
    intro r hr h _ x hx
    rcases List.mem_cons.mp hr with rfl | hr
    · cases hx
    · obtain rfl := List.mem_singleton.mp hr
      cases hx
  rw [hrun] at hlog
  exact ⟨h, hrun, Option.some.inj hlog, cursors_in_step _ (reachable_of_exec _ hsteady (.start rfl) hrun)⟩

/-- After the change the detail call begins twice at the first disk, and the other call goes on. -/
theorem cursors_apart : ¬ ∀ (ν : Type) (chars : ν → List Char) (h : History ν),
    Reachable (round chars) (fun _ _ => True) (· = ⟨begin, []⟩) h → InStep h.log := by
  intro hall
  have hlog : (exec (round fun _ => []) anew (⟨begin, []⟩ : History Unit)).map (fun h => h.log.map fun e => (e.detail, e.srv)) =
      some [(⟨some 2, 0⟩, ⟨some 2, 0⟩), (⟨some 3, 1⟩, ⟨some 3, 1⟩), (⟨some 2, 0⟩, ⟨some 2, 0⟩), (⟨some 2, 0⟩, ⟨some 3, 1⟩)] := by
    decide
  obtain ⟨h, hrun, hreports⟩ := Option.map_eq_some_iff.mp hlog
  have hinStep := hall Unit _ h (reachable_of_exec anew (fun _ _ _ => trivial) (.start rfl) hrun)
  have hmem : ((⟨some 2, 0⟩, ⟨some 3, 1⟩) : Report × Report) ∈ h.log.map fun e => (e.detail, e.srv) := by
    rw [hreports]
    decide
  obtain ⟨e, he, heq⟩ := List.mem_map.mp hmem
  have hsame := hinStep.same e he
  rw [(Prod.mk.inj heq).1, (Prod.mk.inj heq).2] at hsame
  cases hsame

end OiUserland.HealthMonitor.DiskCursors
