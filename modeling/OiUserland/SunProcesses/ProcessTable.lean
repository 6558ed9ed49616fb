import Mathlib.Algebra.Group.Nat.Defs
import Mathlib.Algebra.Group.Int.Defs
import Mathlib.Data.List.Sort
import OiUserland.Lib.Runs

namespace OiUserland.SunProcesses.ProcessTable

open Lib.Runs

section Data

/-- An entry of the table. Only its process id is looked at. -/
structure PsData (δ : Type) where
  pid : Nat
  data : δ
  isPid : pid < 2 ^ 31

variable {δ : Type}

def sizeofPsData : Nat := 152

def pscomp (i j : PsData δ) : Int := i.pid - j.pid

def qsort (l : List (PsData δ)) : List (PsData δ) := l.insertionSort fun i j => pscomp i j ≤ 0

inductive Proc (δ : Type)
  | skipped
  | found (d : PsData δ) (allocated usrname : Bool)

def collect : List (Proc δ) → List (PsData δ)
  | [] => []
  | .skipped :: procs => collect procs
  | .found d allocated usrname :: procs =>
      if allocated = false then [] else if usrname then d :: collect procs else collect procs

/-- What a call meets: the time, the directory if it can be opened, and the address of a new table if one is
allocated. A block does not reach up to the end of the memory. -/
structure Env (δ : Type) where
  now : Int
  procs : Option (List (Proc δ))
  table : Nat
  fits : table + sizeofPsData * (collect (procs.getD [])).length < 2 ^ 64

structure PsState (δ : Type) where
  pstable : Nat
  pstableLines : Nat
  block : Option (Nat × List (PsData δ))
  psCacheTime : Int
  context : Option Nat

def begin : PsState δ := ⟨0, 0, none, 0, none⟩

end Data

section Calls

variable {δ : Type}

def cacheLifetime : Int := 45

def freeTable (s : PsState δ) : Option (PsState δ) :=
  if s.pstable = 0 then some s
  else
    match s.block with
    | none => none
    | some (base, _) => if base = s.pstable then some { s with block := none } else none

def getPsData (e : Env δ) (s : PsState δ) : Option (PsState δ × Bool) :=
  if s.pstable ≠ 0 ∧ e.now - s.psCacheTime ≤ cacheLifetime then some (s, false)
  else do
    let s ← freeTable s
    let s := { s with pstableLines := 0, psCacheTime := e.now }
    match e.procs with
    | none => some (s, true)
    | some procs =>
        let ps := collect procs
        if e.table = 0 then some ({ s with pstable := 0, pstableLines := ps.length }, true)
        else some ({ s with pstable := e.table, pstableLines := ps.length, block := some (e.table, qsort ps) }, true)

def entryAt (s : PsState δ) (p : Nat) : Option (PsData δ) := do
  let (base, entries) ← s.block
  if base ≤ p ∧ (p - base) % sizeofPsData = 0 then entries[(p - base) / sizeofPsData]? else none

def lastOf (pstable n : Nat) : Nat := (((pstable : Int) + sizeofPsData * ((n : Int) - 1)) % 2 ^ 64).toNat

inductive Result (δ : Type)
  | done
  | null
  | read (d : Option (PsData δ))

def getFirst (e : Env δ) (s : PsState δ) : Option (PsState δ × Bool × Result δ) := do
  let (s, refreshed) ← getPsData e s
  if s.pstable = 0 then some (s, refreshed, .null)
  else some ({ s with context := some s.pstable }, refreshed, .read (entryAt s s.pstable))

def getNext (e : Env δ) (s : PsState δ) : Option (PsState δ × Bool × Result δ) := do
  let (s, refreshed) ← getPsData e s
  let context ← s.context
  let p := (context + sizeofPsData) % 2 ^ 64
  if lastOf s.pstable s.pstableLines < p then some (s, refreshed, .null)
  else some ({ s with context := some p }, refreshed, .read (entryAt s p))

end Calls

section Histories

variable {δ : Type}

inductive Call
  | psData
  | first
  | next
  deriving DecidableEq

structure Event (δ : Type) where
  call : Call
  refreshed : Bool
  result : Result δ
  table : List (PsData δ)

structure History (δ : Type) where
  state : PsState δ
  log : List (Event δ)

def call (c : Call) (e : Env δ) (s : PsState δ) : Option (PsState δ × Bool × Result δ) :=
  match c with
  | .psData => (getPsData e s).map fun t => (t.1, t.2, .done)
  | .first => getFirst e s
  | .next => getNext e s

def entriesOf (s : PsState δ) : List (PsData δ) := (s.block.map Prod.snd).getD []

def step (op : Call × Env δ) (h : History δ) : Option (History δ) :=
  (call op.1 op.2 h.state).map fun t => ⟨t.1, h.log ++ [⟨op.1, t.2.1, t.2.2, entriesOf t.1⟩]⟩

/-- What the walk that goes on after these events has got so far. It is over when a call returns NULL or
gives up the table. -/
def walked (log : List (Event δ)) : Option (List (PsData δ)) :=
  log.foldl (fun w e =>
    match e.call, e.result with
    | .first, .read (some d) => some [d]
    | .next, .read (some d) => if e.refreshed then none else w.map (· ++ [d])
    | .psData, _ => if e.refreshed then none else w
    | _, _ => none) none

/-- The table is live and sorted, nothing else has been read, and each walk has got the table. -/
structure Sound (h : History δ) : Prop where
  table : h.state.pstable = 0 ∨ ∃ entries, h.state.block = some (h.state.pstable, entries) ∧
    entries.length = h.state.pstableLines ∧ entries.Pairwise fun i j => i.pid ≤ j.pid
  reads : ∀ e ∈ h.log, e.result ≠ .read none
  walks : ∀ pre e post, h.log = pre ++ e :: post → e.call = .next → e.refreshed = false → e.result = .null →
    ∀ l, walked pre = some l → l = e.table

end Histories

section Conditions

variable {δ : Type}

def Refreshes (e : Env δ) (s : PsState δ) : Prop := s.pstable ≠ 0 → cacheLifetime < e.now - s.psCacheTime

def newTable (e : Env δ) (s : PsState δ) : Nat × Nat :=
  match e.procs with
  | none => (s.pstable, 0)
  | some procs => (e.table, (collect procs).length)

def stale (log : List (Event δ)) : Bool :=
  log.foldl (fun b e =>
    match e.result with
    | .read (some _) => false
    | _ => b || e.refreshed) true

def Found (context : Nat) (t : Nat × Nat) : Prop :=
  lastOf t.1 t.2 < (context + sizeofPsData) % 2 ^ 64 ∨
    t.1 ≠ 0 ∧ ∃ i < t.2, (context + sizeofPsData) % 2 ^ 64 = t.1 + sizeofPsData * i

/-- The directory can be opened when a table has been given up. The first entry is asked for of a table that has
entries. The next one is asked for with the context of another table only if it is found by chance. -/
structure Permitted (op : Call × Env δ) (h : History δ) : Prop where
  opened : Refreshes op.2 h.state → op.2.procs = none → h.state.pstable = 0
  first : op.1 = .first → ¬ Refreshes op.2 h.state → h.state.pstableLines ≠ 0
  firstNew : op.1 = .first → Refreshes op.2 h.state → (newTable op.2 h.state).1 ≠ 0 → (newTable op.2 h.state).2 ≠ 0
  next : op.1 = .next → stale h.log = true → ¬ Refreshes op.2 h.state → ∀ c, h.state.context = some c →
    Found c (h.state.pstable, h.state.pstableLines)
  nextNew : op.1 = .next → Refreshes op.2 h.state → ∀ c, h.state.context = some c → Found c (newTable op.2 h.state)

end Conditions

section Tables

variable {δ : Type} {s s' : PsState δ} {e : Env δ} {i n pstable : Nat} {refreshed : Bool}

structure Live (s : PsState δ) (entries : List (PsData δ)) : Prop where
  block : s.block = some (s.pstable, entries)
  lines : entries.length = s.pstableLines
  sorted : entries.Pairwise fun i j => i.pid ≤ j.pid
  fits : s.pstable + sizeofPsData * s.pstableLines < 2 ^ 64

theorem pscomp_le {i j : PsData δ} : pscomp i j ≤ 0 ↔ i.pid ≤ j.pid := by
  rw [pscomp]
  omega

theorem qsort_sorted (l : List (PsData δ)) : (qsort l).Pairwise fun i j => i.pid ≤ j.pid := by
  have htotal : Std.Total fun i j : PsData δ => pscomp i j ≤ 0 :=
    ⟨fun i j => (le_total i.pid j.pid).imp pscomp_le.mpr pscomp_le.mpr⟩
  have htrans : IsTrans (PsData δ) fun i j => pscomp i j ≤ 0 :=
    ⟨fun i j k hij hjk => pscomp_le.mpr ((pscomp_le.mp hij).trans (pscomp_le.mp hjk))⟩
  exact (List.pairwise_insertionSort _ l).imp pscomp_le.mp

theorem length_qsort (l : List (PsData δ)) : (qsort l).length = l.length := List.length_insertionSort _ l

theorem Live.entryAt {entries : List (PsData δ)} (h : Live s entries) (hi : i < entries.length) :
    entryAt s (s.pstable + sizeofPsData * i) = some entries[i] := by
  have hdiff : s.pstable + sizeofPsData * i - s.pstable = sizeofPsData * i := Nat.add_sub_cancel_left ..
  simp only [ProcessTable.entryAt, h.block, Option.bind_eq_bind, Option.bind_some, hdiff]
  rw [if_pos ⟨Nat.le_add_right .., Nat.mul_mod_right ..⟩, Nat.mul_div_cancel_left _ (by decide)]
  exact List.getElem?_eq_getElem hi

theorem lastOf_eq (hn : n ≠ 0) (hfits : pstable + sizeofPsData * n < 2 ^ 64) :
    lastOf pstable n = pstable + sizeofPsData * (n - 1) := by
  unfold lastOf sizeofPsData at *
  omega

theorem freeTable_live (h : s.pstable ≠ 0 → ∃ entries, Live s entries) :
    ∃ block, freeTable s = some { s with block := block } := by
  unfold freeTable
  by_cases hzero : s.pstable = 0
  · exact ⟨s.block, if_pos hzero⟩
  · obtain ⟨entries, hlive⟩ := h hzero
    refine ⟨none, ?_⟩
    rw [if_neg hzero, hlive.block]
    exact if_pos rfl

theorem getPsData_spec (h : s.pstable ≠ 0 → ∃ entries, Live s entries)
    (hopened : Refreshes e s → e.procs = none → s.pstable = 0) (hrun : getPsData e s = some (s', refreshed)) :
    s'.context = s.context ∧
      (refreshed = false ∧ ¬ Refreshes e s ∧ s' = s ∨
        refreshed = true ∧ Refreshes e s ∧ (s'.pstable, s'.pstableLines) = newTable e s ∧
          (s'.pstable ≠ 0 → ∃ entries, Live s' entries)) := by
  unfold getPsData at hrun
  by_cases hkept : s.pstable ≠ 0 ∧ e.now - s.psCacheTime ≤ cacheLifetime
  · rw [if_pos hkept] at hrun
    obtain ⟨rfl, rfl⟩ := Prod.mk.inj (Option.some.inj hrun)
    exact ⟨rfl, .inl ⟨rfl, fun hrefreshes => absurd (hrefreshes hkept.1) (not_lt.mpr hkept.2), rfl⟩⟩
  · have hrefreshes : Refreshes e s := fun hne => lt_of_not_ge fun hle => hkept ⟨hne, hle⟩
    obtain ⟨block, hfree⟩ := freeTable_live h
    rw [if_neg hkept, hfree] at hrun
    simp only [Option.bind_eq_bind, Option.bind_some] at hrun
    cases hprocs : e.procs with
    | none =>
        rw [hprocs] at hrun
        obtain ⟨rfl, rfl⟩ := Prod.mk.inj (Option.some.inj hrun)
        refine ⟨rfl, .inr ⟨rfl, hrefreshes, ?_, fun hne => absurd (hopened hrefreshes hprocs) hne⟩⟩
        rw [newTable, hprocs]
    | some procs =>
        rw [hprocs] at hrun
        dsimp only at hrun
        have hfits := e.fits
        rw [hprocs, Option.getD_some] at hfits
        by_cases htable : e.table = 0
        · rw [if_pos htable] at hrun
          obtain ⟨rfl, rfl⟩ := Prod.mk.inj (Option.some.inj hrun)
          refine ⟨rfl, .inr ⟨rfl, hrefreshes, ?_, fun hne => absurd rfl hne⟩⟩
          rw [newTable, hprocs, htable]
        · rw [if_neg htable] at hrun
          obtain ⟨rfl, rfl⟩ := Prod.mk.inj (Option.some.inj hrun)
          refine ⟨rfl, .inr ⟨rfl, hrefreshes, ?_, fun _ => ⟨qsort (collect procs), ?_⟩⟩⟩
          · rw [newTable, hprocs]
          · exact ⟨rfl, length_qsort _, qsort_sorted _, hfits⟩

end Tables

section Walks

variable {δ : Type} {h : History δ} {s : PsState δ} {e : Env δ} {log : List (Event δ)} {ev : Event δ}
  {refreshed : Bool} {result : Result δ}

structure AtEntry (s : PsState δ) (w : Option (List (PsData δ))) (i : Nat) : Prop where
  table : s.pstable ≠ 0
  lines : i < s.pstableLines
  context : s.context = some (s.pstable + sizeofPsData * i)
  walked : ∀ l, w = some l → l = (entriesOf s).take (i + 1)

structure Inv (h : History δ) : Prop where
  live : h.state.pstable ≠ 0 → ∃ entries, Live h.state entries
  context : stale h.log = false → ∃ i, AtEntry h.state (walked h.log) i
  walking : ∀ l, walked h.log = some l → stale h.log = false
  reads : ∀ e ∈ h.log, e.result ≠ .read none
  walks : ∀ pre e post, h.log = pre ++ e :: post → e.call = .next → e.refreshed = false → e.result = .null →
    ∀ l, walked pre = some l → l = e.table

theorem Inv.sound (h' : Inv h) : Sound h := by
  refine ⟨?_, h'.reads, h'.walks⟩
  by_cases hzero : h.state.pstable = 0
  · exact .inl hzero
  · obtain ⟨entries, hlive⟩ := h'.live hzero
    exact .inr ⟨entries, hlive.block, hlive.lines, hlive.sorted⟩

theorem stale_concat (log : List (Event δ)) (ev : Event δ) :
    stale (log ++ [ev]) = match ev.result with
      | .read (some _) => false
      | _ => stale log || ev.refreshed := by
  rw [stale, List.foldl_concat]
  rfl

theorem walked_concat (log : List (Event δ)) (ev : Event δ) :
    walked (log ++ [ev]) = match ev.call, ev.result with
      | .first, .read (some d) => some [d]
      | .next, .read (some d) => if ev.refreshed then none else (walked log).map (· ++ [d])
      | .psData, _ => if ev.refreshed then none else walked log
      | _, _ => none := by
  rw [walked, List.foldl_concat]
  rfl

theorem Inv.concat (h' : Inv h) (hlive : s.pstable ≠ 0 → ∃ entries, Live s entries)
    (hcontext : stale (h.log ++ [ev]) = false → ∃ i, AtEntry s (walked (h.log ++ [ev])) i)
    (hwalking : ∀ l, walked (h.log ++ [ev]) = some l → stale (h.log ++ [ev]) = false)
    (hread : ev.result ≠ .read none)
    (hwalk : ev.call = .next → ev.refreshed = false → ev.result = .null →
      ∀ l, walked h.log = some l → l = ev.table) :
    Inv ⟨s, h.log ++ [ev]⟩ := by
  refine ⟨hlive, hcontext, hwalking, fun e he => ?_, fun pre e post hlog => ?_⟩
  · rcases List.mem_append.mp he with hin | hin
    · exact h'.reads e hin
    · exact List.mem_singleton.mp hin ▸ hread
  · rcases List.eq_nil_or_concat' post with rfl | ⟨post, e', rfl⟩
    · obtain ⟨rfl, heq⟩ := List.append_inj' hlog rfl
      obtain rfl := List.singleton_inj.mp heq
      exact hwalk
    · rw [← List.cons_append, ← List.append_assoc] at hlog
      exact h'.walks pre e post (List.append_inj' hlog rfl).1

/-- What getPsData() leaves of the invariant: the context is that of an entry unless the table is another one. -/
theorem Inv.kept (h' : Inv h) (hspec : s.context = h.state.context ∧
      (refreshed = false ∧ ¬ Refreshes e h.state ∧ s = h.state ∨
        refreshed = true ∧ Refreshes e h.state ∧ (s.pstable, s.pstableLines) = newTable e h.state ∧
          (s.pstable ≠ 0 → ∃ entries, Live s entries))) :
    (s.pstable ≠ 0 → ∃ entries, Live s entries) ∧
      ((stale h.log || refreshed) = false → ∃ i, AtEntry s (walked h.log) i) := by
  obtain ⟨-, ⟨rfl, -, rfl⟩ | ⟨rfl, -, -, hlive⟩⟩ := hspec
  · rw [Bool.or_false]
    exact ⟨h'.live, h'.context⟩
  · rw [Bool.or_true]
    exact ⟨hlive, nofun⟩

theorem step_psData (h' : Inv h) (hok : Permitted (.psData, e) h)
    (hrun : getPsData e h.state = some (s, refreshed)) :
    Inv ⟨s, h.log ++ [⟨.psData, refreshed, .done, entriesOf s⟩]⟩ := by
  obtain ⟨hlive, hcontext⟩ := h'.kept (getPsData_spec h'.live hok.opened hrun)
  refine h'.concat hlive ?_ ?_ nofun nofun
  · rw [stale_concat, walked_concat]
    intro hstale
    obtain ⟨i, hi⟩ := hcontext hstale
    obtain ⟨-, hrefreshed⟩ := Bool.or_eq_false_iff.mp hstale
    obtain rfl : refreshed = false := hrefreshed
    exact ⟨i, hi⟩
  · rw [stale_concat, walked_concat]
    intro l hl
    dsimp only at hl ⊢
    cases refreshed with
    | true => cases hl
    | false =>
        rw [Bool.or_false]
        exact h'.walking l hl

theorem Live.entriesOf {entries : List (PsData δ)} (h : Live s entries) : entriesOf s = entries := by
  rw [ProcessTable.entriesOf, h.block]
  rfl

theorem step_first (h' : Inv h) (hok : Permitted (.first, e) h)
    (hrun : getFirst e h.state = some (s, refreshed, result)) :
    Inv ⟨s, h.log ++ [⟨.first, refreshed, result, entriesOf s⟩]⟩ := by
  simp only [getFirst, Option.bind_eq_bind, Option.bind_eq_some_iff, Prod.exists] at hrun
  obtain ⟨s₁, refreshed', hdata, hrun⟩ := hrun
  have hspec := getPsData_spec h'.live hok.opened hdata
  obtain ⟨hlive, hcontext⟩ := h'.kept hspec
  by_cases hzero : s₁.pstable = 0
  · rw [if_pos hzero] at hrun
    obtain ⟨rfl, hrest⟩ := Prod.mk.inj (Option.some.inj hrun)
    obtain ⟨rfl, rfl⟩ := Prod.mk.inj hrest
    refine h'.concat hlive ?_ ?_ nofun nofun
    · rw [stale_concat]
      intro hstale
      obtain ⟨i, hi⟩ := hcontext hstale
      exact absurd hzero hi.table
    · rw [walked_concat]
      exact nofun
  · rw [if_neg hzero] at hrun
    obtain ⟨rfl, hrest⟩ := Prod.mk.inj (Option.some.inj hrun)
    obtain ⟨rfl, rfl⟩ := Prod.mk.inj hrest
    obtain ⟨entries, hentries⟩ := hlive hzero
    have hlines : s₁.pstableLines ≠ 0 := by
      obtain ⟨-, ⟨-, hkept, rfl⟩ | ⟨-, hnew, htable, -⟩⟩ := hspec
      · exact hok.first rfl hkept
      · obtain ⟨haddr, hcount⟩ := Prod.mk.inj htable
        rw [hcount]
        exact hok.firstNew rfl hnew (haddr ▸ hzero)
    have hpos : 0 < entries.length := by
      rw [hentries.lines]
      exact Nat.pos_of_ne_zero hlines
    have hread : entryAt s₁ s₁.pstable = some entries[0] := hentries.entryAt hpos
    have hlive' : Live { s₁ with context := some s₁.pstable } entries :=
      ⟨hentries.block, hentries.lines, hentries.sorted, hentries.fits⟩
    rw [hread]
    refine h'.concat (fun _ => ⟨entries, hlive'⟩) ?_ ?_ nofun nofun
    · rw [walked_concat]
      refine fun _ => ⟨0, hzero, Nat.pos_of_ne_zero hlines, rfl, ?_⟩
      intro l hl
      obtain rfl := Option.some.inj hl
      rw [hlive'.entriesOf]
      cases entries with
      | nil => exact absurd hpos (lt_irrefl 0)
      | cons d entries => rfl
    · rw [stale_concat]
      exact fun _ _ => rfl

theorem AtEntry.next {entries : List (PsData δ)} {w : Option (List (PsData δ))} {i : Nat}
    (h : AtEntry s w i) (hlive : Live s entries) :
    (s.pstable + sizeofPsData * i + sizeofPsData) % 2 ^ 64 = s.pstable + sizeofPsData * (i + 1) ∧
      (lastOf s.pstable s.pstableLines < s.pstable + sizeofPsData * (i + 1) ↔ i + 1 = s.pstableLines) := by
  have hlines := h.lines
  have hfits := hlive.fits
  rw [lastOf_eq (Nat.ne_of_gt (Nat.zero_lt_of_lt hlines)) hfits]
  unfold sizeofPsData at *
  omega

theorem next_found (h' : Inv h) (hok : Permitted (.next, e) h) (hspec : s.context = h.state.context ∧
      (refreshed = false ∧ ¬ Refreshes e h.state ∧ s = h.state ∨
        refreshed = true ∧ Refreshes e h.state ∧ (s.pstable, s.pstableLines) = newTable e h.state ∧
          (s.pstable ≠ 0 → ∃ entries, Live s entries))) {c : Nat} (hc : s.context = some c) :
    Found c (s.pstable, s.pstableLines) := by
  obtain ⟨hlive, hcontext⟩ := h'.kept hspec
  cases hfresh : stale h.log || refreshed with
  | false =>
      obtain ⟨i, hi⟩ := hcontext hfresh
      obtain ⟨entries, hentries⟩ := hlive hi.table
      obtain rfl : c = s.pstable + sizeofPsData * i := Option.some.inj (hc.symm.trans hi.context)
      obtain ⟨haddr, hover⟩ := hi.next hentries
      unfold Found
      rw [haddr, hover]
      by_cases hlast : i + 1 = s.pstableLines
      · exact .inl hlast
      · exact .inr ⟨hi.table, i + 1, lt_of_le_of_ne hi.lines hlast, rfl⟩
  | true =>
      obtain ⟨hsame, ⟨rfl, hkept, rfl⟩ | ⟨rfl, hnew, htable, -⟩⟩ := hspec
      · rw [Bool.or_false] at hfresh
        exact hok.next rfl hfresh hkept c hc
      · rw [htable]
        exact hok.nextNew rfl hnew c (hsame ▸ hc)

theorem step_next (h' : Inv h) (hok : Permitted (.next, e) h)
    (hrun : getNext e h.state = some (s, refreshed, result)) :
    Inv ⟨s, h.log ++ [⟨.next, refreshed, result, entriesOf s⟩]⟩ := by
  simp only [getNext, Option.bind_eq_bind, Option.bind_eq_some_iff, Prod.exists] at hrun
  obtain ⟨s₁, refreshed', hdata, c, hc, hrun⟩ := hrun
  have hspec := getPsData_spec h'.live hok.opened hdata
  have hfound := next_found h' hok hspec hc
  obtain ⟨hlive, hcontext⟩ := h'.kept hspec
  by_cases hover : lastOf s₁.pstable s₁.pstableLines < (c + sizeofPsData) % 2 ^ 64
  · rw [if_pos hover] at hrun
    obtain ⟨rfl, hrest⟩ := Prod.mk.inj (Option.some.inj hrun)
    obtain ⟨rfl, rfl⟩ := Prod.mk.inj hrest
    refine h'.concat hlive ?_ ?_ nofun fun _ hkept _ l hl => ?_
    · rw [stale_concat, walked_concat]
      intro hstale
      obtain ⟨i, hi⟩ := hcontext hstale
      exact ⟨i, hi.table, hi.lines, hi.context, nofun⟩
    · rw [walked_concat]
      exact nofun
    · obtain rfl : refreshed' = false := hkept
      obtain ⟨i, hi⟩ := hcontext (by rw [h'.walking l hl, Bool.or_false])
      obtain ⟨entries, hentries⟩ := hlive hi.table
      obtain rfl : c = s₁.pstable + sizeofPsData * i := Option.some.inj (hc.symm.trans hi.context)
      obtain ⟨haddr, hlast⟩ := hi.next hentries
      rw [haddr, hlast] at hover
      rw [hi.walked l hl, hover]
      refine List.take_of_length_le ?_
      rw [hentries.entriesOf, hentries.lines]
  · obtain ⟨hzero, j, hj, haddr⟩ := hfound.resolve_left hover
    rw [if_neg hover] at hrun
    obtain ⟨rfl, hrest⟩ := Prod.mk.inj (Option.some.inj hrun)
    obtain ⟨rfl, rfl⟩ := Prod.mk.inj hrest
    obtain ⟨entries, hentries⟩ := hlive hzero
    have hlt : j < entries.length := hentries.lines ▸ hj
    have hread : entryAt s₁ ((c + sizeofPsData) % 2 ^ 64) = some entries[j] := by
      rw [haddr]
      exact hentries.entryAt hlt
    have hlive' : Live { s₁ with context := some ((c + sizeofPsData) % 2 ^ 64) } entries :=
      ⟨hentries.block, hentries.lines, hentries.sorted, hentries.fits⟩
    rw [hread]
    refine h'.concat (fun _ => ⟨entries, hlive'⟩) ?_ ?_ nofun nofun
    · rw [walked_concat]
      refine fun _ => ⟨j, hzero, hj, congrArg some haddr, fun l hl => ?_⟩
      dsimp only at hl
      split at hl
      · cases hl
      · rename_i hkept
        obtain ⟨l', hl', rfl⟩ := Option.map_eq_some_iff.mp hl
        obtain ⟨i, hi⟩ := hcontext (Bool.or_eq_false_iff.mpr ⟨h'.walking l' hl', Bool.eq_false_iff.mpr hkept⟩)
        obtain rfl : c = s₁.pstable + sizeofPsData * i := Option.some.inj (hc.symm.trans hi.context)
        obtain rfl : j = i + 1 := by
          rw [(hi.next hentries).1] at haddr
          unfold sizeofPsData at haddr
          omega
        rw [hi.walked l' hl', hentries.entriesOf, hlive'.entriesOf]
        exact (List.take_succ_eq_append_getElem hlt).symm
    · rw [stale_concat]
      exact fun _ _ => rfl

theorem inv_begin : Inv (⟨begin, []⟩ : History δ) :=
  ⟨fun h => absurd rfl h, nofun, nofun, nofun, fun _ _ _ hlog => absurd hlog.symm (by simp)⟩

theorem inv_step {h₁ : History δ} {op : Call × Env δ} (h' : Inv h) (hok : Permitted op h)
    (hrun : step op h = some h₁) : Inv h₁ := by
  obtain ⟨c, e⟩ := op
  obtain ⟨⟨s, refreshed, result⟩, hcall, rfl⟩ := Option.map_eq_some_iff.mp hrun
  cases c with
  | psData =>
      obtain ⟨⟨s', refreshed'⟩, hdata, heq⟩ := Option.map_eq_some_iff.mp hcall
      obtain ⟨rfl, hrest⟩ := Prod.mk.inj heq
      obtain ⟨rfl, rfl⟩ := Prod.mk.inj hrest
      exact step_psData h' hok hdata
  | first => exact step_first h' hok hcall
  | next => exact step_next h' hok hcall

end Walks

/-- In a run of permitted calls the table is NULL or live and sorted, no other entry is read, and every walk gets
the whole table. -/
theorem process_table {δ : Type} {h : History δ} (hr : Reachable step Permitted (· = ⟨begin, []⟩) h) : Sound h := by
  refine Inv.sound (hr.invariant Inv ?_ fun op h h' hinv hok hrun => inv_step hinv hok hrun)
  rintro _ rfl
  exact inv_begin

def proc (pid : Fin 100) : Proc Unit := .found ⟨pid, (), by omega⟩ true true

def twoProcs : Env Unit := ⟨1000, some [proc 7, proc 3], 4096, by decide⟩

def noProc : Env Unit := ⟨2000, none, 0, by decide⟩

def walk : List (Call × Env Unit) := [(.first, twoProcs), (.next, twoProcs), (.next, twoProcs)]

theorem permitted_next {h : History Unit}
    (htable : (h.state.pstable, h.state.psCacheTime, stale h.log) = (4096, 1000, false)) :
    Permitted (.next, twoProcs) h := by
  obtain ⟨hp, hrest⟩ := Prod.mk.inj htable
  obtain ⟨htime, hstale⟩ := Prod.mk.inj hrest
  have hkept : ¬ Refreshes twoProcs h.state := fun hrefreshes => by
    have hlt := hrefreshes (by rw [hp]; decide)
    rw [htime] at hlt
    exact absurd hlt (by decide)
  refine ⟨nofun, nofun, nofun, fun _ h => ?_, fun _ hrefreshes => absurd hrefreshes hkept⟩
  rw [hstale] at h
  cases h

/-- The walk gets both processes. -/
theorem process_table_walk : ∃ h : History Unit, exec step walk ⟨begin, []⟩ = some h ∧
    h.state.pstableLines = 2 ∧ Sound h := by
  have hstate (n : Nat) (hn : n = 1 ∨ n = 2) : (exec step (walk.take n) (⟨begin, []⟩ : History Unit)).map
      (fun h => (h.state.pstable, h.state.psCacheTime, stale h.log)) = some (4096, 1000, false) := by
    rcases hn with rfl | rfl <;> decide
  obtain ⟨h₁, hrun₁, hs₁⟩ := Option.map_eq_some_iff.mp (hstate 1 (.inl rfl))
  obtain ⟨h₂, hrun₂, hs₂⟩ := Option.map_eq_some_iff.mp (hstate 2 (.inr rfl))
  have hlines : (exec step walk (⟨begin, []⟩ : History Unit)).map (fun h => h.state.pstableLines) = some 2 := by
    decide
  obtain ⟨h₃, hrun₃, hs₃⟩ := Option.map_eq_some_iff.mp hlines
  have hfirst : Permitted (.first, twoProcs) (⟨begin, []⟩ : History Unit) :=
    ⟨nofun, fun _ hkept => absurd (fun hne => absurd rfl hne) hkept, fun _ _ _ => by decide, nofun, nofun⟩
  have hstep₁ : step (.first, twoProcs) ⟨begin, []⟩ = some h₁ := (exec_concat [] _ _).symm.trans hrun₁
  have hstep₂ := (exec_concat (walk.take 1) (.next, twoProcs) _).symm.trans hrun₂
  have hstep₃ := (exec_concat (walk.take 2) (.next, twoProcs) _).symm.trans hrun₃
  rw [hrun₁, Option.bind_some] at hstep₂
  rw [hrun₂, Option.bind_some] at hstep₃
  refine ⟨h₃, hrun₃, hs₃, process_table ?_⟩
  exact .next _ (.next _ (.next _ (.start rfl) hfirst hstep₁) (permitted_next hs₁) hstep₂) (permitted_next hs₂) hstep₃

/-- The table is freed, and the pointer to it is kept. -/
theorem table_dangling : ¬ ∀ (δ : Type) (h : History δ),
    Reachable step (fun _ _ => True) (· = ⟨begin, []⟩) h → Sound h := by
  intro hall
  have hsome : (exec step [(.psData, twoProcs), (.psData, noProc)] (⟨begin, []⟩ : History Unit)).map
      (fun h => (h.state.pstable, h.state.block.isSome)) = some (4096, false) := by
    decide
  obtain ⟨h, hrun, heq⟩ := Option.map_eq_some_iff.mp hsome
  obtain ⟨htable, hblock⟩ := Prod.mk.inj heq
  have hsound := hall Unit h (reachable_of_exec _ (fun _ _ _ => trivial) (.start rfl) hrun)
  rcases hsound.table with hzero | ⟨entries, hsome, -⟩
  · rw [htable] at hzero
    cases hzero
  · rw [hsome] at hblock
    cases hblock

end OiUserland.SunProcesses.ProcessTable
