import Mathlib.Data.List.Infix

namespace OiUserland.Fetch.Download

/-- What may be raised while a file is downloaded. -/
inductive Error
  | urlError
  | httpError
  | ioError
  | badStatusLine
  | keyboardInterrupt
  | other
  deriving DecidableEq

def Error.isUrlError : Error → Bool
  | .urlError | .httpError => true
  | _ => false

def Error.caught : Error → Bool
  | .other => false
  | _ => true

/-- The headers of the answer to HEAD. The length is what int makes of it, unless it raises an
exception. -/
structure Headers where
  transferEncoding : Option (List Char)
  contentLength : Option Int
  acceptRanges : Option (List Char)

/-- What an attempt gets: the number of bytes that are read, and what is raised behind them unless
the stream ends there. -/
structure Reply where
  arrived : Nat
  raised : Option Error

/-- A server with its content. It answers a request for a range from the start of the range. -/
structure Remote where
  content : List UInt8
  head : Except Error Headers
  reply : Nat → Reply
  renames : Bool

abbrev Name := List Char

abbrev Files := Name → Option (List UInt8)

def part (filename : Name) : Name := filename ++ ['.', 'p', 'a', 'r', 't']

/-- The name of the file, which is by default the last part of the URL. -/
def nameOf (url : List Char) (filename : Option Name) : Name :=
  filename.getD ((url.splitOn '/').getLastD [])

def lengthOf (headers : Headers) : Int :=
  if headers.transferEncoding = some ['c', 'h', 'u', 'n', 'k', 'e', 'd'] then 0
  else headers.contentLength.getD 0

def allowsPartial (headers : Headers) (allow : Bool) : Bool :=
  allow && headers.acceptRanges == some ['b', 'y', 't', 'e', 's']

def copy (o src : List UInt8) : List UInt8 :=
  match src with
  | [] => o
  | b :: src => copy (o ++ (b :: src).take 65536) ((b :: src).drop 65536)
termination_by src.length
decreasing_by rw [List.length_drop, List.length_cons]; omega

structure State where
  retry : Nat
  range : Option Nat
  files : Files

structure Task where
  filename : Name
  length : Int
  resume : Bool

section Attempts

variable (r : Remote) (t : Task)

def opened (files : Files) : List UInt8 :=
  if t.resume then (files (part t.filename)).getD [] else []

def attempt (s : State) : State × Option Error :=
  let o := opened t s.files
  let dl := o.length
  let range := if dl > 0 then some dl else s.range
  let reply := r.reply s.retry
  let done := copy o ((r.content.drop (range.getD 0)).take reply.arrived)
  let files := Function.update s.files (part t.filename) (some done)
  match reply.raised with
  | none =>
      let retry := if t.length > 0 ∧ (done.length : Int) < t.length then 4 + 1 else 4
      (⟨retry, range, files⟩, none)
  | some e =>
      if e.isUrlError then
        if dl > 0 ∧ done.length > dl then (⟨s.retry + 1, some (done.length + 1), files⟩, none)
        else (⟨4, range, files⟩, none)
      else (⟨s.retry, range, files⟩, some e)

theorem attempt_retry {s s' : State} (hs : s.retry ≤ 3) (h : attempt r t s = (s', none)) : s.retry < s'.retry := by
  obtain ⟨hstate, hraised⟩ := Prod.ext_iff.mp h
  dsimp only at hstate hraised
  subst hstate
  unfold attempt at hraised ⊢
  dsimp only at hraised ⊢
  cases he : (r.reply s.retry).raised with
  | none =>
      dsimp only
      split_ifs <;> omega
  | some e =>
      simp only [he] at hraised
      by_cases hurl : e.isUrlError = true
      · simp only [if_pos hurl]
        split_ifs <;> first | exact Nat.lt_succ_self _ | exact Nat.lt_succ_of_le hs
      · simp only [if_neg hurl] at hraised
        cases hraised

def attempts (s : State) : State × Option Error :=
  if _hs : s.retry ≤ 3 then
    match _h : attempt r t s with
    | (s', none) => attempts s'
    | (s', some e) => (s', some e)
  else (s, none)
termination_by 4 - s.retry
decreasing_by
  have hlt := attempt_retry r t _hs _h
  omega

def finish (s : State × Option Error) : Except Error (Option Name) × Files :=
  match s with
  | (s, none) =>
      if r.renames then
        let files := Function.update s.files (part t.filename) none
        (.ok (some t.filename), Function.update files t.filename (s.files (part t.filename)))
      else (.ok none, s.files)
  | (s, some e) => (if e.caught then .ok none else .error e, s.files)

end Attempts

def download (r : Remote) (url : List Char) (filename : Option Name) (allowPartial : Bool) (files : Files) :
    Except Error (Option Name) × Files :=
  match r.head with
  | .error e => (if e.caught then .ok none else .error e, files)
  | .ok headers =>
      let t : Task := ⟨nameOf url filename, lengthOf headers, allowsPartial headers allowPartial⟩
      finish r t (attempts r t ⟨1, none, files⟩)

end OiUserland.Fetch.Download

namespace OiUserland.Fetch.Resume

open Download

theorem copy_eq (o src : List UInt8) : copy o src = o ++ src := by
  induction o, src using copy.induct with
  | case1 o => rw [copy, List.append_nil]
  | case2 o b src ih => rw [copy, ih, List.append_assoc, List.take_append_drop]

theorem part_ne (filename : Name) : part filename ≠ filename := by
  intro h
  have hlen := congrArg List.length h
  simp [part] at hlen

section Attempts

variable (r : Remote) (kept : Nat)

def got : Nat → Nat
  | 0 => kept
  | i + 1 => min r.content.length (got i + (r.reply (i + 1)).arrived)

def Reply.leaves (reply : Reply) : Option Error := reply.raised.filter fun e => !e.isUrlError

/-- A URLError behind new bytes for a file that was there: another attempt is made. -/
structure GoesOn (i : Nat) : Prop where
  raised : ∃ e, (r.reply (i + 1)).raised = some e ∧ e.isUrlError = true
  there : 0 < got r kept i
  grown : got r kept i < got r kept (i + 1)

structure Last (i : Nat) : Prop where
  le : i ≤ 2
  before : ∀ j < i, GoesOn r kept j
  ends : i = 2 ∨ ¬ GoesOn r kept i

def Completes (length : Int) : Prop :=
  ∃ i, Last r kept i ∧
    match Reply.leaves (r.reply (i + 1)) with
    | some e => e.caught = true
    | none => r.renames = true → got r kept (i + 1) = r.content.length ∧ length ≤ r.content.length

variable {r : Remote} {kept : Nat} {t : Task} {files : Files} {s : State} {i j : Nat}

theorem last_unique (hi : Last r kept i) (hj : Last r kept j) : i = j := by
  have hle {a b : Nat} (ha : Last r kept a) (hb : Last r kept b) : ¬ a < b := by
    intro hab
    rcases ha.ends with h2 | hstop
    · have hb2 := hb.le
      omega
    · exact hstop (hb.before a hab)
  exact Nat.le_antisymm (Nat.not_lt.mp (hle hj hi)) (Nat.not_lt.mp (hle hi hj))

theorem completes_iff {length : Int} (hi : Last r kept i) :
    Completes r kept length ↔
      match Reply.leaves (r.reply (i + 1)) with
      | some e => e.caught = true
      | none => r.renames = true → got r kept (i + 1) = r.content.length ∧ length ≤ r.content.length := by
  constructor
  · rintro ⟨j, hj, hcompletes⟩
    rwa [last_unique hj hi] at hcompletes
  · intro h
    exact ⟨i, hi, h⟩

/-- What holds when an attempt begins with the first `k` bytes. -/
structure Begun (r : Remote) (t : Task) (files : Files) (k : Nat) (s : State) : Prop where
  le : k ≤ r.content.length
  bytes : opened t s.files = r.content.take k
  range : k = 0 → s.range = none
  frame : s.files t.filename = files t.filename

structure Ended (r : Remote) (t : Task) (files : Files) (k : Nat) (s : State) : Prop where
  bytes : s.files (part t.filename) = some (r.content.take k)
  frame : s.files t.filename = files t.filename

theorem copied {k n : Nat} {range : Option Nat} (hrange : range.getD 0 = k) :
    copy (r.content.take k) ((r.content.drop (range.getD 0)).take n) = r.content.take (min r.content.length (k + n)) := by
  rw [copy_eq, hrange, ← List.take_add]
  rcases Nat.le_total r.content.length (k + n) with h | h
  · rw [Nat.min_eq_left h, List.take_of_length_le h, List.take_length]
  · rw [Nat.min_eq_right h]

theorem attempt_ended (h : Begun r t files (got r kept i) s) (hretry : s.retry = i + 1) :
    Ended r t files (got r kept (i + 1)) (attempt r t s).1 ∧
      (attempt r t s).2 = Reply.leaves (r.reply (i + 1)) ∧
        (Reply.leaves (r.reply (i + 1)) = none → ¬ GoesOn r kept i → 3 < (attempt r t s).1.retry) ∧
          (GoesOn r kept i → (attempt r t s).1.retry = i + 2) := by
  have hlen : (r.content.take (got r kept i)).length = got r kept i := by
    rw [List.length_take, Nat.min_eq_left h.le]
  have hrange : (if got r kept i > 0 then some (got r kept i) else s.range).getD 0 = got r kept i := by
    by_cases hk : got r kept i > 0
    · rw [if_pos hk]
      rfl
    · have hzero : got r kept i = 0 := Nat.eq_zero_of_not_pos hk
      rw [if_neg hk, h.range hzero, hzero]
      rfl
  have hdone := copied (r := r) (n := (r.reply (i + 1)).arrived) hrange
  have hgrown : (r.content.take (got r kept (i + 1))).length = got r kept (i + 1) := by
    rw [List.length_take, Nat.min_eq_left]
    exact Nat.min_le_left _ _
  have hframe : Function.update s.files (part t.filename) (some (r.content.take (got r kept (i + 1)))) t.filename =
      files t.filename := by
    rw [Function.update_of_ne (part_ne t.filename).symm, h.frame]
  have hended (retry : Nat) (range : Option Nat) :
      Ended r t files (got r kept (i + 1))
        ⟨retry, range, Function.update s.files (part t.filename) (some (r.content.take (got r kept (i + 1))))⟩ :=
    ⟨Function.update_self .., hframe⟩
  have hdone' : min r.content.length (got r kept i + (r.reply (i + 1)).arrived) = got r kept (i + 1) := rfl
  unfold attempt
  simp only [hretry, h.bytes, hlen, hdone, hdone', hgrown]
  cases he : (r.reply (i + 1)).raised with
  | none =>
      have hleaves : Reply.leaves (r.reply (i + 1)) = none := by rw [Reply.leaves, he, Option.filter_none]
      refine ⟨hended _ _, hleaves.symm, fun _ _ => ?_, fun hgo => ?_⟩
      · dsimp only
        split_ifs <;> omega
      · obtain ⟨e, hraised, -⟩ := hgo.raised
        rw [he] at hraised
        cases hraised
  | some e =>
      by_cases hurl : e.isUrlError = true
      · have hleaves : Reply.leaves (r.reply (i + 1)) = none := by simp [Reply.leaves, he, hurl]
        simp only [if_pos hurl]
        by_cases hgo : got r kept i > 0 ∧ got r kept (i + 1) > got r kept i
        · rw [if_pos hgo]
          exact ⟨hended _ _, hleaves.symm, fun _ hnot => absurd ⟨⟨e, he, hurl⟩, hgo.1, hgo.2⟩ hnot, fun _ => rfl⟩
        · rw [if_neg hgo]
          exact ⟨hended _ _, hleaves.symm, fun _ _ => Nat.lt_succ_self 3, fun hgo' => absurd ⟨hgo'.there, hgo'.grown⟩ hgo⟩
      · have hleaves : Reply.leaves (r.reply (i + 1)) = some e := by simp [Reply.leaves, he, hurl]
        simp only [if_neg hurl]
        rw [hleaves]
        refine ⟨hended _ _, rfl, nofun, fun hgo => ?_⟩
        obtain ⟨e', hraised, hurl'⟩ := hgo.raised
        rw [he] at hraised
        cases hraised
        exact absurd hurl' hurl

theorem attempts_ended {i : Nat} {s : State} (h : Begun r t files (got r kept i) s) (hretry : s.retry = i + 1) (hi : i ≤ 2)
    (hbefore : ∀ j < i, GoesOn r kept j) (hresume : 0 < kept → t.resume = true) :
    ∃ j, Last r kept j ∧ Ended r t files (got r kept (j + 1)) (attempts r t s).1 ∧
      (attempts r t s).2 = Reply.leaves (r.reply (j + 1)) := by
  obtain ⟨hended, hraised, hstops, hgoes⟩ := attempt_ended h hretry
  rw [attempts, dif_pos (by omega)]
  rcases hstep : attempt r t s with ⟨s', e⟩
  rw [hstep] at hended hraised hstops hgoes
  by_cases hgo : GoesOn r kept i
  · obtain ⟨e', he, hurl⟩ := hgo.raised
    obtain rfl : e = none := hraised.trans (by simp [Reply.leaves, he, hurl])
    dsimp only at hended hgoes ⊢
    by_cases htwo : i = 2
    · rw [attempts, dif_neg (by rw [hgoes hgo]; omega)]
      exact ⟨i, ⟨hi, hbefore, .inl htwo⟩, hended, hraised⟩
    · have hzero : GoesOn r kept 0 := by
        rcases Nat.eq_zero_or_pos i with rfl | hpos
        · exact hgo
        · exact hbefore 0 hpos
      have hbegun : Begun r t files (got r kept (i + 1)) s' := by
        refine ⟨Nat.min_le_left .., ?_, fun hnone => ?_, hended.frame⟩
        · rw [opened, if_pos (hresume hzero.there), hended.bytes]
          rfl
        · exact absurd hgo.grown (by omega)
      refine attempts_ended hbegun (hgoes hgo) (by omega) (fun j hj => ?_) hresume
      rcases Nat.lt_succ_iff_lt_or_eq.mp hj with hlt | rfl
      · exact hbefore j hlt
      · exact hgo
  · refine ⟨i, ⟨hi, hbefore, .inr hgo⟩, ?_⟩
    cases e with
    | some e => exact ⟨hended, hraised⟩
    | none =>
        have hover := hstops hraised.symm hgo
        dsimp only at hended hover ⊢
        rw [attempts, dif_neg (by omega)]
        exact ⟨hended, hraised⟩
termination_by 2 - i

end Attempts

def Meets (content : List UInt8) (announced : Int) (filename : Name) (files : Files) :
    Except Error (Option Name) × Files → Prop
  | (.ok (some name), files') => name = filename ∧ files' name = some content ∧ announced ≤ content.length
  | (.ok none, files') => files' filename = files filename
  | (.error _, _) => False

def announced (r : Remote) : Int :=
  match r.head with
  | .error _ => 0
  | .ok headers => lengthOf headers

def Succeeds (r : Remote) (filename : Name) (allowPartial : Bool) (files : Files) : Prop :=
  match r.head with
  | .error e => e.caught = true
  | .ok headers =>
      Completes r (opened ⟨filename, lengthOf headers, allowsPartial headers allowPartial⟩ files).length (lengthOf headers)

/-- A download meets its contract just if the last attempt leaves the whole content or is left
by an exception that is caught. -/
theorem download_meets_iff (r : Remote) (url : List Char) (filename : Option Name) (allowPartial : Bool) (files : Files)
    (hpart : ∀ old, files (part (nameOf url filename)) = some old → old <+: r.content) :
    Meets r.content (announced r) (nameOf url filename) files (download r url filename allowPartial files) ↔
      Succeeds r (nameOf url filename) allowPartial files := by
  unfold download announced Succeeds
  cases hhead : r.head with
  | error e =>
      dsimp only
      by_cases hc : e.caught = true
      · rw [if_pos hc]
        exact iff_of_true rfl hc
      · rw [if_neg hc]
        exact iff_of_false id hc
  | ok headers =>
      dsimp only
      set t : Task := ⟨nameOf url filename, lengthOf headers, allowsPartial headers allowPartial⟩ with ht
      have hopened : opened t files <+: r.content := by
        unfold opened
        split
        · cases hold : files (part t.filename) with
          | none => exact List.nil_prefix
          | some old => exact hpart old hold
        · exact List.nil_prefix
      have hbegun : Begun r t files (got r (opened t files).length 0) ⟨1, none, files⟩ :=
        ⟨hopened.length_le, List.prefix_iff_eq_take.mp hopened, fun _ => rfl, rfl⟩
      have hresume : 0 < (opened t files).length → t.resume = true := by
        intro hpos
        by_contra hno
        rw [opened, if_neg hno] at hpos
        exact absurd hpos (Nat.lt_irrefl 0)
      obtain ⟨j, hlast, hended, hraised⟩ :=
        attempts_ended hbegun rfl (Nat.zero_le 2) (fun j hj => absurd hj (Nat.not_lt_zero j)) hresume
      rw [completes_iff hlast, ← hraised]
      rcases hrun : attempts r t ⟨1, none, files⟩ with ⟨s, e⟩
      rw [hrun] at hended
      cases e with
      | some e =>
          by_cases hc : e.caught = true
          · simp only [finish, if_pos hc]
            exact iff_of_true hended.frame hc
          · simp only [finish, if_neg hc]
            exact iff_of_false id hc
      | none =>
          by_cases hrename : r.renames = true
          · have hbytes : s.files (part t.filename) = _ := hended.bytes
            simp only [finish, if_pos hrename, Meets, Function.update_self, hbytes, Option.some.injEq]
            rw [List.take_eq_self_iff]
            have hle : got r (opened t files).length (j + 1) ≤ r.content.length := Nat.min_le_left ..
            constructor
            · rintro ⟨-, hge, hannounced⟩ -
              exact ⟨Nat.le_antisymm hle hge, hannounced⟩
            · intro h
              obtain ⟨hall, hannounced⟩ := h hrename
              exact ⟨rfl, Nat.le_of_eq hall.symm, hannounced⟩
          · simp only [finish, if_neg hrename]
            exact iff_of_true hended.frame fun h => absurd h hrename

def four (reply : Nat → Reply) : Remote where
  content := [1, 2, 3, 4]
  head := .ok ⟨none, some 4, some ['b', 'y', 't', 'e', 's']⟩
  reply := reply
  renames := true

/-- Two bytes are kept, the first attempt is cut after one, the second one gets the rest. -/
theorem resumed_meets :
    Meets [1, 2, 3, 4] 4 ['f'] (Function.update (fun _ => none) (part ['f']) (some [1, 2]))
      (download (four fun n => if n = 1 then ⟨1, some .urlError⟩ else ⟨1, none⟩) [] (some ['f']) true
        (Function.update (fun _ => none) (part ['f']) (some [1, 2]))) := by
  refine (download_meets_iff _ [] (some ['f']) true _ ?_).mpr ?_
  · intro old hold
    obtain rfl := Option.some.inj hold
    exact ⟨[3, 4], rfl⟩
  · refine ⟨1, ⟨Nat.le_succ 1, ?_, .inr ?_⟩, fun _ => ⟨rfl, by decide⟩⟩
    · intro j hj
      obtain rfl := Nat.lt_one_iff.mp hj
      exact ⟨⟨.urlError, rfl, rfl⟩, Nat.two_pos, Nat.lt_succ_self 2⟩
    · rintro ⟨⟨e, he, -⟩, -, -⟩
      cases he

theorem Meets.cases {content : List UInt8} {length : Int} {filename : Name} {files : Files}
    {result : Except Error (Option Name) × Files} (h : Meets content length filename files result) :
    result.2 filename = some content ∨ result.2 filename = files filename := by
  rcases result with ⟨_ | _ | name, files'⟩
  · exact h.elim
  · exact .inr h
  · obtain ⟨rfl, hcontent, -⟩ := h
    exact .inl hcontent

/-- A refused connection: the file that was there is replaced by an empty one. -/
theorem refused_replaces :
    ¬∀ (r : Remote) (url : List Char) (filename : Option Name) (allowPartial : Bool) (files : Files),
      (∀ old, files (part (nameOf url filename)) = some old → old <+: r.content) →
        Meets r.content (announced r) (nameOf url filename) files (download r url filename allowPartial files) := by
  intro hall
  have hmeets := hall (four fun _ => ⟨0, some .urlError⟩) [] (some ['f']) true
    (Function.update (fun _ => none) ['f'] (some [9])) nofun
  have hempty : (download (four fun _ => ⟨0, some .urlError⟩) [] (some ['f']) true
      (Function.update (fun _ => none) ['f'] (some [9]))).2 ['f'] = some [] := by decide +kernel
  rcases hmeets.cases with h | h
  · exact absurd (hempty.symm.trans h) (by decide)
  · exact absurd (hempty.symm.trans h) (by decide)

end OiUserland.Fetch.Resume
