import OiUserland.HealthMonitor.DiskTable

namespace OiUserland.HealthMonitor.DiskRows

open DiskTable

variable {d e : Disk} {ds disks : List Disk} {r r' t : Row} {rows rows' out : List Row} {conf : Config}

def Printed (d : Disk) : Prop := d.wPct.length < diskDataLen ∧ d.rPct.length < diskDataLen ∧ d.serv.length < diskDataLen

def fresh (d : Disk) : Row := ⟨d.name, d.aliasName, d.aliasName.length, d.wPct, d.rPct, d.serv, .ok, true⟩

def updated (d : Disk) (r : Row) : Row :=
  ⟨r.hmDiskName, d.aliasName, r.aliasLen, d.wPct, d.rPct, d.serv, r.hmDiskState, true⟩

def reset (r : Row) : Row := { r with hmTraversed := false }

theorem sprintf_eq_some {text text' : List Char} : sprintf text = some text' ↔ text.length < diskDataLen ∧ text = text' := by
  unfold sprintf
  split
  · simp_all
  · simp_all

theorem strcpy_eq_some {room : Nat} {text text' : List Char} : strcpy room text = some text' ↔ text.length ≤ room ∧ text = text' := by
  unfold strcpy
  split
  · simp_all
  · simp_all

theorem updateRow_eq_some : updateRow d r = some r' ↔ (d.aliasName.length ≤ r.aliasLen ∧ Printed d) ∧ r' = updated d r := by
  simp only [updateRow, Option.bind_eq_bind, Option.bind_eq_some_iff, strcpy_eq_some, sprintf_eq_some, Printed, updated]
  constructor
  · rintro ⟨_, ⟨hroom, rfl⟩, _, ⟨hwait, rfl⟩, _, ⟨hbusy, rfl⟩, _, ⟨hsvc, rfl⟩, hrow⟩
    exact ⟨⟨hroom, hwait, hbusy, hsvc⟩, (Option.some.inj hrow).symm⟩
  · rintro ⟨⟨hroom, hwait, hbusy, hsvc⟩, rfl⟩
    exact ⟨_, ⟨hroom, rfl⟩, _, ⟨hwait, rfl⟩, _, ⟨hbusy, rfl⟩, _, ⟨hsvc, rfl⟩, rfl⟩

theorem newRow_eq_some {traversed : Bool} :
    newRow traversed d = some r ↔ Printed d ∧ r = { fresh d with hmTraversed := traversed } := by
  simp only [newRow, Option.bind_eq_bind, Option.bind_eq_some_iff, sprintf_eq_some, Printed, fresh]
  constructor
  · rintro ⟨_, ⟨hwait, rfl⟩, _, ⟨hbusy, rfl⟩, _, ⟨hsvc, rfl⟩, hrow⟩
    exact ⟨⟨hwait, hbusy, hsvc⟩, (Option.some.inj hrow).symm⟩
  · rintro ⟨⟨hwait, hbusy, hsvc⟩, rfl⟩
    exact ⟨_, ⟨hwait, rfl⟩, _, ⟨hbusy, rfl⟩, _, ⟨hsvc, rfl⟩, rfl⟩

theorem sameName_iff : sameName d r = true ↔ d.name <+: r.hmDiskName := List.isPrefixOf_iff_prefix

theorem sameName_own (h : r.hmDiskName = d.name) : sameName d r = true := sameName_iff.mpr (h ▸ List.prefix_refl _)

def insertOrUpdate (d : Disk) : List Row → Option (List Row)
  | [] => (newRow true d).map fun r => [r]
  | r :: rows =>
      if sameName d r then (updateRow d r).map fun r' => r' :: rows
      else (insertOrUpdate d rows).map fun rows' => r :: rows'

def refreshRows (disks : List Disk) (rows : List Row) : Option (List Row) :=
  disks.foldlM (fun rows d => insertOrUpdate d rows) (rows.map reset)

theorem insertOrUpdate_append {xs : List Row} (hxs : ∀ x ∈ xs, sameName d x = false) (rows : List Row) :
    insertOrUpdate d (xs ++ rows) = (insertOrUpdate d rows).map (xs ++ ·) := by
  induction xs with
  | nil =>
      change _ = Option.map id _
      rw [Option.map_id]
      rfl
  | cons x xs ih =>
      rw [List.cons_append, insertOrUpdate, hxs x (List.mem_cons_self ..), ih fun y hy => hxs y (List.mem_cons_of_mem _ hy),
        if_neg Bool.false_ne_true, Option.map_map]
      rfl

theorem insertOrUpdate_match {xs ys : List Row} (hxs : ∀ x ∈ xs, sameName d x = false) (hr : sameName d r = true) :
    insertOrUpdate d (xs ++ r :: ys) = some out ↔
      (d.aliasName.length ≤ r.aliasLen ∧ Printed d) ∧ out = xs ++ updated d r :: ys := by
  rw [insertOrUpdate_append hxs, insertOrUpdate, if_pos hr]
  simp only [Option.map_eq_some_iff, updateRow_eq_some]
  constructor
  · rintro ⟨_, ⟨_, ⟨hfits, rfl⟩, rfl⟩, rfl⟩
    exact ⟨hfits, rfl⟩
  · rintro ⟨hfits, rfl⟩
    exact ⟨_, ⟨_, ⟨hfits, rfl⟩, rfl⟩, rfl⟩

theorem insertOrUpdate_new (hrows : ∀ x ∈ rows, sameName d x = false) :
    insertOrUpdate d rows = some out ↔ Printed d ∧ out = rows ++ [fresh d] := by
  have happend := insertOrUpdate_append hrows []
  rw [List.append_nil] at happend
  rw [happend, insertOrUpdate]
  simp only [Option.map_eq_some_iff, newRow_eq_some]
  constructor
  · rintro ⟨_, ⟨_, ⟨hprinted, rfl⟩, rfl⟩, rfl⟩
    exact ⟨hprinted, rfl⟩
  · rintro ⟨hprinted, rfl⟩
    exact ⟨_, ⟨_, ⟨hprinted, rfl⟩, rfl⟩, rfl⟩

theorem first_or_none (d : Disk) (rows : List Row) :
    (∃ xs r ys, rows = xs ++ r :: ys ∧ (∀ x ∈ xs, sameName d x = false) ∧ sameName d r = true) ∨
      ∀ x ∈ rows, sameName d x = false := by
  cases hfind : rows.find? (sameName d) with
  | none => exact .inr fun x hx => by simpa using List.find?_eq_none.mp hfind x hx
  | some r =>
      obtain ⟨hr, xs, ys, hrows, hxs⟩ := List.find?_eq_some_iff_append.mp hfind
      exact .inl ⟨xs, r, ys, hrows, fun x hx => by simpa using hxs x hx, hr⟩

theorem insertOrUpdate_cases (h : insertOrUpdate d rows = some rows') :
    (∃ xs r ys, rows = xs ++ r :: ys ∧ (∀ x ∈ xs, sameName d x = false) ∧ sameName d r = true ∧
      rows' = xs ++ updated d r :: ys) ∨
        (∀ x ∈ rows, sameName d x = false) ∧ rows' = rows ++ [fresh d] := by
  rcases first_or_none d rows with ⟨xs, r, ys, rfl, hxs, hr⟩ | hnone
  · exact .inl ⟨xs, r, ys, rfl, hxs, hr, ((insertOrUpdate_match hxs hr).mp h).2⟩
  · exact .inr ⟨hnone, ((insertOrUpdate_new hnone).mp h).2⟩

theorem names_insertOrUpdate (h : insertOrUpdate d rows = some rows') :
    rows'.map Row.hmDiskName = rows.map Row.hmDiskName ∨
      (∀ x ∈ rows, sameName d x = false) ∧ rows'.map Row.hmDiskName = rows.map Row.hmDiskName ++ [d.name] := by
  rcases insertOrUpdate_cases h with ⟨xs, r, ys, rfl, -, -, rfl⟩ | ⟨hnone, rfl⟩
  · left
    simp [updated]
  · right
    exact ⟨hnone, by simp [fresh]⟩

theorem name_not_mem (hnone : ∀ x ∈ rows, sameName d x = false) : d.name ∉ rows.map Row.hmDiskName := by
  intro hin
  obtain ⟨x, hx, hname⟩ := List.mem_map.mp hin
  exact Bool.false_ne_true ((hnone x hx).symm.trans (sameName_own hname))

theorem names_nodup (hnodup : (rows.map Row.hmDiskName).Nodup) (h : insertOrUpdate d rows = some rows') :
    (rows'.map Row.hmDiskName).Nodup := by
  rcases names_insertOrUpdate h with hsame | ⟨hnone, hnew⟩
  · rwa [hsame]
  · rw [hnew, List.nodup_append_comm]
    exact List.nodup_cons.mpr ⟨name_not_mem hnone, hnodup⟩

theorem mem_names (h : disks.foldlM (fun rows d => insertOrUpdate d rows) rows = some out) {name : List Char}
    (hin : name ∈ out.map Row.hmDiskName) : name ∈ rows.map Row.hmDiskName ∨ name ∈ disks.map Disk.name := by
  induction disks generalizing rows with
  | nil =>
      obtain rfl := Option.some.inj h
      exact .inl hin
  | cons d disks ih =>
      simp only [List.foldlM_cons, Option.bind_eq_bind, Option.bind_eq_some_iff] at h
      obtain ⟨rows₁, hrows₁, h⟩ := h
      rcases ih h with hin | hin
      · rcases names_insertOrUpdate hrows₁ with hsame | ⟨-, hnew⟩
        · exact .inl (hsame ▸ hin)
        · rw [hnew] at hin
          rcases List.mem_append.mp hin with hin | hin
          · exact .inl hin
          · rw [List.mem_singleton.mp hin]
            exact .inr (List.mem_cons_self ..)
      · exact .inr (List.mem_cons_of_mem _ hin)

theorem run_nodup (hnodup : (rows.map Row.hmDiskName).Nodup)
    (h : disks.foldlM (fun rows d => insertOrUpdate d rows) rows = some out) : (out.map Row.hmDiskName).Nodup := by
  induction disks generalizing rows with
  | nil =>
      obtain rfl := Option.some.inj h
      exact hnodup
  | cons d disks ih =>
      simp only [List.foldlM_cons, Option.bind_eq_bind, Option.bind_eq_some_iff] at h
      obtain ⟨rows₁, hrows₁, h⟩ := h
      exact ih (names_nodup hnodup hrows₁) h

def swept (conf : Config) (rows : List Row) : List Row := (rows.filter Row.hmTraversed).map (checkRow conf)

theorem swept_names : (swept conf rows).map Row.hmDiskName = (rows.filter Row.hmTraversed).map Row.hmDiskName := by
  rw [swept, List.map_map]
  rfl

def Lost (d : Disk) (rows : List Row) : Prop :=
  (∃ m, rows.find? (sameName d) = some m ∧ m.hmDiskName ≠ d.name) ∧ ∀ t ∈ rows, t.hmDiskName = d.name → t.hmTraversed = false

theorem find?_names (h : rows'.map Row.hmDiskName = rows.map Row.hmDiskName) {m : Row} (hm : rows.find? (sameName d) = some m) :
    ∃ m', rows'.find? (sameName d) = some m' ∧ m'.hmDiskName = m.hmDiskName := by
  induction rows generalizing rows' with
  | nil => cases hm
  | cons r rows ih =>
      cases rows' with
      | nil => cases h
      | cons r' rows' =>
          obtain ⟨hname, hrest⟩ := List.cons.inj h
          have hsame : sameName d r' = sameName d r := congrArg d.name.isPrefixOf hname
          rw [List.find?_cons] at hm ⊢
          rw [hsame]
          cases hr : sameName d r with
          | true =>
              rw [hr] at hm
              obtain rfl := Option.some.inj hm
              exact ⟨r', rfl, hname⟩
          | false =>
              rw [hr] at hm
              exact ih hrest hm

theorem find?_shorter (hle : e.name <+: d.name) {m : Row} (hm : rows.find? (sameName d) = some m)
    (ht : rows.find? (sameName e) = some t) (hown : sameName d t = true) : t = m := by
  induction rows with
  | nil => cases hm
  | cons r rows ih =>
      rw [List.find?_cons] at hm ht
      cases hr : sameName d r with
      | true =>
          have he : sameName e r = true := sameName_iff.mpr (hle.trans (sameName_iff.mp hr))
          rw [hr] at hm
          rw [he] at ht
          exact Option.some.inj (ht.symm.trans hm)
      | false =>
          rw [hr] at hm
          cases he : sameName e r with
          | true =>
              rw [he] at ht
              obtain rfl := Option.some.inj ht
              rw [hr] at hown
              cases hown
          | false =>
              rw [he] at ht
              exact ih hm ht

theorem Lost.step (h : Lost d rows) (hrun : insertOrUpdate e rows = some rows') : Lost d rows' := by
  obtain ⟨⟨m, hm, hne⟩, huntouched⟩ := h
  have hmem : ∃ x ∈ rows, sameName d x = true := ⟨m, List.mem_of_find?_eq_some hm, List.find?_some hm⟩
  rcases insertOrUpdate_cases hrun with ⟨xs, r, ys, hrows, hxs, hr, rfl⟩ | ⟨hnone, rfl⟩
  · refine ⟨?_, fun t ht hname => ?_⟩
    · have hnames : (xs ++ updated e r :: ys).map Row.hmDiskName = rows.map Row.hmDiskName := by
        rw [hrows]
        simp [updated]
      obtain ⟨m', hm', hname⟩ := find?_names hnames hm
      exact ⟨m', hm', hname ▸ hne⟩
    · rcases List.mem_append.mp ht with ht | ht
      · exact huntouched t (hrows ▸ List.mem_append_left _ ht) hname
      · rcases List.mem_cons.mp ht with rfl | ht
        · -- a shorter name would have found the other row
          have hfound : rows.find? (sameName e) = some r := by
            rw [hrows]
            refine List.find?_eq_some_iff_append.mpr ⟨hr, xs, ys, rfl, fun x hx => ?_⟩
            rw [hxs x hx]
            rfl
          have hle : e.name <+: d.name := by
            have := sameName_iff.mp hr
            rwa [show r.hmDiskName = d.name from hname] at this
          have hrm := find?_shorter hle hm hfound (sameName_own hname)
          exact absurd (hrm ▸ hname) hne
        · exact huntouched t (hrows ▸ List.mem_append_right _ (List.mem_cons_of_mem _ ht)) hname
  · refine ⟨⟨m, ?_, hne⟩, fun t ht hname => ?_⟩
    · rw [List.find?_append, hm]
      rfl
    · rcases List.mem_append.mp ht with ht | ht
      · exact huntouched t ht hname
      · obtain rfl := List.mem_singleton.mp ht
        obtain ⟨x, hx, hdx⟩ := hmem
        have hex : sameName e x = true := by
          rw [sameName_iff] at hdx ⊢
          rwa [show e.name = d.name from hname]
        rw [hnone x hx] at hex
        cases hex

theorem Lost.run (h : Lost d rows) (hrun : disks.foldlM (fun rows d => insertOrUpdate d rows) rows = some out) : Lost d out := by
  induction disks generalizing rows with
  | nil =>
      obtain rfl := Option.some.inj hrun
      exact h
  | cons e disks ih =>
      simp only [List.foldlM_cons, Option.bind_eq_bind, Option.bind_eq_some_iff] at hrun
      obtain ⟨rows₁, hrows₁, hrun⟩ := hrun
      exact ih (h.step hrows₁) hrun

theorem Lost.not_swept (h : Lost d rows) : d.name ∉ (swept conf rows).map Row.hmDiskName := by
  rw [swept_names]
  intro hin
  obtain ⟨t, ht, hname⟩ := List.mem_map.mp hin
  obtain ⟨ht, htraversed⟩ := List.mem_filter.mp ht
  rw [h.2 t ht hname] at htraversed
  cases htraversed

def unknown (rows : List Row) (d : Disk) : Bool := rows.all fun r => !sameName d r

/-- The first row has a disk that is reported, each disk that is reported finds its own row or
none, also among those that are added before its turn, and what is stored has room. -/
structure Distinguished (disks : List Disk) (rows : List Row) : Prop where
  first : ∃ r, rows.head? = some r ∧ r.hmDiskName ∈ disks.map Disk.name
  own : ∀ d ∈ disks, ∀ r, rows.find? (sameName d) = some r → r.hmDiskName = d.name
  added : (disks.filter (unknown rows)).Pairwise fun d e => ¬ e.name <+: d.name
  printed : ∀ d ∈ disks, Printed d
  room : ∀ d ∈ disks, ∀ r ∈ rows, r.hmDiskName = d.name → d.aliasName.length ≤ r.aliasLen

structure Current (conf : Config) (disks : List Disk) (rows rows' : List Row) : Prop where
  once : (rows'.map Row.hmDiskName).Perm (disks.map Disk.name)
  data : ∀ d ∈ disks, ∀ r ∈ rows', r.hmDiskName = d.name → r.hmDiskAliasName = d.aliasName ∧
    r.hmAvgWaitTransactions = d.wPct ∧ r.hmDiskBusyPcnt = d.rPct ∧ r.hmAvgDiskSvcTime = d.serv
  known : ∀ r ∈ rows, ∀ r' ∈ rows', r'.hmDiskName = r.hmDiskName →
    r'.hmDiskState = (checkRow conf { r' with hmDiskState := r.hmDiskState }).hmDiskState
  new : ∀ r' ∈ rows', r'.hmDiskName ∉ rows.map Row.hmDiskName →
    r'.hmDiskState = (checkRow conf { r' with hmDiskState := .ok }).hmDiskState

def refreshedRow (ds : List Disk) (r : Row) : Row :=
  match ds.find? fun d => d.name = r.hmDiskName with
  | some d => updated d r
  | none => reset r

def refreshed (ds : List Disk) (rows : List Row) : List Row :=
  rows.map (refreshedRow ds) ++ (ds.filter (unknown rows)).map fresh

theorem unknown_iff : unknown rows d = true ↔ ∀ x ∈ rows, sameName d x = false := by
  simp [unknown]

theorem refreshedRow_name (ds : List Disk) (r : Row) : (refreshedRow ds r).hmDiskName = r.hmDiskName := by
  unfold refreshedRow
  split <;> rfl

theorem traversed_iff : (refreshedRow ds r).hmTraversed = true ↔ r.hmDiskName ∈ ds.map Disk.name := by
  unfold refreshedRow
  cases hfind : ds.find? (fun d => decide (d.name = r.hmDiskName)) with
  | none =>
      refine iff_of_false Bool.false_ne_true fun hin => ?_
      obtain ⟨d, hd, hname⟩ := List.mem_map.mp hin
      exact List.find?_eq_none.mp hfind d hd (decide_eq_true hname)
  | some d =>
      have hname := List.find?_some (p := fun d : Disk => decide (d.name = r.hmDiskName)) hfind
      refine iff_of_true rfl (List.mem_map.mpr ⟨d, List.mem_of_find?_eq_some hfind, of_decide_eq_true hname⟩)

theorem refreshedRow_append_ne (h : r.hmDiskName ≠ d.name) : refreshedRow (ds ++ [d]) r = refreshedRow ds r := by
  have hlast : List.find? (fun d => decide (d.name = r.hmDiskName)) [d] = none := by
    simpa using fun heq => h (Eq.symm heq)
  unfold refreshedRow
  rw [List.find?_append, hlast, Option.or_none]

theorem refreshedRow_append_eq (h : r.hmDiskName = d.name) (hout : d.name ∉ ds.map Disk.name) :
    refreshedRow ds r = reset r ∧ refreshedRow (ds ++ [d]) r = updated d r := by
  have hnone : ds.find? (fun e => decide (e.name = r.hmDiskName)) = none := by
    refine List.find?_eq_none.mpr fun e he heq => hout ?_
    exact List.mem_map.mpr ⟨e, he, (of_decide_eq_true heq).trans h⟩
  have hlast : List.find? (fun e => decide (e.name = r.hmDiskName)) [d] = some d := by
    simpa using h.symm
  unfold refreshedRow
  rw [List.find?_append, hnone, hlast]
  exact ⟨rfl, rfl⟩

theorem sameName_refreshedRow : sameName d (refreshedRow ds r) = sameName d r := by
  rw [sameName, refreshedRow_name, sameName]

theorem refreshed_step (hrows : (rows.map Row.hmDiskName).Nodup) (hout : d.name ∉ ds.map Disk.name)
    (hown : ∀ r, rows.find? (sameName d) = some r → r.hmDiskName = d.name)
    (hadded : unknown rows d = true → ∀ e ∈ ds, unknown rows e = true → ¬ d.name <+: e.name) :
    insertOrUpdate d (refreshed ds rows) = some out ↔
      (Printed d ∧ ∀ r ∈ rows, r.hmDiskName = d.name → d.aliasName.length ≤ r.aliasLen) ∧ out = refreshed (ds ++ [d]) rows := by
  rcases first_or_none d rows with ⟨xs, r, ys, rfl, hxs, hr⟩ | hnone
  · have hname : r.hmDiskName = d.name := by
      refine hown r (List.find?_eq_some_iff_append.mpr ⟨hr, xs, ys, rfl, fun x hx => ?_⟩)
      rw [hxs x hx]
      rfl
    have hknown : unknown (xs ++ r :: ys) d = false := by
      rw [Bool.eq_false_iff, ne_eq, unknown_iff]
      intro h
      have hfalse := h r (List.mem_append_right _ (List.mem_cons_self ..))
      rw [hr] at hfalse
      cases hfalse
    have hother {x : Row} (hx : x ∈ xs ∨ x ∈ ys) : x.hmDiskName ≠ d.name := by
      intro heq
      rw [List.map_append, List.map_cons] at hrows
      have hperm := (List.perm_middle.nodup_iff.mp hrows)
      refine (List.nodup_cons.mp hperm).1 ?_
      rw [hname, ← heq, ← List.map_append]
      exact List.mem_map_of_mem (List.mem_append.mpr hx)
    obtain ⟨hbefore, hafter⟩ := refreshedRow_append_eq hname hout
    have hlist : refreshed ds (xs ++ r :: ys) =
        xs.map (refreshedRow ds) ++ reset r :: (ys.map (refreshedRow ds) ++ (ds.filter (unknown (xs ++ r :: ys))).map fresh) := by
      rw [refreshed, List.map_append, List.map_cons, hbefore, List.append_assoc, List.cons_append]
    have hlist' : refreshed (ds ++ [d]) (xs ++ r :: ys) =
        xs.map (refreshedRow ds) ++ updated d r :: (ys.map (refreshedRow ds) ++ (ds.filter (unknown (xs ++ r :: ys))).map fresh) := by
      have hxs' : xs.map (refreshedRow (ds ++ [d])) = xs.map (refreshedRow ds) :=
        List.map_congr_left fun x hx => refreshedRow_append_ne (hother (.inl hx))
      have hys' : ys.map (refreshedRow (ds ++ [d])) = ys.map (refreshedRow ds) :=
        List.map_congr_left fun x hx => refreshedRow_append_ne (hother (.inr hx))
      rw [refreshed, List.map_append, List.map_cons, hafter, hxs', hys', List.filter_append,
        List.filter_cons_of_neg (by rw [hknown]; exact Bool.false_ne_true), List.filter_nil, List.append_nil, List.append_assoc,
        List.cons_append]
    have hfirst : ∀ x ∈ xs.map (refreshedRow ds), sameName d x = false := by
      intro x hx
      obtain ⟨y, hy, rfl⟩ := List.mem_map.mp hx
      exact sameName_refreshedRow.trans (hxs y hy)
    rw [hlist, hlist', insertOrUpdate_match hfirst (show sameName d (reset r) = true from hr)]
    refine and_congr_left' ⟨fun h => ⟨h.2, fun x hx hxname => ?_⟩, fun h => ⟨?_, h.1⟩⟩
    · have hxr : x = r := by
        rcases List.mem_append.mp hx with hx | hx
        · exact absurd hxname (hother (.inl hx))
        · exact (List.mem_cons.mp hx).resolve_right fun hx => hother (.inr hx) hxname
      exact hxr ▸ h.1
    · exact h.2 r (List.mem_append_right _ (List.mem_cons_self ..)) hname
  · have hunknown : unknown rows d = true := unknown_iff.mpr hnone
    have hall : ∀ x ∈ refreshed ds rows, sameName d x = false := by
      intro x hx
      rcases List.mem_append.mp hx with hx | hx
      · obtain ⟨y, hy, rfl⟩ := List.mem_map.mp hx
        exact sameName_refreshedRow.trans (hnone y hy)
      · obtain ⟨e, he, rfl⟩ := List.mem_map.mp hx
        obtain ⟨he, heu⟩ := List.mem_filter.mp he
        rw [Bool.eq_false_iff, ne_eq, sameName_iff]
        exact hadded hunknown e he heu
    have hlist' : refreshed (ds ++ [d]) rows = refreshed ds rows ++ [fresh d] := by
      have hrows' : rows.map (refreshedRow (ds ++ [d])) = rows.map (refreshedRow ds) := by
        refine List.map_congr_left fun x hx => refreshedRow_append_ne fun heq => ?_
        exact name_not_mem hnone (heq ▸ List.mem_map_of_mem hx)
      rw [refreshed, refreshed, hrows', List.filter_append, List.filter_cons_of_pos hunknown, List.filter_nil, List.map_append,
        List.append_assoc]
      rfl
    rw [insertOrUpdate_new hall, hlist']
    refine and_congr_left' ⟨fun h => ⟨h, fun x hx hname => ?_⟩, fun h => h.1⟩
    exact absurd (hname ▸ List.mem_map_of_mem hx) (name_not_mem hnone)

theorem refreshRows_iff (hrows : (rows.map Row.hmDiskName).Nodup) (hdisks : (disks.map Disk.name).Nodup)
    (hown : ∀ d ∈ disks, ∀ r, rows.find? (sameName d) = some r → r.hmDiskName = d.name)
    (hadded : (disks.filter (unknown rows)).Pairwise fun d e => ¬ e.name <+: d.name) :
    refreshRows disks rows = some out ↔
      (∀ d ∈ disks, Printed d ∧ ∀ r ∈ rows, r.hmDiskName = d.name → d.aliasName.length ≤ r.aliasLen) ∧
        out = refreshed disks rows := by
  unfold refreshRows
  induction disks using List.reverseRecOn generalizing out with
  | nil =>
      have hstart : refreshed [] rows = rows.map reset := by
        rw [refreshed, List.filter_nil, List.map_nil, List.append_nil]
        rfl
      rw [hstart, List.foldlM_nil, and_iff_right fun d hd => absurd hd List.not_mem_nil]
      exact ⟨fun h => (Option.some.inj h).symm, fun h => congrArg some h.symm⟩
  | append_singleton ds d ih =>
      rw [List.map_append, List.nodup_append] at hdisks
      obtain ⟨hds, -, hdisjoint⟩ := hdisks
      have hout : d.name ∉ ds.map Disk.name := fun hin => hdisjoint _ hin _ (List.mem_cons_self ..) rfl
      rw [List.filter_append, List.pairwise_append] at hadded
      obtain ⟨hpairs, -, hlast⟩ := hadded
      have hstep : insertOrUpdate d (refreshed ds rows) = some out ↔ _ :=
        refreshed_step hrows hout (hown d (List.mem_append_right _ (List.mem_cons_self ..)))
          fun hu e he heu => hlast e (List.mem_filter.mpr ⟨he, heu⟩) d (List.mem_filter.mpr ⟨List.mem_cons_self .., hu⟩)
      have hbefore (mid : List Row) : ds.foldlM (fun rows d => insertOrUpdate d rows) (rows.map reset) = some mid ↔ _ :=
        ih hds (fun e he => hown e (List.mem_append_left _ he)) hpairs
      simp only [List.foldlM_append, List.foldlM_cons, List.foldlM_nil, Option.bind_eq_bind, Option.bind_eq_some_iff]
      constructor
      · rintro ⟨mid, hmid, out', hout', heq⟩
        obtain rfl := Option.some.inj heq
        obtain ⟨hfits, rfl⟩ := (hbefore mid).mp hmid
        obtain ⟨hfit, hresult⟩ := hstep.mp hout'
        refine ⟨fun e he => ?_, hresult⟩
        rcases List.mem_append.mp he with he | he
        · exact hfits e he
        · exact List.mem_singleton.mp he ▸ hfit
      · rintro ⟨hfits, rfl⟩
        have hmid := (hbefore (refreshed ds rows)).mpr ⟨fun e he => hfits e (List.mem_append_left _ he), rfl⟩
        exact ⟨_, hmid, _, hstep.mpr ⟨hfits d (List.mem_append_right _ (List.mem_cons_self ..)), rfl⟩, rfl⟩

theorem mem_swept (hr' : r' ∈ swept conf (refreshed disks rows)) :
    (∃ r ∈ rows, ∃ d ∈ disks, d.name = r.hmDiskName ∧ r' = checkRow conf (updated d r)) ∨
      ∃ d ∈ disks, unknown rows d = true ∧ r' = checkRow conf (fresh d) := by
  obtain ⟨t, ht, rfl⟩ := List.mem_map.mp hr'
  obtain ⟨ht, htraversed⟩ := List.mem_filter.mp ht
  rcases List.mem_append.mp ht with ht | ht
  · obtain ⟨r, hr, rfl⟩ := List.mem_map.mp ht
    left
    unfold refreshedRow at htraversed ⊢
    cases hfind : disks.find? (fun d => decide (d.name = r.hmDiskName)) with
    | none =>
        rw [hfind] at htraversed
        cases htraversed
    | some d =>
        have hname := List.find?_some (p := fun d : Disk => decide (d.name = r.hmDiskName)) hfind
        exact ⟨r, hr, d, List.mem_of_find?_eq_some hfind, of_decide_eq_true hname, rfl⟩
  · obtain ⟨d, hd, rfl⟩ := List.mem_map.mp ht
    obtain ⟨hd, hu⟩ := List.mem_filter.mp hd
    exact .inr ⟨d, hd, hu, rfl⟩

theorem name_mem_swept (hown : ∀ d ∈ disks, ∀ r, rows.find? (sameName d) = some r → r.hmDiskName = d.name) (hd : d ∈ disks) :
    d.name ∈ (swept conf (refreshed disks rows)).map Row.hmDiskName := by
  rw [swept_names]
  rcases first_or_none d rows with ⟨xs, r, ys, hrows, hxs, hr⟩ | hnone
  · have hfind : rows.find? (sameName d) = some r := by
      rw [hrows]
      refine List.find?_eq_some_iff_append.mpr ⟨hr, xs, ys, rfl, fun x hx => ?_⟩
      rw [hxs x hx]
      rfl
    have hname := hown d hd r hfind
    have htraversed : (refreshedRow disks r).hmTraversed = true := traversed_iff.mpr (hname ▸ List.mem_map_of_mem hd)
    refine List.mem_map.mpr ⟨refreshedRow disks r, List.mem_filter.mpr ⟨List.mem_append_left _ ?_, htraversed⟩, ?_⟩
    · exact List.mem_map_of_mem (List.mem_of_find?_eq_some hfind)
    · exact (refreshedRow_name disks r).trans hname
  · refine List.mem_map.mpr ⟨fresh d, List.mem_filter.mpr ⟨List.mem_append_right _ ?_, rfl⟩, rfl⟩
    exact List.mem_map_of_mem (List.mem_filter.mpr ⟨hd, unknown_iff.mpr hnone⟩)

theorem current_of_distinguished (conf : Config) (hrows : (rows.map Row.hmDiskName).Nodup) (hdisks : (disks.map Disk.name).Nodup)
    (h : Distinguished disks rows) :
    ∃ mid, refreshRows disks rows = some mid ∧ (∀ m, mid.head? = some m → m.hmTraversed = true) ∧ Current conf disks rows (swept conf mid) := by
  have hrun : refreshRows disks rows = some (refreshed disks rows) :=
    (refreshRows_iff hrows hdisks h.own h.added).mpr ⟨fun d hd => ⟨h.printed d hd, h.room d hd⟩, rfl⟩
  refine ⟨_, hrun, fun m hm => ?_, ?_, fun d hd r' hr' hname => ?_, fun r hr r' hr' hname => ?_, fun r' hr' hout => ?_⟩
  · obtain ⟨r, hr, hin⟩ := h.first
    rw [refreshed, List.head?_append, List.head?_map, hr] at hm
    obtain rfl := Option.some.inj hm
    exact traversed_iff.mpr hin
  · refine (List.perm_ext_iff_of_nodup ?_ hdisks).mpr fun name => ⟨fun hin => ?_, fun hin => ?_⟩
    · rw [swept_names]
      have hreset : ((rows.map reset).map Row.hmDiskName).Nodup := by
        rw [List.map_map]
        exact hrows
      exact (run_nodup hreset hrun).sublist (List.filter_sublist.map _)
    · obtain ⟨r', hr', rfl⟩ := List.mem_map.mp hin
      rcases mem_swept hr' with ⟨r, -, d, hd, hname, rfl⟩ | ⟨d, hd, -, rfl⟩
      · exact List.mem_map.mpr ⟨d, hd, hname⟩
      · exact List.mem_map.mpr ⟨d, hd, rfl⟩
    · obtain ⟨d, hd, rfl⟩ := List.mem_map.mp hin
      exact name_mem_swept h.own hd
  · rcases mem_swept hr' with ⟨r, -, e, he, hname', rfl⟩ | ⟨e, he, -, rfl⟩
    · obtain rfl := List.inj_on_of_nodup_map hdisks he hd (hname'.trans hname)
      exact ⟨rfl, rfl, rfl, rfl⟩
    · obtain rfl := List.inj_on_of_nodup_map hdisks he hd hname
      exact ⟨rfl, rfl, rfl, rfl⟩
  · rcases mem_swept hr' with ⟨t, ht, e, -, -, rfl⟩ | ⟨e, -, hu, rfl⟩
    · obtain rfl := List.inj_on_of_nodup_map hrows ht hr hname
      rfl
    · exact absurd (List.mem_map.mpr ⟨r, hr, hname.symm⟩) (name_not_mem (unknown_iff.mp hu))
  · rcases mem_swept hr' with ⟨t, ht, e, -, -, rfl⟩ | ⟨e, -, hu, rfl⟩
    · exact absurd (List.mem_map_of_mem ht) hout
    · rfl

theorem own_of_current {mid : List Row} (hrun : refreshRows disks rows = some mid) (hc : Current conf disks rows (swept conf mid))
    (hd : d ∈ disks) (hrow : rows.find? (sameName d) = some r) : r.hmDiskName = d.name := by
  by_contra hne
  have hlost : Lost d (rows.map reset) := by
    refine ⟨⟨reset r, ?_, hne⟩, fun t ht _ => ?_⟩
    · rw [List.find?_map]
      exact congrArg (Option.map reset) hrow
    · obtain ⟨x, -, rfl⟩ := List.mem_map.mp ht
      rfl
  exact (hlost.run hrun).not_swept (hc.once.mem_iff.mpr (List.mem_map_of_mem hd))

theorem pairwise_of_split {α : Type} {R : α → α → Prop} {l : List α} (h : ∀ xs x ys, l = xs ++ x :: ys → ∀ y ∈ ys, R x y) :
    l.Pairwise R := by
  induction l with
  | nil => exact .nil
  | cons x l ih =>
      refine .cons (h [] x l rfl) (ih fun xs y ys hl => h (x :: xs) y ys ?_)
      rw [hl, List.cons_append]

theorem added_of_current {mid : List Row} (hdisks : (disks.map Disk.name).Nodup) (hrun : refreshRows disks rows = some mid)
    (hc : Current conf disks rows (swept conf mid)) : (disks.filter (unknown rows)).Pairwise fun d e => ¬ e.name <+: d.name := by
  rw [List.pairwise_filter]
  refine pairwise_of_split fun xs d ys hsplit e he hdu heu hle => ?_
  subst hsplit
  unfold refreshRows at hrun
  simp only [List.foldlM_append, List.foldlM_cons, Option.bind_eq_bind, Option.bind_eq_some_iff] at hrun
  obtain ⟨before, hbefore, after, hafter, hrest⟩ := hrun
  have hxs : e.name ∉ (xs ++ [d]).map Disk.name := by
    intro hin
    rw [List.append_cons, List.map_append] at hdisks
    exact (List.nodup_append.mp hdisks).2.2 _ hin _ (List.mem_map_of_mem he) rfl
  have hnames : e.name ∉ after.map Row.hmDiskName := by
    intro hin
    have hrun' : (xs ++ [d]).foldlM (fun rows d => insertOrUpdate d rows) (rows.map reset) = some after := by
      simp only [List.foldlM_append, List.foldlM_cons, List.foldlM_nil, Option.bind_eq_bind, hbefore, Option.bind_some, hafter]
      rfl
    rcases mem_names hrun' hin with hin | hin
    · rw [List.map_map] at hin
      exact name_not_mem (unknown_iff.mp heu) hin
    · exact hxs hin
  have hfound : ∃ t ∈ after, sameName e t = true := by
    rcases insertOrUpdate_cases hafter with ⟨zs, r, ws, -, -, hr, rfl⟩ | ⟨-, rfl⟩
    · refine ⟨updated d r, List.mem_append_right _ (List.mem_cons_self ..), sameName_iff.mpr ?_⟩
      exact hle.trans (sameName_iff.mp hr)
    · exact ⟨fresh d, List.mem_append_right _ (List.mem_cons_self ..), sameName_iff.mpr hle⟩
  have hlost : Lost e after := by
    obtain ⟨t, ht, hsame⟩ := hfound
    cases hfind : after.find? (sameName e) with
    | none => exact absurd hsame (List.find?_eq_none.mp hfind t ht)
    | some m =>
        refine ⟨⟨m, hfind, fun hname => ?_⟩, fun t ht hname => ?_⟩
        · exact hnames (hname ▸ List.mem_map_of_mem (List.mem_of_find?_eq_some hfind))
        · exact absurd (hname ▸ List.mem_map_of_mem ht) hnames
  refine (hlost.run hrest).not_swept (hc.once.mem_iff.mpr (List.mem_map_of_mem ?_))
  exact List.mem_append_right _ (List.mem_cons_of_mem _ he)

theorem distinguished_of_current (hrows : (rows.map Row.hmDiskName).Nodup) (hdisks : (disks.map Disk.name).Nodup) {mid : List Row}
    (hne : rows ≠ []) (hrun : refreshRows disks rows = some mid) (hfirst : ∀ m, mid.head? = some m → m.hmTraversed = true)
    (hc : Current conf disks rows (swept conf mid)) : Distinguished disks rows := by
  have hown : ∀ d ∈ disks, ∀ r, rows.find? (sameName d) = some r → r.hmDiskName = d.name := fun d hd r hr =>
    own_of_current hrun hc hd hr
  have hadded := added_of_current hdisks hrun hc
  obtain ⟨hfits, rfl⟩ := (refreshRows_iff hrows hdisks hown hadded).mp hrun
  refine ⟨?_, hown, hadded, fun d hd => (hfits d hd).1, fun d hd => (hfits d hd).2⟩
  cases rows with
  | nil => exact absurd rfl hne
  | cons r rows => exact ⟨r, rfl, traversed_iff.mp (hfirst (refreshedRow disks r) rfl)⟩

end OiUserland.HealthMonitor.DiskRows
