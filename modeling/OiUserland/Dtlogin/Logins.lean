import OiUserland.Dtlogin.Records

namespace OiUserland.Dtlogin.Logins

open Lib.CStrings Lib.Delimited Packets Chunking Records

def uids (rs : List Record) : List Nat :=
  rs.filterMap fun
    | .uid n => some n
    | _ => none

def gids (rs : List Record) : List Nat :=
  rs.filterMap fun
    | .gid n => some n
    | _ => none

def groups (rs : List Record) : List Nat :=
  rs.filterMap fun
    | .group n => some n
    | _ => none

def homes (rs : List Record) : List (List Char) :=
  rs.filterMap fun
    | .home path => some path
    | _ => none

structure Listed (user : Dmuser) (rs : List Record) : Prop where
  uid : user.uid = (uids rs).getLast?.getD noId
  gid : user.gid = (gids rs).getLast?.getD noId
  homedir : user.homedir = (homes rs).getLast?
  groupids : user.groupids.take user.groupidCnt = groups rs

variable {user : Dmuser} {rs earlier own : List Record} {ls : List Login}

theorem getLast?_cons_getD {α : Type} (a b : α) (l : List α) : (a :: l).getLast?.getD b = l.getLast?.getD a := by
  rw [List.getLast?_cons, Option.getD_some]

@[simp] theorem addGroup_uid (user : Dmuser) (g : Nat) : (addGroup user g).uid = user.uid := by
  rw [addGroup]
  split <;> rfl

@[simp] theorem addGroup_gid (user : Dmuser) (g : Nat) : (addGroup user g).gid = user.gid := by
  rw [addGroup]
  split <;> rfl

@[simp] theorem addGroup_homedir (user : Dmuser) (g : Nat) : (addGroup user g).homedir = user.homedir := by
  rw [addGroup]
  split <;> rfl

theorem foldl_uid (rs : List Record) (user : Dmuser) :
    (rs.foldl Record.apply user).uid = (uids rs).getLast?.getD user.uid := by
  induction rs generalizing user with
  | nil => rfl
  | cons r rs ih =>
      rw [List.foldl_cons, ih]
      cases r with
      | uid n => exact (getLast?_cons_getD n user.uid (uids rs)).symm
      | group n => exact congrArg _ (addGroup_uid user n)
      | gid n | home path => rfl

theorem foldl_gid (rs : List Record) (user : Dmuser) :
    (rs.foldl Record.apply user).gid = (gids rs).getLast?.getD user.gid := by
  induction rs generalizing user with
  | nil => rfl
  | cons r rs ih =>
      rw [List.foldl_cons, ih]
      cases r with
      | gid n => exact (getLast?_cons_getD n user.gid (gids rs)).symm
      | group n => exact congrArg _ (addGroup_gid user n)
      | uid n | home path => rfl

theorem foldl_homedir (rs : List Record) (user : Dmuser) :
    (rs.foldl Record.apply user).homedir = (homes rs).getLast?.or user.homedir := by
  induction rs generalizing user with
  | nil => rfl
  | cons r rs ih =>
      rw [List.foldl_cons, ih]
      cases r with
      | home path =>
          have hlast : (homes (.home path :: rs)).getLast? = some ((homes rs).getLast?.getD path) :=
            List.getLast?_cons ..
          rw [hlast]
          cases (homes rs).getLast? <;> rfl
      | group n => exact congrArg _ (addGroup_homedir user n)
      | uid n | gid n => rfl

def Counted (user : Dmuser) : Prop := user.groupids.length = user.groupidCnt ∧ user.groupidCnt ≤ ngroupsUmax

theorem addGroup_counted (h : Counted user) (g : Nat) :
    Counted (addGroup user g) ∧ (addGroup user g).groupids = (user.groupids ++ [g]).take ngroupsUmax := by
  obtain ⟨hlen, hle⟩ := h
  rw [addGroup]
  split
  · rename_i hlt
    have hgroups : user.groupids.take user.groupidCnt ++ g :: user.groupids.drop (user.groupidCnt + 1) =
        user.groupids ++ [g] := by
      rw [← hlen, List.take_length, List.drop_eq_nil_of_le (by omega)]
    refine ⟨⟨?_, hlt⟩, ?_⟩
    · rw [hgroups, List.length_append, hlen]
      rfl
    · rw [hgroups, List.take_of_length_le]
      rw [List.length_append, hlen]
      exact hlt
  · rename_i hge
    refine ⟨⟨hlen, hle⟩, ?_⟩
    rw [List.take_append_of_le_length (by omega), List.take_of_length_le (by omega)]

theorem take_take_append {α : Type} (n : Nat) (l l' : List α) : (l.take n ++ l').take n = (l ++ l').take n := by
  rcases Nat.le_total l.length n with hle | hle
  · rw [List.take_of_length_le hle]
  · rw [List.take_append_of_le_length hle, List.take_append_of_le_length (by rw [List.length_take, Nat.min_eq_left hle]),
      List.take_take, Nat.min_self]

theorem foldl_groups (rs : List Record) (h : Counted user) :
    Counted (rs.foldl Record.apply user) ∧
      (rs.foldl Record.apply user).groupids = (user.groupids ++ groups rs).take ngroupsUmax := by
  induction rs generalizing user with
  | nil =>
      obtain ⟨hlen, hle⟩ := h
      refine ⟨⟨hlen, hle⟩, ?_⟩
      rw [groups, List.filterMap_nil, List.append_nil, List.take_of_length_le (by omega)]
      rfl
  | cons r rs ih =>
      rw [List.foldl_cons]
      cases r with
      | group n =>
          obtain ⟨hcounted, hgroups⟩ := addGroup_counted h n
          obtain ⟨hcounted', hgroups'⟩ := ih hcounted
          refine ⟨hcounted', hgroups'.trans ?_⟩
          have happend : user.groupids ++ groups (.group n :: rs) = user.groupids ++ [n] ++ groups rs := by
            rw [List.append_assoc]
            rfl
          rw [hgroups, take_take_append, happend]
      | uid n | gid n | home path => exact ih h

theorem counted_noUser : Counted noUser := ⟨rfl, Nat.zero_le _⟩

structure Overrides (earlier own : List Record) : Prop where
  uid : uids own ≠ [] ∨ uids earlier = []
  gid : gids own ≠ [] ∨ gids earlier = []
  homedir : homes own ≠ [] ∨ homes earlier = []
  groupids : groups earlier = [] ∧ (groups own).length ≤ ngroupsUmax ∨
    (groups own).length = ngroupsUmax ∧ groups own <+: groups earlier ++ groups own

theorem last_iff {earlier own : List Nat} {n : Nat} (h : n ∉ earlier) :
    (earlier ++ own).getLast?.getD n = own.getLast?.getD n ↔ own ≠ [] ∨ earlier = [] := by
  rcases List.eq_nil_or_concat own with rfl | ⟨l, a, rfl⟩
  · rcases List.eq_nil_or_concat earlier with rfl | ⟨l, a, rfl⟩
    · simp
    · have hne : a ≠ n := by
        rintro rfl
        exact h (by simp)
      simp [hne]
  · simp

theorem last?_iff {α : Type} {earlier own : List α} :
    (earlier ++ own).getLast? = own.getLast? ↔ own ≠ [] ∨ earlier = [] := by
  rcases List.eq_nil_or_concat own with rfl | ⟨l, a, rfl⟩
  · simp
  · simp

theorem take_iff {α : Type} {n : Nat} {earlier own : List α} :
    (earlier ++ own).take n = own ↔ earlier = [] ∧ own.length ≤ n ∨ own.length = n ∧ own <+: earlier ++ own := by
  constructor
  · intro h
    have hlen := congrArg List.length h
    rw [List.length_take, List.length_append] at hlen
    by_cases hnil : earlier = []
    · exact .inl ⟨hnil, by omega⟩
    · have hpos := List.length_pos_iff.mpr hnil
      exact .inr ⟨by omega, List.prefix_iff_eq_take.mpr (by rw [show own.length = n by omega]; exact h.symm)⟩
  · rintro (⟨rfl, hle⟩ | ⟨hlen, hpre⟩)
    · exact List.take_of_length_le hle
    · rw [← hlen]
      exact (List.prefix_iff_eq_take.mp hpre).symm

theorem mem_wellFormed (h : ∀ r ∈ rs, r.WellFormed) : noId ∉ uids rs ∧ noId ∉ gids rs := by
  constructor
  · intro hin
    obtain ⟨r, hr, heq⟩ := List.mem_filterMap.mp hin
    cases r with
    | uid n =>
        obtain rfl := Option.some.inj heq
        exact absurd (h _ hr) (Nat.lt_irrefl _)
    | gid n | group n | home path => cases heq
  · intro hin
    obtain ⟨r, hr, heq⟩ := List.mem_filterMap.mp hin
    cases r with
    | gid n =>
        obtain rfl := Option.some.inj heq
        exact absurd (h _ hr) (Nat.lt_irrefl _)
    | uid n | group n | home path => cases heq

theorem listed_iff (h : ∀ r ∈ earlier, r.WellFormed) :
    Listed ((earlier ++ own).foldl Record.apply noUser) own ↔ Overrides earlier own := by
  obtain ⟨huid, hgid⟩ := mem_wellFormed h
  obtain ⟨⟨hlen, -⟩, hgroups⟩ := foldl_groups (earlier ++ own) counted_noUser
  have hall := foldl_uid (earlier ++ own) noUser
  have hall' := foldl_gid (earlier ++ own) noUser
  have hall'' := foldl_homedir (earlier ++ own) noUser
  rw [uids, List.filterMap_append] at hall
  rw [gids, List.filterMap_append] at hall'
  rw [homes, List.filterMap_append, show noUser.homedir = none from rfl, Option.or_none] at hall''
  rw [groups, List.filterMap_append] at hgroups
  constructor
  · rintro ⟨h₁, h₂, h₃, h₄⟩
    rw [← hlen, List.take_length, hgroups] at h₄
    exact ⟨(last_iff huid).mp (hall.symm.trans h₁), (last_iff hgid).mp (hall'.symm.trans h₂),
      last?_iff.mp (hall''.symm.trans h₃), take_iff.mp h₄⟩
  · rintro ⟨h₁, h₂, h₃, h₄⟩
    refine ⟨hall.trans ((last_iff huid).mpr h₁), hall'.trans ((last_iff hgid).mpr h₂),
      hall''.trans (last?_iff.mpr h₃), ?_⟩
    rw [← hlen, List.take_length, hgroups]
    exact take_iff.mpr h₄

def AllOverride (earlier : List Record) : List Login → Prop
  | [] => True
  | l :: ls => Overrides earlier l.records ∧ AllOverride (earlier ++ l.records) ls

theorem login_records {l : Login} (h : l.WellFormed) : ∀ r ∈ l.records, r.WellFormed := by
  intro r hr
  obtain ⟨p, hp, hr⟩ := List.mem_flatMap.mp hr
  obtain ⟨q, hq, rfl⟩ := List.mem_map.mp hr
  rcases List.mem_append.mp hp with hp | hp
  · exact ((h.1 p hp).1 q hq).2
  · obtain rfl := List.mem_singleton.mp hp
    exact (h.2.1 q hq).2

theorem parseAll_iff (hls : ∀ l ∈ ls, l.WellFormed) (h : ∀ r ∈ earlier, r.WellFormed) :
    List.Forall₂ (fun user l => Listed user l.records)
        (applied (parseAll (earlier.foldl Record.apply noUser) (ls.flatMap Login.texts)).2) ls ↔
      AllOverride earlier ls := by
  induction ls generalizing earlier with
  | nil => exact iff_of_true .nil trivial
  | cons l ls ih =>
      have hl := hls l (List.mem_cons_self ..)
      obtain ⟨huser, happlied⟩ := parseAll_login hl (earlier.foldl Record.apply noUser)
      have hearlier : ∀ r ∈ earlier ++ l.records, r.WellFormed := fun r hr =>
        (List.mem_append.mp hr).elim (h r) (login_records hl r)
      rw [List.flatMap_cons, parseAll_append, applied_append, happlied, huser, ← List.foldl_append,
        List.singleton_append, List.forall₂_cons, AllOverride, listed_iff h,
        ih (fun l' hin => hls l' (List.mem_cons_of_mem _ hin)) hearlier]

def text (ls : List Login) : List Char := (ls.flatMap Login.texts).flatMap fun p => p ++ [';']

theorem not_mem_pairText {space k v : List Char} (hspace : ∀ c ∈ space, isSpace c = true) (hk : ';' ∉ k) (hv : ';' ∉ v) :
    ';' ∉ pairText space k v := by
  have hblank : ';' ∉ space := fun hin => absurd (hspace _ hin) (by decide)
  simp only [pairText, List.mem_append, List.mem_cons, List.not_mem_nil, or_false, hblank, hk, hv, false_or]
  decide

theorem packet_text {p : Packet} (h : p.WellFormed) : ';' ∉ p.text := by
  intro hin
  rcases List.mem_append.mp hin with hin | hin
  · obtain ⟨r, hr, hin⟩ := List.mem_flatMap.mp hin
    obtain ⟨hspace, hwf⟩ := h.1 r hr
    exact not_mem_pairText hspace (keys_ne _ (key_mem r.2)).2 (not_mem_value hwf).2 hin
  · exact absurd (h.2 _ hin) (by decide)

theorem login_texts (hls : ∀ l ∈ ls, l.WellFormed) : ∀ p ∈ ls.flatMap Login.texts, ';' ∉ p := by
  intro p hp
  obtain ⟨l, hl, hp⟩ := List.mem_flatMap.mp hp
  rcases List.mem_append.mp hp with hp | hp
  · obtain ⟨q, hq, rfl⟩ := List.mem_map.mp hp
    exact packet_text ((hls l hl).1 q hq)
  · obtain rfl := List.mem_singleton.mp hp
    intro hin
    rcases List.mem_append.mp hin with hin | hin
    · exact packet_text (hls l hl).2 hin
    · exact absurd hin (by decide)

/-- What dtlogin_process is called with is what each login of a stream lists, if
and only if each login overrides the ones before it. -/
theorem applied_iff (hls : ∀ l ∈ ls, l.WellFormed) :
    List.Forall₂ (fun user l => Listed user l.records) (applied (streamEvents (text ls))) ls ↔ AllOverride [] ls := by
  rw [streamEvents, text, (records_flatMap _ (login_texts hls)).1]
  exact parseAll_iff hls fun _ hr => absurd hr List.not_mem_nil

def logins : List Login :=
  [{ last := { records := [([], .uid 5)] } },
    { packets := [{ records := [([], .uid 6), ([' '], .gid 7), ([' '], .group 7)] }],
      last := { records := [([' '], .home "/home".toList)], space := [' '] } }]

theorem applied_logins :
    List.Forall₂ (fun user l => Listed user l.records) (applied (streamEvents (text logins))) logins ↔
      AllOverride [] logins := applied_iff (by decide +kernel)

def carrying : List Login :=
  [{ last := { records := [([], .uid 5), ([' '], .group 7)], space := [' '] } },
    { last := { records := [([], .uid 6)], space := [' '] } }]

/-- The second login is applied with the group of the first. -/
theorem applied_carrying : (∀ l ∈ carrying, l.WellFormed) ∧
    text carrying = "UID=\"5\" G_LIST_ID=\"7\" EOF=\"\";UID=\"6\" EOF=\"\";".toList ∧
    ¬ List.Forall₂ (fun user l => Listed user l.records) (applied (streamEvents (text carrying))) carrying := by
  have happlied : applied (streamEvents (text carrying)) =
      [{ noUser with uid := 5, groupidCnt := 1, groupids := [7] },
        { noUser with uid := 6, groupidCnt := 1, groupids := [7] }] := by decide +kernel
  refine ⟨by decide +kernel, by decide +kernel, fun h => ?_⟩
  rw [happlied, carrying] at h
  obtain ⟨hsecond, -⟩ := List.forall₂_cons.mp (List.forall₂_cons.mp h).2
  exact absurd hsecond.groupids (by decide)

end OiUserland.Dtlogin.Logins
