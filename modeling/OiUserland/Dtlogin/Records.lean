import OiUserland.Dtlogin.Chunking

namespace OiUserland.Dtlogin.Records

open Lib.CStrings Packets Chunking

inductive Record
  | uid (n : Nat)
  | gid (n : Nat)
  | group (n : Nat)
  | home (path : List Char)
  deriving DecidableEq

def Record.key : Record → List Char
  | .uid _ => "UID".toList
  | .gid _ => "GID".toList
  | .group _ => "G_LIST_ID".toList
  | .home _ => "HOME".toList

def Record.value : Record → List Char
  | .uid n | .gid n | .group n => decimal n
  | .home path => path

/-- Identifiers are not (uid_t) -1, and paths can be written between quotes in a
packet. -/
def Record.WellFormed : Record → Prop
  | .uid n | .gid n | .group n => n < noId
  | .home path => '"' ∉ path ∧ ';' ∉ path ∧ '\x00' ∉ path

instance : (r : Record) → Decidable r.WellFormed
  | .uid n | .gid n | .group n => inferInstanceAs (Decidable (n < noId))
  | .home _ => inferInstanceAs (Decidable (_ ∧ _ ∧ _))

def pairText (space k v : List Char) : List Char := space ++ (k ++ '=' :: '"' :: (v ++ ['"']))

structure Packet where
  records : List (List Char × Record) := []
  space : List Char := []

def Packet.WellFormed (p : Packet) : Prop :=
  (∀ r ∈ p.records, (∀ c ∈ r.1, isSpace c = true) ∧ r.2.WellFormed) ∧ ∀ c ∈ p.space, isSpace c = true

def Packet.text (p : Packet) : List Char :=
  (p.records.flatMap fun r => pairText r.1 r.2.key r.2.value) ++ p.space

instance (space : List Char) : Decidable (∀ c ∈ space, isSpace c = true) := List.decidableBAll _ _

instance (p : Packet) : Decidable p.WellFormed := inferInstanceAs (Decidable (_ ∧ _))

/-- The packets of a login. Its last one goes on with the EOF record. -/
structure Login where
  packets : List Packet := []
  last : Packet := {}

def Login.WellFormed (l : Login) : Prop := (∀ p ∈ l.packets, p.WellFormed) ∧ l.last.WellFormed

instance (l : Login) : Decidable l.WellFormed := inferInstanceAs (Decidable (_ ∧ _))

def Login.texts (l : Login) : List (List Char) :=
  l.packets.map Packet.text ++ [l.last.text ++ pairText [] "EOF".toList []]

def Login.records (l : Login) : List Record :=
  (l.packets ++ [l.last]).flatMap fun p => p.records.map Prod.snd

def Record.apply (user : Dmuser) : Record → Dmuser
  | .uid n => { user with uid := n }
  | .gid n => { user with gid := n }
  | .group n => addGroup user n
  | .home path => { user with homedir := some path }

variable {user : Dmuser} {space k v s : List Char} {r : Record}

theorem nextPair_blank (h : ∀ c ∈ space, isSpace c = true) : nextPair space = none := by
  rw [nextPair, List.dropWhile_eq_nil_iff.mpr h]
  rfl

theorem nextPair_text {c : Char} (hspace : ∀ c ∈ space, isSpace c = true) (hc : isSpace c = false)
    (hk : '=' ∉ c :: k) (hv : '"' ∉ v) : nextPair (pairText space (c :: k) v ++ s) = some (c :: k, v, s) := by
  have hdrop : (pairText space (c :: k) v ++ s).dropWhile isSpace = (c :: k) ++ '=' :: ('"' :: (v ++ '"' :: s)) := by
    rw [pairText, List.append_assoc, List.dropWhile_append_of_pos hspace]
    simp [hc]
  rw [nextPair, hdrop, strchr_append hk, Option.bind_some]
  simp only [splitValue, strchr_append hv, Option.map_some]

theorem number_decimal {n : Nat} (h : n < noId) : number (decimal n) = some (n : Int) := by
  have hle : (n : Int) ≤ longMax := by
    rw [noId] at h
    rw [longMax]
    omega
  rw [number, strtol_decimal hle]
  simp only [Bool.false_eq_true, and_false, if_false]
  split
  · rename_i hzero
    have hn : n = 0 := Int.ofNat_eq_zero.mp hzero.1
    rw [hn] at hzero
    exact absurd rfl hzero.2
  · rfl

theorem toId_ofNat {n : Nat} (h : n < noId) : toId (n : Int) = n := by
  rw [noId] at h
  rw [toId]
  omega

theorem receivePair_record (h : r.WellFormed) : receivePair user r.key r.value = r.apply user := by
  cases r with
  | uid n =>
      refine (receivePair_uid (number_decimal h)).trans ?_
      rw [toId_ofNat h, Record.apply]
  | gid n =>
      refine (receivePair_gid (number_decimal h)).trans ?_
      rw [toId_ofNat h, Record.apply]
  | group n =>
      refine (receivePair_group (number_decimal h)).trans ?_
      rw [toId_ofNat h, Record.apply]
  | home path => exact receivePair_home

def keys : List (List Char) := ["UID".toList, "GID".toList, "G_LIST_ID".toList, "HOME".toList]

theorem key_mem : (r : Record) → r.key ∈ keys
  | .uid _ => show "UID".toList ∈ keys by decide
  | .gid _ => show "GID".toList ∈ keys by decide
  | .group _ => show "G_LIST_ID".toList ∈ keys by decide
  | .home _ => show "HOME".toList ∈ keys by decide

theorem keys_ne : ∀ k ∈ keys, k ≠ "EOF".toList ∧ ';' ∉ k := by decide

theorem not_mem_value (h : r.WellFormed) : '"' ∉ r.value ∧ ';' ∉ r.value := by
  cases r with
  | uid n | gid n | group n => exact ⟨not_isDigit (by decide) n, not_isDigit (by decide) n⟩
  | home path => exact ⟨h.1, h.2.1⟩

theorem nextPair_record (hspace : ∀ c ∈ space, isSpace c = true) (h : r.WellFormed) :
    nextPair (pairText space r.key r.value ++ s) = some (r.key, r.value, s) := by
  have hvalue := (not_mem_value h).1
  cases r <;> exact nextPair_text hspace (by decide) (by decide) hvalue

theorem dtloginParsePacket_record (hspace : ∀ c ∈ space, isSpace c = true) (h : r.WellFormed) :
    dtloginParsePacket user (pairText space r.key r.value ++ s) =
      ((dtloginParsePacket (r.apply user) s).1, .command r.key r.value :: (dtloginParsePacket (r.apply user) s).2.1,
        (dtloginParsePacket (r.apply user) s).2.2) := by
  rw [dtloginParsePacket_pair (nextPair_record hspace h) (keys_ne _ (key_mem r)).1, receivePair_record h]

/-- The calls of dtlogin_process for logins. -/
def applied : List Event → List Dmuser
  | [] => []
  | .process user :: events => user :: applied events
  | _ :: events => applied events

theorem applied_append (events events' : List Event) : applied (events ++ events') = applied events ++ applied events' := by
  induction events with
  | nil => rfl
  | cons e events ih =>
      cases e with
      | process user => rw [List.cons_append, applied, applied, ih, List.cons_append]
      | packet s => exact ih
      | command k v => exact ih

def Packet.apply (p : Packet) (user : Dmuser) : Dmuser := (p.records.map Prod.snd).foldl Record.apply user

theorem dtloginParsePacket_records (rs : List (List Char × Record))
    (h : ∀ r ∈ rs, (∀ c ∈ r.1, isSpace c = true) ∧ r.2.WellFormed) (user : Dmuser) (s : List Char) :
    ∃ commands, dtloginParsePacket user ((rs.flatMap fun r => pairText r.1 r.2.key r.2.value) ++ s) =
      ((dtloginParsePacket ((rs.map Prod.snd).foldl Record.apply user) s).1,
        commands ++ (dtloginParsePacket ((rs.map Prod.snd).foldl Record.apply user) s).2.1,
        (dtloginParsePacket ((rs.map Prod.snd).foldl Record.apply user) s).2.2) ∧ applied commands = [] := by
  induction rs generalizing user with
  | nil => exact ⟨[], rfl, rfl⟩
  | cons r rs ih =>
      obtain ⟨hspace, hr⟩ := h r (List.mem_cons_self ..)
      obtain ⟨commands, hrest, hnone⟩ := ih (fun r' hin => h r' (List.mem_cons_of_mem _ hin)) (r.2.apply user)
      refine ⟨.command r.2.key r.2.value :: commands, ?_, hnone⟩
      rw [List.flatMap_cons, List.append_assoc, dtloginParsePacket_record hspace hr, hrest]
      rfl

theorem dtloginParsePacket_text {p : Packet} (h : p.WellFormed) (user : Dmuser) :
    ∃ commands, dtloginParsePacket user p.text = (p.apply user, commands, false) ∧ applied commands = [] := by
  obtain ⟨commands, hp, hnone⟩ := dtloginParsePacket_records p.records h.1 user p.space
  rw [dtloginParsePacket_none (nextPair_blank h.2), List.append_nil] at hp
  exact ⟨commands, hp, hnone⟩

theorem dtloginParsePacket_last {p : Packet} (h : p.WellFormed) (user : Dmuser) :
    ∃ commands, dtloginParsePacket user (p.text ++ pairText [] "EOF".toList []) =
      (p.apply user, commands ++ [.process (p.apply user)], true) ∧ applied commands = [] := by
  obtain ⟨commands, hp, hnone⟩ :=
    dtloginParsePacket_records p.records h.1 user (p.space ++ pairText [] "EOF".toList [])
  have hnext : nextPair (p.space ++ pairText [] "EOF".toList []) = some ("EOF".toList, [], []) := by
    have htext := @nextPair_text p.space "OF".toList [] [] 'E' h.2 (by decide) (by decide) List.not_mem_nil
    rwa [List.append_nil] at htext
  rw [dtloginParsePacket_eof hnext, ← List.append_assoc] at hp
  refine ⟨commands ++ [.command "EOF".toList []], ?_, ?_⟩
  · rw [List.append_assoc]
    exact hp
  · rw [applied_append, hnone]
    rfl

theorem parseAll_packets (ps : List Packet) (h : ∀ p ∈ ps, p.WellFormed) (user : Dmuser) :
    (parseAll user (ps.map Packet.text)).1 = ps.foldl (fun user p => p.apply user) user ∧
      applied (parseAll user (ps.map Packet.text)).2 = [] := by
  induction ps generalizing user with
  | nil => exact ⟨rfl, rfl⟩
  | cons p ps ih =>
      obtain ⟨commands, hp, hnone⟩ := dtloginParsePacket_text (h p (List.mem_cons_self ..)) user
      obtain ⟨huser, hrest⟩ := ih (fun q hin => h q (List.mem_cons_of_mem _ hin)) (p.apply user)
      simp only [List.map_cons, parseAll, hp, List.cons_append, applied, applied_append, hnone, hrest, huser,
        List.foldl_cons, List.append_nil, and_self]

theorem foldl_apply (ps : List Packet) (user : Dmuser) :
    ps.foldl (fun user p => p.apply user) user = (ps.flatMap fun p => p.records.map Prod.snd).foldl Record.apply user := by
  induction ps generalizing user with
  | nil => rfl
  | cons p ps ih => rw [List.foldl_cons, ih, List.flatMap_cons, List.foldl_append, Packet.apply]

theorem parseAll_login {l : Login} (h : l.WellFormed) (user : Dmuser) :
    (parseAll user l.texts).1 = l.records.foldl Record.apply user ∧
      applied (parseAll user l.texts).2 = [l.records.foldl Record.apply user] := by
  obtain ⟨huser, hnone⟩ := parseAll_packets l.packets h.1 user
  obtain ⟨commands, hp, hnone'⟩ := dtloginParsePacket_last h.2 (parseAll user (l.packets.map Packet.text)).1
  have hrecords : l.last.apply (parseAll user (l.packets.map Packet.text)).1 = l.records.foldl Record.apply user := by
    rw [huser, foldl_apply, Login.records, List.flatMap_append, List.foldl_append, List.flatMap_singleton, Packet.apply]
  rw [hrecords] at hp
  rw [Login.texts, parseAll_append]
  simp only [parseAll, hp, List.append_nil, applied_append, applied, hnone, hnone', List.nil_append,
    and_self]

end OiUserland.Dtlogin.Records

namespace OiUserland.Dtlogin.Numbers

open Lib.CStrings Packets Records

inductive Field
  | uid
  | gid
  | group
  deriving DecidableEq

def Field.key : Field → List Char
  | .uid => "UID".toList
  | .gid => "GID".toList
  | .group => "G_LIST_ID".toList

def Field.store (user : Dmuser) (n : Nat) : Field → Dmuser
  | .uid => { user with uid := n }
  | .gid => { user with gid := n }
  | .group => addGroup user n

def received (user : Dmuser) (f : Field) (v : List Char) : Dmuser := (dtloginParsePacket user (pairText [] f.key v)).1

def Denotes (v : List Char) (n : Nat) : Prop := v ≠ [] ∧ (∀ c ∈ v, c.isDigit) ∧ Nat.ofDigitChars 10 v 0 = n ∧ n < noId

def ChangesRightly (f : Field) (v : List Char) : Prop :=
  ∀ user, received user f v ≠ user → ∃ n, Denotes v n ∧ received user f v = f.store user n

def TakesDenoted (f : Field) (v : List Char) : Prop :=
  ChangesRightly f v ∧ ∀ user n, Denotes v n → received user f v = f.store user n

def leading (v : List Char) : Int :=
  let (neg, s) := sign (v.dropWhile isSpace)
  let n : Int := Nat.ofDigitChars 10 (s.takeWhile Char.isDigit) 0
  if neg then -n else n

def Refused (v : List Char) : Prop := leading v = 0 ∧ v ≠ "0".toList ∨ longMax < leading v ∨ leading v < longMin

instance (v : List Char) : Decidable (Refused v) := inferInstanceAs (Decidable (_ ∨ _ ∨ _))

variable {user : Dmuser} {f : Field} {v : List Char} {n : Nat} {val : Int}

theorem received_eq (hv : '"' ∉ v) (user : Dmuser) : received user f v = receivePair user f.key v := by
  have hnone : nextPair [] = none := rfl
  have hpair : nextPair (pairText [] f.key v) = some (f.key, v, []) := by
    rw [← List.append_nil (pairText [] f.key v)]
    cases f with
    | uid => exact @nextPair_text [] "ID".toList v [] 'U' (List.forall_mem_nil _) (by decide) (by decide) hv
    | gid => exact @nextPair_text [] "ID".toList v [] 'G' (List.forall_mem_nil _) (by decide) (by decide) hv
    | group => exact @nextPair_text [] "_LIST_ID".toList v [] 'G' (List.forall_mem_nil _) (by decide) (by decide) hv
  have hkey : f.key ≠ "EOF".toList := by cases f <;> decide
  rw [received, dtloginParsePacket_pair hpair hkey, dtloginParsePacket_none hnone]

theorem receivePair_some (h : number v = some val) : receivePair user f.key v = f.store user (toId val) := by
  cases f with
  | uid => exact receivePair_uid h
  | gid => exact receivePair_gid h
  | group => exact receivePair_group h

theorem receivePair_none (h : number v = none) : receivePair user f.key v = user := by
  have hhome : f.key ≠ "HOME".toList := by cases f <;> decide
  have hnumber : f.key = "UID".toList ∨ f.key = "GID".toList ∨ f.key = "G_LIST_ID".toList := by
    cases f with
    | uid => exact .inl rfl
    | gid => exact .inr (.inl rfl)
    | group => exact .inr (.inr rfl)
  rw [receivePair, if_neg hhome, if_pos hnumber, h]

theorem number_none (h : Refused v) : number v = none := by
  have hstrtol : strtol v = toLong (leading v) := rfl
  rw [number, hstrtol]
  rcases h with ⟨hzero, hne⟩ | hmax | hmin
  · rw [hzero]
    exact if_pos ⟨rfl, hne⟩
  · rw [toLong, if_pos hmax]
    rfl
  · rw [toLong, if_neg (by rw [longMin] at hmin; rw [longMax]; omega), if_pos hmin]
    rfl

theorem number_some (h : ¬ Refused v) : number v = some (leading v) := by
  rw [Refused, not_or, not_or, Int.not_lt, Int.not_lt] at h
  obtain ⟨hzero, hmax, hmin⟩ := h
  have hstrtol : strtol v = (leading v, false) := toLong_of_le hmin hmax
  rw [number, hstrtol]
  dsimp only
  rw [if_neg hzero]
  exact if_neg fun hrange => Bool.false_ne_true hrange.2

theorem leading_of_denotes (h : Denotes v n) : leading v = n := by
  obtain ⟨-, hdigits, hvalue, -⟩ := h
  rw [leading, sign_digits hdigits]
  dsimp only
  rw [takeWhile_digits hdigits, hvalue]
  rfl

theorem number_of_denotes (h : Denotes v n) (hr : ¬ Refused v) : number v = some (n : Int) := by
  rw [number_some hr, leading_of_denotes h]

theorem refused_of_denotes (h : Denotes v n) : Refused v ↔ n = 0 ∧ v ≠ "0".toList := by
  have hn : n < noId := h.2.2.2
  rw [Refused, leading_of_denotes h]
  rw [noId] at hn
  rw [longMax, longMin]
  constructor
  · rintro (⟨hzero, hne⟩ | hmax | hmin)
    · exact ⟨Int.ofNat_eq_zero.mp hzero, hne⟩
    · omega
    · omega
  · rintro ⟨rfl, hne⟩
    exact .inl ⟨rfl, hne⟩

theorem exists_store_ne (f : Field) (n : Nat) : ∃ user, f.store user n ≠ user := by
  cases f with
  | uid => exact ⟨{ noUser with uid := n + 1 }, fun h => absurd (congrArg Dmuser.uid h) (Nat.ne_of_lt (Nat.lt_succ_self n))⟩
  | gid => exact ⟨{ noUser with gid := n + 1 }, fun h => absurd (congrArg Dmuser.gid h) (Nat.ne_of_lt (Nat.lt_succ_self n))⟩
  | group => exact ⟨noUser, fun h => absurd (congrArg Dmuser.groupidCnt h) Nat.one_ne_zero⟩

theorem changesRightly_iff (hv : '"' ∉ v) : ChangesRightly f v ↔ (∃ n, Denotes v n) ∨ Refused v := by
  constructor
  · intro h
    by_cases hr : Refused v
    · exact .inr hr
    · left
      obtain ⟨user, huser⟩ := exists_store_ne f (toId (leading v))
      have hstored : received user f v = f.store user (toId (leading v)) := by
        rw [received_eq hv, receivePair_some (number_some hr)]
      obtain ⟨n, hn, -⟩ := h user (by rw [hstored]; exact huser)
      exact ⟨n, hn⟩
  · intro h user hchanged
    rw [received_eq hv] at hchanged ⊢
    by_cases hr : Refused v
    · exact absurd (receivePair_none (number_none hr)) hchanged
    · obtain ⟨n, hn⟩ := h.resolve_right hr
      refine ⟨n, hn, ?_⟩
      rw [receivePair_some (number_of_denotes hn hr), toId_ofNat hn.2.2.2]

theorem takesDenoted_iff (hv : '"' ∉ v) :
    TakesDenoted f v ↔ (∃ n, Denotes v n ∧ (n = 0 → v = "0".toList)) ∨ (¬ ∃ n, Denotes v n) ∧ Refused v := by
  rw [TakesDenoted, changesRightly_iff hv]
  constructor
  · rintro ⟨hchanges, htakes⟩
    by_cases hd : ∃ n, Denotes v n
    · obtain ⟨n, hn⟩ := hd
      refine .inl ⟨n, hn, fun hzero => ?_⟩
      by_contra hne
      obtain ⟨user, huser⟩ := exists_store_ne f n
      have hkept := htakes user n hn
      rw [received_eq hv, receivePair_none (number_none ((refused_of_denotes hn).mpr ⟨hzero, hne⟩))] at hkept
      exact huser hkept.symm
    · exact .inr ⟨hd, hchanges.resolve_left hd⟩
  · rintro (⟨n, hn, hzero⟩ | ⟨hno, hr⟩)
    · refine ⟨.inl ⟨n, hn⟩, fun user m hm => ?_⟩
      obtain rfl : n = m := hn.2.2.1.symm.trans hm.2.2.1
      have hr : ¬ Refused v := fun hr => by
        obtain ⟨h0, hne⟩ := (refused_of_denotes hn).mp hr
        exact hne (hzero h0)
      rw [received_eq hv, receivePair_some (number_of_denotes hn hr), toId_ofNat hn.2.2.2]
    · exact ⟨.inr hr, fun user n hn => absurd ⟨n, hn⟩ hno⟩

/-- A number is taken rightly when the whole string is its numeral or strtol refuses the string, and also
a numeral of zero is then taken if it is a single digit. -/
theorem number_records_iff (f : Field) (v : List Char) (hv : '"' ∉ v) :
    (ChangesRightly f v ↔ (∃ n, Denotes v n) ∨ Refused v) ∧
      (TakesDenoted f v ↔ (∃ n, Denotes v n ∧ (n = 0 → v = "0".toList)) ∨ (¬ ∃ n, Denotes v n) ∧ Refused v) :=
  ⟨changesRightly_iff hv, takesDenoted_iff hv⟩

theorem number_records_iff_plain : ChangesRightly .uid "101".toList ∧ ¬ ChangesRightly .gid "10 ".toList := by
  have hplain := (number_records_iff .uid "101".toList (by decide)).1
  have htrailing := (number_records_iff .gid "10 ".toList (by decide)).1
  refine ⟨hplain.mpr (.inl ⟨101, by decide, List.all_eq_true.mp rfl, rfl, by decide⟩), fun h => ?_⟩
  rcases htrailing.mp h with ⟨n, -, hdigits, -⟩ | hr
  · exact absurd (hdigits ' ' (by decide)) (by decide)
  · exact absurd hr (by decide)

/-- A user identifier of 2 ^ 32 makes root of the user. -/
theorem root_from_overflow : received noUser .uid "4294967296".toList = { noUser with uid := 0 } ∧
    ¬ ChangesRightly .uid "4294967296".toList := by
  have hroot : received noUser .uid "4294967296".toList = { noUser with uid := 0 } := by decide
  refine ⟨hroot, fun h => ?_⟩
  obtain ⟨n, ⟨-, -, hvalue, hlt⟩, -⟩ := h noUser (by rw [hroot]; decide)
  rw [← hvalue] at hlt
  exact absurd hlt (by decide)

end OiUserland.Dtlogin.Numbers
