import OiUserland.Dtlogin.Packets

namespace OiUserland.Dtlogin.Chunking

open Lib.CStrings Lib.Delimited Packets Pipe

variable {user user' : Dmuser} {p rest buf : List Char} {ps : List (List Char)} {events : List Event} {done : Bool}

def parseAll (user : Dmuser) : List (List Char) → Dmuser × List Event
  | [] => (user, [])
  | p :: ps =>
      let (user, events, _) := dtloginParsePacket user p
      let (user, events') := parseAll user ps
      (user, .packet p :: events ++ events')

theorem parseAll_append (user : Dmuser) (ps qs : List (List Char)) :
    parseAll user (ps ++ qs) =
      ((parseAll (parseAll user ps).1 qs).1, (parseAll user ps).2 ++ (parseAll (parseAll user ps).1 qs).2) := by
  induction ps generalizing user with
  | nil => rfl
  | cons p ps ih => simp only [List.cons_append, parseAll, ih, List.append_assoc]

def endsLogin (p : List Char) : Bool := (dtloginParsePacket noUser p).2.2

theorem parse_done (user user' : Dmuser) (p : List Char) :
    (dtloginParsePacket user p).2.2 = (dtloginParsePacket user' p).2.2 := by
  induction hn : p.length using Nat.strongRecOn generalizing p user user' with
  | _ n ih =>
      cases hp : nextPair p with
      | none => rw [dtloginParsePacket_none hp, dtloginParsePacket_none hp]
      | some q =>
          obtain ⟨k, v, s⟩ := q
          by_cases hk : k = "EOF".toList
          · subst hk
            rw [dtloginParsePacket_eof hp, dtloginParsePacket_eof hp]
          · rw [dtloginParsePacket_pair hp hk, dtloginParsePacket_pair hp hk]
            exact ih s.length (hn ▸ nextPair_length hp) _ _ s rfl

theorem parse_done_eq (user : Dmuser) (p : List Char) : (dtloginParsePacket user p).2.2 = endsLogin p :=
  parse_done user noUser p

def packetText : List Event → List Char
  | [] => []
  | .packet s :: events => s ++ ';' :: packetText events
  | _ :: events => packetText events

theorem packetText_append (events events' : List Event) :
    packetText (events ++ events') = packetText events ++ packetText events' := by
  induction events with
  | nil => rfl
  | cons e events ih =>
      cases e with
      | packet s => simp only [List.cons_append, packetText, ih, List.append_assoc]
      | command k v => exact ih
      | process user => exact ih

theorem packetText_parse (user : Dmuser) (p : List Char) : packetText (dtloginParsePacket user p).2.1 = [] := by
  induction hn : p.length using Nat.strongRecOn generalizing p user with
  | _ n ih =>
      cases hp : nextPair p with
      | none =>
          rw [dtloginParsePacket_none hp]
          rfl
      | some q =>
          obtain ⟨k, v, s⟩ := q
          by_cases hk : k = "EOF".toList
          · subst hk
            rw [dtloginParsePacket_eof hp]
            rfl
          · rw [dtloginParsePacket_pair hp hk]
            exact ih s.length (hn ▸ nextPair_length hp) _ s rfl

theorem packetText_parseAll (user : Dmuser) (ps : List (List Char)) :
    packetText (parseAll user ps).2 = ps.flatMap fun p => p ++ [';'] := by
  induction ps generalizing user with
  | nil => rfl
  | cons p ps ih =>
      simp only [parseAll, List.cons_append, packetText, packetText_append, packetText_parse, ih, List.flatMap_cons,
        List.nil_append, List.append_assoc]

theorem parsePackets_cases (h : parsePackets user ps = (user', events, done)) :
    ∃ parsed left, ps = parsed ++ left ∧ parseAll user parsed = (user', events) ∧
      ((done = false ∧ left = [] ∧ ∀ p ∈ ps, endsLogin p = false) ∨
        (done = true ∧ ∃ before p, parsed = before ++ [p] ∧ endsLogin p = true ∧ ∀ q ∈ before, endsLogin q = false)) := by
  induction ps generalizing user events with
  | nil =>
      cases h
      exact ⟨[], [], rfl, rfl, .inl ⟨rfl, rfl, fun _ hin => absurd hin List.not_mem_nil⟩⟩
  | cons p ps ih =>
      rw [parsePackets] at h
      have hend := parse_done_eq user p
      split at h
      · rename_i user₁ events₁ hp
        rw [hp] at hend
        cases h
        refine ⟨[p], ps, rfl, ?_, .inr ⟨rfl, [], p, rfl, hend.symm, fun _ hin => absurd hin List.not_mem_nil⟩⟩
        simp only [parseAll, hp, List.append_nil]
      · rename_i user₁ events₁ hp
        rw [hp] at hend
        cases hps : parsePackets user₁ ps with
        | mk user₂ r =>
            obtain ⟨events₂, done₂⟩ := r
            rw [hps] at h
            cases h
            obtain ⟨parsed, left, rfl, hall, hcases⟩ := ih hps
            refine ⟨p :: parsed, left, rfl, ?_, ?_⟩
            · simp only [parseAll, hp, hall]
            · rcases hcases with ⟨rfl, rfl, hnone⟩ | ⟨rfl, before, q, rfl, hq, hbefore⟩
              · refine .inl ⟨rfl, rfl, fun q hin => ?_⟩
                rcases List.mem_cons.mp hin with rfl | hin
                · exact hend.symm
                · exact hnone q hin
              · refine .inr ⟨rfl, p :: before, q, rfl, hq, fun q' hin => ?_⟩
                rcases List.mem_cons.mp hin with rfl | hin
                · exact hend.symm
                · exact hbefore q' hin

def Kept (ps : List (List Char)) (rest : List Char) : Prop :=
  ∀ before p left, ps = before ++ p :: left → endsLogin p = true → left = [] ∧ rest = []

theorem kept_iff {before left : List (List Char)} (hp : endsLogin p = true) (hbefore : ∀ q ∈ before, endsLogin q = false) :
    Kept (before ++ p :: left) rest ↔ left = [] ∧ rest = [] := by
  constructor
  · intro hkept
    exact hkept before p left rfl hp
  · rintro ⟨rfl, rfl⟩ before' q left heq hq
    refine ⟨?_, rfl⟩
    -- a packet before the last one completes no login
    rcases List.eq_nil_or_concat left with hnil | ⟨l, x, rfl⟩
    · exact hnil
    · have hinit : before = before' ++ q :: l := by
        have hends : before ++ [p] = (before' ++ q :: l) ++ [x] := by
          rw [heq]
          simp
        exact (List.append_inj' hends rfl).1
      rw [hbefore q (by rw [hinit]; simp)] at hq
      cases hq

theorem parsePackets_kept (h : parsePackets user ps = (user', events, done)) (rest : List Char) :
    (packetText events ++ (if done then [] else rest)).length ≤
        ((ps.flatMap fun p => p ++ [';']) ++ rest).length ∧
      ((packetText events ++ (if done then [] else rest)).length =
        ((ps.flatMap fun p => p ++ [';']) ++ rest).length ↔ Kept ps rest) ∧
      (Kept ps rest → parseAll user ps = (user', events) ∧ (if done then [] else rest) = rest) := by
  obtain ⟨parsed, left, rfl, hall, hcases⟩ := parsePackets_cases h
  have htext : packetText events = parsed.flatMap fun p => p ++ [';'] := by
    rw [← packetText_parseAll user parsed, hall]
  rcases hcases with ⟨rfl, rfl, hnone⟩ | ⟨rfl, before, p, rfl, hp, hbefore⟩
  · rw [if_neg (by simp), htext, List.append_nil]
    refine ⟨le_refl _, iff_of_true rfl fun before p left heq hp => ?_, fun _ => ⟨hall, rfl⟩⟩
    rw [hnone p (by rw [List.append_nil, heq]; simp)] at hp
    cases hp
  · rw [if_pos rfl, htext, List.append_assoc, List.singleton_append, kept_iff hp hbefore]
    have hlen : ((before ++ p :: left).flatMap fun p => p ++ [';']).length =
        ((before ++ [p]).flatMap fun p => p ++ [';']).length + (left.flatMap fun p => p ++ [';']).length := by
      rw [show before ++ p :: left = (before ++ [p]) ++ left by simp, List.flatMap_append, List.length_append]
    have hleft : (left.flatMap fun p => p ++ [';']).length = 0 ↔ left = [] := by
      cases left with
      | nil => simp
      | cons q left => simp
    have hrest : rest.length = 0 ↔ rest = [] := List.length_eq_zero_iff
    rw [List.append_nil, List.length_append, hlen]
    refine ⟨by omega, ⟨fun heq => ⟨hleft.mp (by omega), hrest.mp (by omega)⟩, ?_⟩, ?_⟩
    · rintro ⟨rfl, rfl⟩
      simp
    · rintro ⟨rfl, rfl⟩
      exact ⟨hall, rfl⟩

def deliver : List ReadResult → List Char → Dmuser → List Char × Dmuser × List Event
  | [], buf, user => (buf, user, [])
  | .data bytes :: rs, buf, user =>
      let (buf, user, events, _) := takeBytes buf user bytes
      let (buf, user, events') := deliver rs buf user
      (buf, user, events ++ events')
  | _ :: rs, buf, user => deliver rs buf user

theorem deliver_append (rs rs' : List ReadResult) (buf : List Char) (user : Dmuser) :
    deliver (rs ++ rs') buf user =
      ((deliver rs' (deliver rs buf user).1 (deliver rs buf user).2.1).1,
        (deliver rs' (deliver rs buf user).1 (deliver rs buf user).2.1).2.1,
        (deliver rs buf user).2.2 ++ (deliver rs' (deliver rs buf user).1 (deliver rs buf user).2.1).2.2) := by
  induction rs generalizing buf user with
  | nil => rfl
  | cons r rs ih =>
      cases r with
      | data bytes => simp only [List.cons_append, deliver, ih, List.append_assoc]
      | eintr | eagain | error | eof => exact ih buf user

/-- read() returns bytes, or is to be called again. -/
def Reads (rs : List ReadResult) : Prop := ReadResult.error ∉ rs ∧ ReadResult.eof ∉ rs

@[simp] theorem grow_buf (d : Dmdata) : d.grow.buf = d.buf := by
  rw [Dmdata.grow]
  split <;> rfl

@[simp] theorem grow_user (d : Dmdata) : d.grow.user = d.user := by
  rw [Dmdata.grow]
  split <;> rfl

variable {rs left : List ReadResult} {d : Dmdata} {o : Option Dmdata}

theorem receiveLoop_deliver (hreads : Reads rs) (h : receiveLoop rs d = some (o, events, left)) :
    ∃ used d', rs = used ++ left ∧ o = some d' ∧ deliver used d.buf d.user = (d'.buf, d'.user, events) := by
  induction rs generalizing d events with
  | nil =>
      cases h
      exact ⟨[], d, rfl, rfl, rfl⟩
  | cons r rs ih =>
      have hreads' : Reads rs :=
        ⟨fun hin => hreads.1 (List.mem_cons_of_mem _ hin), fun hin => hreads.2 (List.mem_cons_of_mem _ hin)⟩
      cases r with
      | data bytes =>
          rw [receiveLoop] at h
          split at h
          · cases h
          · split at h
            · rename_i buf user events₁ htake
              cases h
              refine ⟨[.data bytes], _, rfl, rfl, ?_⟩
              simp only [deliver, htake, List.append_nil]
            · rename_i buf user events₁ htake
              obtain ⟨⟨o', events₂, left'⟩, hloop, h⟩ := Option.map_eq_some_iff.mp h
              cases h
              obtain ⟨used, d', rfl, rfl, hdel⟩ := ih hreads' hloop
              refine ⟨.data bytes :: used, d', rfl, rfl, ?_⟩
              simp only [deliver, htake, hdel]
      | eintr =>
          obtain ⟨used, d', rfl, rfl, hdel⟩ := ih hreads' h
          rw [grow_buf, grow_user] at hdel
          exact ⟨.eintr :: used, d', rfl, rfl, hdel⟩
      | eagain =>
          cases h
          exact ⟨[.eagain], d.grow, rfl, rfl, by rw [grow_buf, grow_user]; rfl⟩
      | error => exact absurd (List.mem_cons_self ..) hreads.1
      | eof => exact absurd (List.mem_cons_self ..) hreads.2

/-- However often the server is notified, only the results that read() returns
matter. -/
theorem dtloginPipeNotify_deliver {n : Nat} (hreads : Reads rs)
    (h : dtloginPipeNotify n rs (some d) = some (o, events, left)) :
    ∃ used d', rs = used ++ left ∧ o = some d' ∧ deliver used d.buf d.user = (d'.buf, d'.user, events) := by
  induction n generalizing rs d events with
  | zero =>
      cases h
      exact ⟨[], d, rfl, rfl, rfl⟩
  | succ n ih =>
      obtain ⟨⟨o₁, events₁, left₁⟩, hone, h⟩ := Option.bind_eq_some_iff.mp h
      obtain ⟨⟨o₂, events₂, left₂⟩, hmore, h⟩ := Option.map_eq_some_iff.mp h
      cases h
      obtain ⟨used, d₁, rfl, rfl, hdel⟩ := receiveLoop_deliver hreads hone
      have hreads' : Reads left₁ :=
        ⟨fun hin => hreads.1 (List.mem_append_right _ hin), fun hin => hreads.2 (List.mem_append_right _ hin)⟩
      obtain ⟨used', d', rfl, rfl, hdel'⟩ := ih hreads' hmore
      refine ⟨used ++ used', d', by rw [List.append_assoc], rfl, ?_⟩
      have hbuf : deliver used d.buf d.user = (d₁.buf, d₁.user, events₁) := by
        rw [← hdel]
        split <;> rfl
      rw [deliver_append, hbuf, hdel']

/-- No read goes on behind the end of a login, where `p` has been read before. -/
def KeepsAll (p : List Char) : List ReadResult → Prop
  | [] => True
  | .data bytes :: rs => Kept (records ';' p bytes) (unfinished ';' p bytes) ∧ KeepsAll (unfinished ';' p bytes) rs
  | _ :: rs => KeepsAll p rs

theorem takeBytes_kept {bytes buf' : List Char} (hbuf : ';' ∉ buf) (hnul : '\x00' ∉ buf ++ bytes)
    (h : takeBytes buf user bytes = (buf', user', events, done)) :
    ';' ∉ buf' ∧ buf' ⊆ buf ++ bytes ∧ (packetText events ++ buf').length ≤ (buf ++ bytes).length ∧
      ((packetText events ++ buf').length = (buf ++ bytes).length ↔
        Kept (records ';' buf bytes) (unfinished ';' buf bytes)) ∧
      (Kept (records ';' buf bytes) (unfinished ';' buf bytes) →
        parseAll user (records ';' buf bytes) = (user', events) ∧ buf' = unfinished ';' buf bytes) := by
  obtain ⟨hrecords, hrest⟩ := records_nil hbuf bytes
  rw [takeBytes, cString_of_not_mem hnul, hrecords, hrest] at h
  cases hparse : parsePackets user (records ';' buf bytes) with
  | mk user₁ q =>
      obtain ⟨events₁, done₁⟩ := q
      rw [hparse] at h
      cases h
      have hflat := flatMap_records (d := ';') buf bytes
      obtain ⟨hle, hiff, hall⟩ := parsePackets_kept hparse (unfinished ';' buf bytes)
      rw [hflat] at hle hiff
      refine ⟨?_, ?_, hle, hiff, hall⟩
      · split
        · exact List.not_mem_nil
        · exact not_mem_unfinished hbuf bytes
      · split
        · exact List.nil_subset _
        · rw [← hflat]
          exact List.subset_append_right ..

theorem deliver_kept (hbuf : ';' ∉ buf) (hnul : '\x00' ∉ buf ++ bytesOf rs) :
    (packetText (deliver rs buf user).2.2 ++ (deliver rs buf user).1).length ≤ (buf ++ bytesOf rs).length ∧
      ((packetText (deliver rs buf user).2.2 ++ (deliver rs buf user).1).length = (buf ++ bytesOf rs).length ↔
        KeepsAll buf rs) ∧
      (KeepsAll buf rs → (deliver rs buf user).2 = parseAll user (records ';' buf (bytesOf rs)) ∧
        (deliver rs buf user).1 = unfinished ';' buf (bytesOf rs)) := by
  induction rs generalizing buf user with
  | nil =>
      simp only [deliver, bytesOf, packetText, List.nil_append, List.append_nil, le_refl, KeepsAll, records, unfinished,
        parseAll, and_self, forall_const]
  | cons r rs ih =>
      cases r with
      | data bytes =>
          rw [bytesOf, ← List.append_assoc] at hnul
          have hleft : '\x00' ∉ buf ++ bytes := fun hin => hnul (List.mem_append_left _ hin)
          have hright : '\x00' ∉ bytesOf rs := fun hin => hnul (List.mem_append_right _ hin)
          cases htake : takeBytes buf user bytes with
          | mk buf₁ q =>
              obtain ⟨user₁, events₁, done⟩ := q
              obtain ⟨hbuf₁, hsub, hle, hiff, hall⟩ := takeBytes_kept hbuf hleft htake
              have hnul₁ : '\x00' ∉ buf₁ ++ bytesOf rs := fun hin =>
                (List.mem_append.mp hin).elim (fun hin => hleft (hsub hin)) hright
              obtain ⟨hle', hiff', hall'⟩ := @ih user₁ buf₁ hbuf₁ hnul₁
              rcases hdeliver : deliver rs buf₁ user₁ with ⟨buf₂, user₂, events₂⟩
              rw [hdeliver] at hle' hiff' hall'
              simp only [deliver, htake, hdeliver, bytesOf, KeepsAll, packetText_append, records_append, unfinished_append,
                parseAll_append, List.length_append] at hle hiff hle' hiff' ⊢
              refine ⟨by omega, ⟨fun heq => ?_, ?_⟩, ?_⟩
              · have hkept := hiff.mp (by omega)
                refine ⟨hkept, ?_⟩
                rw [← (hall hkept).2]
                exact hiff'.mp (by omega)
              · rintro ⟨hkept, hrest⟩
                have heq := hiff.mpr hkept
                rw [← (hall hkept).2] at hrest
                have heq' := hiff'.mpr hrest
                omega
              · rintro ⟨hkept, hrest⟩
                obtain ⟨hparse, hbuf'⟩ := hall hkept
                rw [← hbuf'] at hrest ⊢
                obtain ⟨hparse', hbuf''⟩ := hall' hrest
                rw [hparse]
                exact ⟨by rw [← hparse'], hbuf''⟩
      | eintr | eagain | error | eof => exact ih hbuf hnul

def streamEvents (s : List Char) : List Event := (parseAll noUser (records ';' [] s)).2

/-- Packets are parsed as they are in the stream, and no byte is lost, if and only
if no read goes on behind the end of a login. -/
theorem dtloginPipeNotify_iff {n : Nat} (hreads : Reads rs) (hnul : '\x00' ∉ bytesOf rs)
    (h : dtloginPipeNotify n rs (some {}) = some (some d, events, [])) :
    (events = streamEvents (bytesOf rs) ∧ packetText events ++ d.buf = bytesOf rs) ↔ KeepsAll [] rs := by
  obtain ⟨used, d', hused, hd, hdel⟩ := dtloginPipeNotify_deliver hreads h
  rw [List.append_nil] at hused
  subst hused
  obtain rfl := Option.some.inj hd
  obtain ⟨-, hiff, hall⟩ := @deliver_kept noUser [] rs List.not_mem_nil hnul
  have hdel' : deliver rs [] noUser = (d.buf, d.user, events) := hdel
  rw [hdel'] at hiff hall
  constructor
  · rintro ⟨-, htext⟩
    refine hiff.mp ?_
    rw [List.nil_append]
    exact congrArg List.length htext
  · intro hkeeps
    obtain ⟨hparse, hbuf⟩ := hall hkeeps
    have hevents : events = streamEvents (bytesOf rs) := congrArg Prod.snd hparse
    refine ⟨hevents, ?_⟩
    have hbuf' : d.buf = unfinished ';' [] (bytesOf rs) := hbuf
    rw [hevents, streamEvents, packetText_parseAll, hbuf']
    exact flatMap_records [] (bytesOf rs)

/-- A login whose packets come in three reads. -/
def login : List ReadResult :=
  [.data "UID=\"5\"; HO".toList, .eagain, .data "ME=\"/home\"; EOF=\"\"".toList, .data ";".toList]

theorem dtloginPipeNotify_login : ∃ (d : Dmdata) (events : List Event),
    dtloginPipeNotify 2 login (some {}) = some (some d, events, []) ∧
      ((events = streamEvents (bytesOf login) ∧ packetText events ++ d.buf = bytesOf login) ↔ KeepsAll [] login) := by
  have hrun : (dtloginPipeNotify 2 login (some {})).any (fun r => r.1.isSome && r.2.2 = []) = true := by decide +kernel
  obtain ⟨⟨o, events, left⟩, h, hdone⟩ := (Option.any_eq_true _ _).mp hrun
  obtain ⟨hopen, hleft⟩ := Bool.and_eq_true_iff.mp hdone
  obtain ⟨d, rfl⟩ := Option.isSome_iff_exists.mp hopen
  obtain rfl := of_decide_eq_true hleft
  exact ⟨d, events, h, dtloginPipeNotify_iff ⟨by decide, by decide⟩ (by decide) h⟩

/-- Two logins that come in one read, and in two. -/
def together : List ReadResult := [.data "EOF=\"\";UID=\"5\" EOF=\"\";".toList]

def apart : List ReadResult := [.data "EOF=\"\";".toList, .data "UID=\"5\" EOF=\"\";".toList]

/-- The second login is lost when it comes in the same read as the first. -/
theorem together_lost : bytesOf together = bytesOf apart ∧
    ((dtloginPipeNotify 2 together (some {})).map fun r => r.2) = some ([.packet "EOF=\"\"".toList,
      .command "EOF".toList [], .process noUser], []) ∧
    ((dtloginPipeNotify 2 apart (some {})).map fun r => r.2) = some ([.packet "EOF=\"\"".toList,
      .command "EOF".toList [], .process noUser, .packet "UID=\"5\" EOF=\"\"".toList,
      .command "UID".toList "5".toList, .command "EOF".toList [], .process { noUser with uid := 5 }], []) := by
  decide +kernel

end OiUserland.Dtlogin.Chunking
