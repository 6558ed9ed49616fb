import OiUserland.Lib.CStrings
import OiUserland.Lib.Delimited

namespace OiUserland.Dtlogin.Packets

open Lib.CStrings

/-- (uid_t) -1 and (gid_t) -1, for identifiers of 32 bits. -/
def noId : Nat := 2 ^ 32 - 1

def toId (val : Int) : Nat := (val % 2 ^ 32).toNat

def ngroupsUmax : Nat := 1024

/-- The identity to switch to. `groupids` is the array as far as it has been
written. -/
structure Dmuser where
  uid : Nat
  gid : Nat
  homedir : Option (List Char)
  projid : Int
  groupidCnt : Nat
  groupids : List Nat
  deriving DecidableEq

/-- The target user before any record has been read. -/
def noUser : Dmuser := ⟨noId, noId, none, -1, 0, []⟩

/-- What happens while packets are parsed: the packets themselves, the pairs that
are received, and the calls of dtlogin_process for a login. -/
inductive Event
  | packet (s : List Char)
  | command (k v : List Char)
  | process (user : Dmuser)
  deriving DecidableEq

def splitValue (k : List Char) : List Char → Option (List Char × List Char × List Char)
  | '"' :: v => (strchr '"' v).map fun (v, s) => (k, v, s)
  | _ => none

def nextPair (s : List Char) : Option (List Char × List Char × List Char) :=
  (strchr '=' (s.dropWhile isSpace)).bind fun (k, p) => splitValue k p

def number (v : List Char) : Option Int :=
  let (val, erange) := strtol v
  if val = 0 ∧ v ≠ "0".toList then none
  else if (val = longMax ∨ val = longMin) ∧ erange then none
  else some val

def addGroup (user : Dmuser) (gid : Nat) : Dmuser :=
  if user.groupidCnt < ngroupsUmax then
    { user with
      groupids := user.groupids.take user.groupidCnt ++ gid :: user.groupids.drop (user.groupidCnt + 1)
      groupidCnt := user.groupidCnt + 1 }
  else user

def receivePair (user : Dmuser) (k v : List Char) : Dmuser :=
  if k = "HOME".toList then { user with homedir := some v }
  else if k = "UID".toList ∨ k = "GID".toList ∨ k = "G_LIST_ID".toList then
    match number v with
    | none => user
    | some val =>
        if k = "UID".toList then { user with uid := toId val }
        else if k = "GID".toList then { user with gid := toId val }
        else addGroup user (toId val)
  else user

/-- The loop of dtlogin_parse_packet, which goes round at most `n` times: the user,
what has happened, and whether a login is complete. -/
def parseLoop : Nat → Dmuser → List Char → Dmuser × List Event × Bool
  | 0, user, _ => (user, [], false)
  | n + 1, user, s =>
      match nextPair s with
      | none => (user, [], false)
      | some (k, v, s) =>
          if k = "EOF".toList then (user, [.command k v, .process user], true)
          else
            let (user, events, done) := parseLoop n (receivePair user k v) s
            (user, .command k v :: events, done)

/-- dtlogin_parse_packet. Each pair takes up some of the packet. -/
def dtloginParsePacket (user : Dmuser) (s : List Char) : Dmuser × List Event × Bool :=
  parseLoop (s.length + 1) user s

section Lemmas

variable {user : Dmuser} {s s' k v : List Char}

theorem nextPair_length (h : nextPair s = some (k, v, s')) : s'.length < s.length := by
  obtain ⟨⟨k', p⟩, hk, h⟩ := Option.bind_eq_some_iff.mp h
  have hdrop := List.length_dropWhile_le isSpace s
  have hlen := congrArg List.length (strchr_eq_some hk).1
  simp only [splitValue] at h
  split at h
  · obtain ⟨⟨v', r⟩, hv, h⟩ := Option.map_eq_some_iff.mp h
    obtain ⟨-, rfl, rfl⟩ := Prod.mk.inj h |>.imp_right Prod.mk.inj
    have hlen' := congrArg List.length (strchr_eq_some hv).1
    simp only [List.length_append, List.length_cons] at hlen hlen' ⊢
    omega
  · cases h

theorem parseLoop_enough {n m : Nat} (hn : s.length < n) (hm : s.length < m) :
    parseLoop n user s = parseLoop m user s := by
  induction n generalizing m user s with
  | zero => omega
  | succ n ih =>
      cases m with
      | zero => omega
      | succ m =>
          rw [parseLoop, parseLoop]
          cases hp : nextPair s with
          | none => rfl
          | some p =>
              obtain ⟨k, v, s'⟩ := p
              have hlen := nextPair_length hp
              have hrest := @ih (receivePair user k v) s' m (by omega) (by omega)
              simp only [hrest]

theorem dtloginParsePacket_none (h : nextPair s = none) : dtloginParsePacket user s = (user, [], false) := by
  rw [dtloginParsePacket, parseLoop, h]

theorem dtloginParsePacket_eof (h : nextPair s = some ("EOF".toList, v, s')) :
    dtloginParsePacket user s = (user, [.command "EOF".toList v, .process user], true) := by
  simp only [dtloginParsePacket, parseLoop, h, if_pos]

theorem dtloginParsePacket_pair (h : nextPair s = some (k, v, s')) (hk : k ≠ "EOF".toList) :
    dtloginParsePacket user s =
      ((dtloginParsePacket (receivePair user k v) s').1,
        .command k v :: (dtloginParsePacket (receivePair user k v) s').2.1,
        (dtloginParsePacket (receivePair user k v) s').2.2) := by
  have hlen := nextPair_length h
  have hrest := @parseLoop_enough (receivePair user k v) s' s.length (s'.length + 1) (by omega) (by omega)
  simp only [dtloginParsePacket, parseLoop, h, if_neg hk, hrest]

theorem receivePair_home : receivePair user "HOME".toList v = { user with homedir := some v } := if_pos rfl

theorem receivePair_uid {val : Int} (h : number v = some val) :
    receivePair user "UID".toList v = { user with uid := toId val } := by
  rw [receivePair, if_neg (by decide), if_pos (.inl rfl), h]
  exact if_pos rfl

theorem receivePair_gid {val : Int} (h : number v = some val) :
    receivePair user "GID".toList v = { user with gid := toId val } := by
  rw [receivePair, if_neg (by decide), if_pos (.inr (.inl rfl)), h]
  exact (if_neg (by decide)).trans (if_pos rfl)

theorem receivePair_group {val : Int} (h : number v = some val) :
    receivePair user "G_LIST_ID".toList v = addGroup user (toId val) := by
  rw [receivePair, if_neg (by decide), if_pos (.inr (.inr rfl)), h]
  exact (if_neg (by decide)).trans (if_neg (by decide))

end Lemmas

end OiUserland.Dtlogin.Packets

namespace OiUserland.Dtlogin.Pipe

open Lib.CStrings Lib.Delimited Packets

def buflen : Nat := 1024

/-- The data of the pipe: the string in the buffer, which has been allocated when
`bufsize` is not 0, and the target user. -/
structure Dmdata where
  buf : List Char := []
  bufsize : Nat := 0
  user : Dmuser := noUser
  deriving DecidableEq

/-- What read() returns: bytes, or -1 with EINTR, EAGAIN or another error, or 0. -/
inductive ReadResult
  | data (bytes : List Char)
  | eintr
  | eagain
  | error
  | eof
  deriving DecidableEq

def parsePackets (user : Dmuser) : List (List Char) → Dmuser × List Event × Bool
  | [] => (user, [], false)
  | p :: ps =>
      match dtloginParsePacket user p with
      | (user, events, true) => (user, .packet p :: events, true)
      | (user, events, false) =>
          let (user, events', done) := parsePackets user ps
          (user, .packet p :: events ++ events', done)

def Dmdata.grow (d : Dmdata) : Dmdata :=
  if d.buf.length > d.bufsize / 2 then { d with bufsize := d.bufsize + buflen } else d

def Dmdata.room (d : Dmdata) : Nat := d.bufsize - d.buf.length - 1

def takeBytes (buf : List Char) (user : Dmuser) (bytes : List Char) : List Char × Dmuser × List Event × Bool :=
  let s := cString (buf ++ bytes)
  let (user, events, done) := parsePackets user (records ';' [] s)
  (if done then [] else unfinished ';' [] s, user, events, done)

/-- The loop of dtlogin_receive_packet: the data of the pipe, unless it has been
closed, what has happened, and the results that are left. No such run exists
when read() returns more than there is room for, or no byte. -/
def receiveLoop : List ReadResult → Dmdata → Option (Option Dmdata × List Event × List ReadResult)
  | [], d => some (some d, [], [])
  | .data bytes :: rs, d =>
      if bytes = [] ∨ d.grow.room < bytes.length then none
      else
        match takeBytes d.buf d.user bytes with
        | (buf, user, events, true) => some (some { d.grow with buf := buf, user := user }, events, rs)
        | (buf, user, events, false) =>
            (receiveLoop rs { d.grow with buf := buf, user := user }).map fun (d, events', rs) =>
              (d, events ++ events', rs)
  | .eintr :: rs, d => receiveLoop rs d.grow
  | .eagain :: rs, d => some (some d.grow, [], rs)
  | .error :: rs, _ => some (none, [], rs)
  | .eof :: rs, _ => some (none, [], rs)

def dtloginReceivePacket (rs : List ReadResult) (d : Dmdata) : Option (Option Dmdata × List Event × List ReadResult) :=
  receiveLoop rs (if d.bufsize = 0 then { d with bufsize := buflen } else d)

def dtloginPipeNotify : Nat → List ReadResult → Option Dmdata → Option (Option Dmdata × List Event × List ReadResult)
  | 0, rs, d => some (d, [], rs)
  | _ + 1, rs, none => some (none, [], rs)
  | n + 1, rs, some d =>
      (dtloginReceivePacket rs d).bind fun (d, events, rs) =>
        (dtloginPipeNotify n rs d).map fun (d, events', rs) => (d, events ++ events', rs)

def bytesOf : List ReadResult → List Char
  | [] => []
  | .data bytes :: rs => bytes ++ bytesOf rs
  | _ :: rs => bytesOf rs

end OiUserland.Dtlogin.Pipe
