import OiUserland.Dtlogin.Packets

namespace OiUserland.Dtlogin.Identity

open Packets

structure Creds where
  ruid : Nat
  euid : Nat
  suid : Nat
  rgid : Nat
  egid : Nat
  sgid : Nat
  groups : List Nat
  deriving DecidableEq

def Creds.seteuid (c : Creds) (u : Nat) : Creds := { c with euid := u }

def Creds.setegid (c : Creds) (g : Nat) : Creds := { c with egid := g }

def Creds.setreuid (c : Creds) (r e : Nat) : Creds :=
  let euid := if e = noId then c.euid else e
  { c with
    ruid := if r = noId then c.ruid else r
    euid := euid
    suid := if r ≠ noId ∨ (e ≠ noId ∧ e ≠ c.ruid) then euid else c.suid }

def Creds.setregid (c : Creds) (r e : Nat) : Creds :=
  let egid := if e = noId then c.egid else e
  { c with
    rgid := if r = noId then c.rgid else r
    egid := egid
    sgid := if r ≠ noId ∨ (e ≠ noId ∧ e ≠ c.rgid) then egid else c.sgid }

def Creds.setgroups (c : Creds) (n : Nat) (groupids : List Nat) : Creds := { c with groups := groupids.take n }

/-- What the server is told by the system: directories, accounts and projects, and
whether there is an authorization file, a console and a key for screens. -/
structure Env (Dir : Type) where
  chdir : Dir → List Char → Dir
  getcwd : Dir → List Char
  getpwuid : Nat → Option (List Char)
  getdefaultproj : List Char → Option Int
  authFile : Bool
  console : Bool
  registers : Bool

/-- What dtlogin_process changes: the identity, directory and project of the
server, its HOME, the owner of the authorization file, whether closing a screen
closes down, and whether the console knows of a login. -/
structure Server (Dir : Type) where
  creds : Creds
  cwd : Dir
  projid : Int
  home : Option (List Char) := none
  authOwner : Option (Nat × Nat) := none
  wrapped : Bool := false
  displogin : Option Bool := none

variable {Dir : Type} (env : Env Dir)

def resetPrivs (user : Dmuser) (s : Server Dir) : Server Dir :=
  { s with
    creds := if s.creds.euid ≠ 0 then s.creds.seteuid 0 else s.creds
    authOwner := if env.authFile then some (user.uid, user.gid) else s.authOwner }

def setGids (user : Dmuser) (s : Server Dir) : Server Dir :=
  let creds := if user.gid ≠ noId then (s.creds.setregid user.gid 0).setegid user.gid else s.creds
  { s with creds := creds.setgroups user.groupidCnt user.groupids }

def setProject (user : Dmuser) (loggedIn : Bool) (s : Server Dir) : Server Dir × Bool :=
  if toId user.projid ≠ noId then ({ s with projid := user.projid }, loggedIn)
  else if user.uid ≠ noId then
    match env.getpwuid user.uid with
    | none => (s, loggedIn)
    | some name =>
        ({ s with projid := (env.getdefaultproj name).getD s.projid }, if name = "gdm".toList then false else loggedIn)
  else (s, loggedIn)

def setUids (user : Dmuser) (original : Bool) (s : Server Dir) : Server Dir :=
  if user.uid ≠ noId then
    { s with
      creds := (s.creds.setreuid user.uid noId).setreuid noId user.uid
      wrapped := s.wrapped || (user.uid ≠ 0 && !original && env.registers) }
  else s

def setHome (user : Dmuser) (s : Server Dir) : Server Dir :=
  match user.homedir with
  | none => s
  | some path => { s with home := some path, cwd := env.chdir s.cwd path }

def dtloginProcess (user : Dmuser) (original loggedIn : Bool) (s : Server Dir) : Server Dir :=
  let (s, loggedIn) := setProject env user loggedIn (setGids user (resetPrivs env user s))
  let s := setHome env user (setUids env user original s)
  { s with displogin := if env.console then some loggedIn else s.displogin }

structure State (Dir : Type) where
  server : Server Dir
  originalUser : Dmuser := ⟨0, 0, none, 0, 0, []⟩
  pipe : Bool := false

def dtloginInit (serverGeneration : Nat) (created : Bool) (s : State Dir) : State Dir :=
  if serverGeneration ≠ 1 then s
  else
    let c := s.server.creds
    let originalUser : Dmuser := { s.originalUser with
      uid := c.euid
      gid := c.egid
      groupids := c.groups
      homedir := some (env.getcwd s.server.cwd)
      projid := s.server.projid }
    if c.ruid ≠ 0 then { s with originalUser := originalUser }
    else { s with originalUser := originalUser, pipe := created }

def login (s : State Dir) (user : Dmuser) : State Dir :=
  if s.pipe then { s with server := dtloginProcess env user false true s.server } else s

def dtloginCloseDown (s : State Dir) : State Dir :=
  let server := if s.server.creds.euid ≠ s.originalUser.uid then
    dtloginProcess env s.originalUser true false s.server else s.server
  { s with server := server, pipe := false }

section Lemmas

variable (user : Dmuser) (original loggedIn : Bool) (s : Server Dir)

@[simp] theorem setProject_creds : (setProject env user loggedIn s).1.creds = s.creds := by
  rw [setProject]
  split
  · rfl
  · split
    · split <;> rfl
    · rfl

@[simp] theorem setProject_cwd : (setProject env user loggedIn s).1.cwd = s.cwd := by
  rw [setProject]
  split
  · rfl
  · split
    · split <;> rfl
    · rfl

@[simp] theorem setHome_creds : (setHome env user s).creds = s.creds := by
  rw [setHome]
  split <;> rfl

theorem setUids_creds : (setUids env user original s).creds =
    if user.uid ≠ noId then (s.creds.setreuid user.uid noId).setreuid noId user.uid else s.creds := by
  rw [setUids]
  split <;> rfl

@[simp] theorem setUids_cwd : (setUids env user original s).cwd = s.cwd := by
  rw [setUids]
  split <;> rfl

theorem resetPrivs_euid : (resetPrivs env user s).creds.euid = 0 := by
  rw [resetPrivs]
  by_cases he : s.creds.euid = 0
  · rw [if_neg (not_not.mpr he)]
    exact he
  · rw [if_pos he]
    rfl

theorem resetPrivs_egid : (resetPrivs env user s).creds.egid = s.creds.egid := by
  rw [resetPrivs]
  split <;> rfl

theorem setGids_euid : (setGids user s).creds.euid = s.creds.euid := by
  rw [setGids]
  split <;> rfl

theorem setGids_egid : (setGids user s).creds.egid = if user.gid = noId then s.creds.egid else user.gid := by
  rw [setGids]
  by_cases hg : user.gid = noId
  · rw [if_neg (not_not.mpr hg), if_pos hg]
    rfl
  · rw [if_pos hg, if_neg hg]
    rfl

theorem setUids_egid : (setUids env user original s).creds.egid = s.creds.egid := by
  rw [setUids_creds]
  split <;> rfl

theorem setUids_groups : (setUids env user original s).creds.groups = s.creds.groups := by
  rw [setUids_creds]
  split <;> rfl

theorem process_creds : (dtloginProcess env user original loggedIn s).creds =
    (setUids env user original (setGids user (resetPrivs env user s))).creds := by
  simp only [dtloginProcess, setHome_creds, setUids_creds, setProject_creds]

/-- Who the server is after dtlogin_process. -/
theorem process_euid : (dtloginProcess env user original loggedIn s).creds.euid =
    if user.uid = noId then 0 else user.uid := by
  rw [process_creds, setUids_creds]
  by_cases hu : user.uid = noId
  · rw [if_neg (not_not.mpr hu), if_pos hu, setGids_euid, resetPrivs_euid]
  · rw [if_pos hu, if_neg hu]
    exact if_neg hu

theorem process_egid : (dtloginProcess env user original loggedIn s).creds.egid =
    if user.gid = noId then s.creds.egid else user.gid := by
  rw [process_creds, setUids_egid, setGids_egid, resetPrivs_egid]

theorem process_groups : (dtloginProcess env user original loggedIn s).creds.groups =
    user.groupids.take user.groupidCnt := by
  rw [process_creds, setUids_groups]
  rfl

theorem process_cwd : (dtloginProcess env user original loggedIn s).cwd =
    match user.homedir with
    | none => s.cwd
    | some path => env.chdir s.cwd path := by
  have hcwd : (setProject env user loggedIn (setGids user (resetPrivs env user s))).1.cwd = s.cwd := setProject_cwd ..
  simp only [dtloginProcess, setHome]
  split
  · rw [setUids_cwd, hcwd]
  · rw [setUids_cwd, hcwd]

end Lemmas

end OiUserland.Dtlogin.Identity

namespace OiUserland.Dtlogin.CloseDown

open Packets Identity

variable {Dir : Type} (env : Env Dir) {s t : Server Dir} {created : Bool} {user : Dmuser} {users : List Dmuser}

def served (s : Server Dir) (created : Bool) (users : List Dmuser) : State Dir :=
  dtloginCloseDown env (users.foldl (login env) (dtloginInit env 1 created { server := s }))

structure Restored (s t : Server Dir) : Prop where
  euid : t.creds.euid = s.creds.euid
  egid : t.creds.egid = s.creds.egid
  groups : t.creds.groups = s.creds.groups
  cwd : t.cwd = s.cwd

def lastGid (users : List Dmuser) (gid : Nat) : Nat := ((users.map Dmuser.gid).filter (· ≠ noId)).getLast?.getD gid

def lastDir (users : List Dmuser) (d : Dir) : Dir := (users.filterMap Dmuser.homedir).foldl env.chdir d

/-- The pipe was not opened, or nobody has logged in; or the last login has changed
the uid and there were no groups; or it has not, and the gid, groups and
directories of the logins come to the original ones. -/
def Restores (s : Server Dir) (created : Bool) (users : List Dmuser) : Prop :=
  s.creds.ruid ≠ 0 ∨ created = false ∨
    match users.getLast? with
    | none => True
    | some user =>
        if user.uid = noId ∨ user.uid = 0 then
          lastGid users s.creds.egid = s.creds.egid ∧ user.groupids.take user.groupidCnt = s.creds.groups ∧
            lastDir env users s.cwd = s.cwd
        else s.creds.groups = []

def applied (users : List Dmuser) (s : Server Dir) : Server Dir :=
  users.foldl (fun s user => dtloginProcess env user false true s) s

theorem foldl_login (users : List Dmuser) (st : State Dir) :
    users.foldl (login env) st = if st.pipe then { st with server := applied env users st.server } else st := by
  induction users generalizing st with
  | nil =>
      rw [List.foldl_nil]
      split <;> rfl
  | cons user users ih =>
      rw [List.foldl_cons, ih, login]
      cases hp : st.pipe with
      | true => simp [applied]
      | false => simp [hp]

theorem applied_egid (users : List Dmuser) (s : Server Dir) :
    (applied env users s).creds.egid = lastGid users s.creds.egid := by
  induction users generalizing s with
  | nil => rfl
  | cons user users ih =>
      have hstep := ih (dtloginProcess env user false true s)
      rw [process_egid] at hstep
      refine hstep.trans ?_
      by_cases hg : user.gid = noId
      · simp [lastGid, hg]
      · simp [lastGid, hg, List.getLast?_cons]

theorem applied_cwd (users : List Dmuser) (s : Server Dir) : (applied env users s).cwd = lastDir env users s.cwd := by
  induction users generalizing s with
  | nil => rfl
  | cons user users ih =>
      have hstep := ih (dtloginProcess env user false true s)
      rw [process_cwd] at hstep
      refine hstep.trans ?_
      cases hh : user.homedir with
      | none => simp [lastDir, hh]
      | some path => simp [lastDir, hh]

theorem applied_last (before : List Dmuser) (user : Dmuser) (s : Server Dir) :
    (applied env (before ++ [user]) s).creds.euid = (if user.uid = noId then 0 else user.uid) ∧
      (applied env (before ++ [user]) s).creds.groups = user.groupids.take user.groupidCnt := by
  have hlast : applied env (before ++ [user]) s = dtloginProcess env user false true (applied env before s) := by
    rw [applied, List.foldl_append]
    rfl
  rw [hlast]
  exact ⟨process_euid .., process_groups ..⟩

def recorded (s : Server Dir) : Dmuser :=
  ⟨s.creds.euid, s.creds.egid, some (env.getcwd s.cwd), s.projid, 0, s.creds.groups⟩

def closedDown (s t : Server Dir) : Server Dir :=
  if t.creds.euid ≠ s.creds.euid then dtloginProcess env (recorded env s) true false t else t

theorem dtloginInit_eq (s : Server Dir) (created : Bool) : dtloginInit env 1 created { server := s } =
    { server := s, originalUser := recorded env s, pipe := !decide (s.creds.ruid ≠ 0 ∨ created = false) } := by
  by_cases hr : s.creds.ruid = 0
  · simp [dtloginInit, recorded, hr]
  · simp [dtloginInit, recorded, hr]

theorem served_server (s : Server Dir) (created : Bool) (users : List Dmuser) :
    (served env s created users).server =
      closedDown env s (if s.creds.ruid ≠ 0 ∨ created = false then s else applied env users s) := by
  rw [served, foldl_login, dtloginInit_eq]
  by_cases hclosed : s.creds.ruid ≠ 0 ∨ created = false
  · rw [if_pos hclosed, if_neg (by simp [hclosed])]
    rfl
  · rw [if_neg hclosed, if_pos (by simp [hclosed])]
    rfl

theorem restored_switched (hroot : s.creds.euid = 0) (hgid : s.creds.egid ≠ noId)
    (hcwd : ∀ d d', env.chdir d (env.getcwd d') = d') (ht : t.creds.euid ≠ 0) :
    Restored s (closedDown env s t) ↔ s.creds.groups = [] := by
  rw [closedDown, if_pos (by rwa [hroot])]
  constructor
  · intro h
    have hgroups := h.groups
    rw [process_groups] at hgroups
    exact hgroups.symm
  · intro hgroups
    constructor
    · rw [process_euid, hroot]
      exact (if_neg (show ¬ s.creds.euid = noId by rw [hroot]; decide)).trans hroot
    · rw [process_egid]
      exact if_neg hgid
    · rw [process_groups, hgroups]
      rfl
    · rw [process_cwd]
      exact hcwd t.cwd s.cwd

theorem closedDown_root (hroot : s.creds.euid = 0) (ht : t.creds.euid = 0) : closedDown env s t = t :=
  if_neg (by rw [hroot, ht]; simp)

/-- DtloginCloseDown restores the identity if and only if the logins were such. -/
theorem served_iff (hroot : s.creds.euid = 0) (hgid : s.creds.egid ≠ noId)
    (hcwd : ∀ d d', env.chdir d (env.getcwd d') = d') :
    Restored s (served env s created users).server ↔ Restores env s created users := by
  rw [served_server, Restores, ← or_assoc]
  by_cases hclosed : s.creds.ruid ≠ 0 ∨ created = false
  · rw [if_pos hclosed, closedDown_root env hroot hroot]
    exact iff_of_true ⟨rfl, rfl, rfl, rfl⟩ (.inl hclosed)
  · rw [if_neg hclosed, or_iff_right hclosed]
    rcases List.eq_nil_or_concat users with rfl | ⟨before, user, hlast⟩
    · rw [show applied env [] s = s from rfl, closedDown_root env hroot hroot]
      exact iff_of_true ⟨rfl, rfl, rfl, rfl⟩ trivial
    · rw [List.concat_eq_append] at hlast
      subst hlast
      obtain ⟨heuid, hgroups⟩ := applied_last env before user s
      rw [List.getLast?_concat]
      by_cases hu : user.uid = noId ∨ user.uid = 0
      · have hzero : (applied env (before ++ [user]) s).creds.euid = 0 := by
          rw [heuid]
          rcases hu with hu | hu
          · exact if_pos hu
          · rw [hu]
            exact ite_self 0
        rw [closedDown_root env hroot hzero]
        simp only [if_pos hu]
        rw [← applied_egid env, ← applied_cwd, ← hgroups]
        exact ⟨fun h => ⟨h.egid, h.groups, h.cwd⟩, fun ⟨h₁, h₂, h₃⟩ => ⟨hzero.trans hroot.symm, h₁, h₂, h₃⟩⟩
      · have hne : (applied env (before ++ [user]) s).creds.euid ≠ 0 := by
          rw [heuid, if_neg fun h => hu (.inl h)]
          exact fun h => hu (.inr h)
        simp only [if_neg hu]
        exact restored_switched env hroot hgid hcwd hne

def paths : Env (List Char) where
  chdir := fun _ path => path
  getcwd := id
  getpwuid := fun _ => none
  getdefaultproj := fun _ => none
  authFile := false
  console := false
  registers := true

def rootServer : Server (List Char) := ⟨⟨0, 0, 0, 0, 0, 0, [5]⟩, "/".toList, 0, none, none, false, none⟩

def jack : Dmuser := { noUser with uid := 100, gid := 100 }

theorem served_jack :
    Restored rootServer (served paths rootServer true [jack]).server ↔ Restores paths rootServer true [jack] :=
  served_iff paths rfl (by decide) fun _ _ => rfl

/-- After a login the server is root again, without its group. -/
theorem served_groups : (served paths rootServer true [jack]).server.creds.groups = [] ∧
    rootServer.creds.groups ≠ [] := by decide

end OiUserland.Dtlogin.CloseDown
