import OiUserland.Lib.Bitcounts
import OiUserland.Lib.Faults
import OiUserland.Interactive.Discipline

namespace OiUserland.Interactive.Requests

open Lib.Runs Lib.Faults Lib.Bitcounts Clients Boosts ProcessLists BoostRuns

structure Request where
  words : List Nat
  big : Bool
  received : 1 ≤ words.length
  sized : big = false → words.length < 2 ^ 16
  card32 : ∀ w ∈ words, w < 2 ^ 32

def Request.length (stuff : Request) : Nat := if stuff.big then 0 else stuff.words.length

def word (stuff : Request) (i : Nat) : Run Nat :=
  match stuff.words[i]? with
  | some w => .ok w
  | none => .error .badRead

def wordsBehind (stuff : Request) (i n : Nat) : Run (List Nat) :=
  if i + n ≤ stuff.words.length then .ok ((stuff.words.drop i).take n) else .error .badRead

def pidOf (w : Nat) : Pid := if w < 2 ^ 31 then w else (w : Int) - 2 ^ 32

/-- What a store to NULL or the use of a freed list leaves undefined. -/
def defined (s : Option IAState) : Run IAState :=
  match s with
  | some s => .ok s
  | none => .error .badWrite

structure Server where
  ia : IAState
  ia_nice : Nat

inductive Status
  | Success
  | BadLength
  deriving DecidableEq

def setClientPrivate (client : ClientId) (stuff : Request) (length : Int) (s : IAState) : Run IAState :=
  if length < 0 then
    match s.clients client with
    | none => pure (iaInitClientPrivate client s)
    | some priv => pure (freeProcessList client priv s)
  else do
    let pids ← wordsBehind stuff 3 length.toNat
    defined (Clients.setClientPrivate client (pids.map pidOf) s)

def procIASetProcessInfo (serverUid : Nat) (isLocal : Bool) (client : ClientId) (stuff : Request) (s : Server) :
    Run (Status × Server) :=
  if stuff.words.length < 3 then pure (.BadLength, s)
  else do
    let flags ← word stuff 1
    let uid ← word stuff 2
    let ia ←
      if flags.testBit 0 = true ∧ (uid = serverUid ∨ serverUid = 0 ∨ uid = 0) ∧ isLocal = true then do
        let ia ← setClientPrivate client stuff (stuff.length - 3) s.ia
        defined (changeInteractive client ia)
      else pure s.ia
    if flags.testBit 1 = true ∧ (uid = serverUid ∨ serverUid = 0) ∧ isLocal = true then do
      let value ← word stuff 3
      pure (.Success, ⟨ia, value⟩)
    else pure (.Success, { s with ia := ia })

def detects (interactiveOS : Bool) (client : ClientId) (stuff : Request) (s : IAState) : Run Bool :=
  if interactiveOS = true then do
    let valueMask ← word stuff 2
    if valueMask.testBit 11 = true then
      match s.clients client with
      | none => .error .badRead
      | some priv =>
          if priv.wmgr = true then pure false
          else
            match seek (2 ^ 11) valueMask 3 with
            | none => pure false
            | some pVlist => do
                let mask ← word stuff pVlist
                pure (mask.testBit 20)
    else pure false
  else pure false

def iaProcChangeWindowAttributes (interactiveOS accepts : Bool) (client : ClientId) (stuff : Request)
    (s : IAState) :
    Run (Bool × IAState) := do
  let redirects ← detects interactiveOS client stuff s
  if redirects = true then do
    let s ← defined (Clients.iaProcChangeWindowAttributes client true s)
    pure (accepts, s)
  else pure (accepts, s)

/-- The calls whose requests are not read here, and the two requests. -/
inductive Event
  | call (op : Op)
  | setProcessInfo (serverUid : Nat) (isLocal : Bool) (client : ClientId) (stuff : Request)
  | changeWindowAttributes (interactiveOS accepts : Bool) (client : ClientId) (stuff : Request)

def next : Event → Server → Option Server
  | .call op, s => (step op s.ia).map fun ia => { s with ia := ia }
  | .setProcessInfo serverUid isLocal client stuff, s =>
      (procIASetProcessInfo serverUid isLocal client stuff s).toOption.map Prod.snd
  | .changeWindowAttributes interactiveOS accepts client stuff, s =>
      (iaProcChangeWindowAttributes interactiveOS accepts client stuff s.ia).toOption.map fun r => { s with ia := r.2 }

/-- Requests come from clients that are connected. -/
def Served : Event → Server → Prop
  | .call op, s => Legal op s.ia
  | .setProcessInfo _ _ client _, s => client ≠ serverClient ∧ s.ia.clients client ≠ none
  | .changeWindowAttributes _ _ client _, s => client ≠ serverClient ∧ s.ia.clients client ≠ none

def Started (s : Server) : Prop := Discipline.Init s.ia

structure Sane (s : IAState) : Prop where
  linked : Linked s
  consistent : Consistent s.procs

/-- Every word that is read is one of the request. -/
def SetRight (serverUid : Nat) (isLocal : Bool) (client : ClientId) (stuff : Request) (s : Server) : Prop :=
  ∃ r, procIASetProcessInfo serverUid isLocal client stuff s = .ok r

def SetFits (serverUid : Nat) (isLocal : Bool) (stuff : Request) : Prop :=
  ∀ flags uid, stuff.words[1]? = some flags → stuff.words[2]? = some uid → flags.testBit 1 = true →
    (uid = serverUid ∨ serverUid = 0) → isLocal = true → 4 ≤ stuff.words.length

def wmgrOf (s : IAState) (c : ClientId) : Option Bool := (s.clients c).map ClientPrivate.wmgr

def AttributesRight (interactiveOS accepts : Bool) (client : ClientId) (stuff : Request) (s : IAState) : Prop :=
  ∃ s', iaProcChangeWindowAttributes interactiveOS accepts client stuff s = .ok (accepts, s') ∧
    (accepts = false → wmgrOf s' = wmgrOf s ∧ s'.procs = s.procs)

/-- The request has a mask of values and, where that has the event mask of a client that is no
window manager, a word for it behind those of the lower bits. It is accepted if that
redirects the structure of windows. -/
def AttributesFit (interactiveOS accepts : Bool) (client : ClientId) (stuff : Request) (s : IAState) : Prop :=
  interactiveOS = true → ∃ valueMask, stuff.words[2]? = some valueMask ∧
    (valueMask.testBit 11 = true → wmgrOf s client = some false →
      ∃ mask, stuff.words[3 + count (valueMask % 2 ^ 11)]? = some mask ∧ (mask.testBit 20 = true → accepts = true))

variable {s s' : IAState} {c : ClientId} {priv : ClientPrivate} {stuff : Request}

theorem Sane.priority (hs : Sane s) (c : ClientId) : ∃ s', changePriority c s = some s' ∧ Sane s' ∧
    s'.clients = s.clients := by
  by_cases hsame : Same s c
  · exact ⟨s, changePriority_same hsame, hs, rfl⟩
  · obtain ⟨s', hrun, hch⟩ := changePriority_spec hs.linked hs.consistent hsame
    exact ⟨s', hrun, ⟨hch.linked, hch.consistent⟩, hch.clients⟩

theorem Sane.init (c : ClientId) (hs : Sane s) (hnone : s.clients c = none) : Sane (iaInitClientPrivate c s) := by
  refine ⟨enter_linked hs.linked hnone, ?_⟩
  rw [enter_eq hnone]
  exact hs.consistent

theorem Sane.set (hs : Sane s) (hpriv : s.clients c = some priv) (pids : List Pid) :
    ∃ s₁ s', Clients.setClientPrivate c pids s = some s₁ ∧ changeInteractive c s₁ = some s' ∧ Sane s' := by
  obtain ⟨s', hrun, hr⟩ := setProcess_spec hs.linked hs.consistent hpriv pids
  rw [Option.bind_eq_bind, Option.bind_eq_some_iff] at hrun
  obtain ⟨s₁, hset, hrun⟩ := hrun
  exact ⟨s₁, s', hset, hrun, hr.linked, hr.consistent⟩

theorem Sane.free (hs : Sane s) (hpriv : s.clients c = some priv) :
    changeInteractive c (freeProcessList c priv s) = some (freeProcessList c priv s) ∧
    Sane (freeProcessList c priv s) := by
  obtain ⟨hfreed, -, -⟩ := freeProcessList_spec hs.linked hpriv
  refine ⟨?_, hfreed.linked, hfreed.procs ▸ hs.consistent⟩
  rw [changeInteractive, hfreed.nothing]

theorem Sane.gone (hs : Sane s) (c : ClientId) : ∃ s', clientGone c s = some s' ∧ Sane s' := by
  cases hpriv : s.clients c with
  | none =>
      refine ⟨s, ?_, hs⟩
      rw [clientGone, hpriv]
  | some priv =>
      obtain ⟨s₁, hrun, halike, -, -, -⟩ := unsetGone hs.linked hs.consistent hpriv
      have hpriv₁ : s₁.clients c = some priv := halike.clients ▸ hpriv
      obtain ⟨same, hsame⟩ : ∃ same, sameAsLast (getConnectionPids s₁ c) s₁ = some same :=
        (sameAsLast_total halike.linked c).elim (fun h => ⟨_, h⟩) fun h => ⟨_, h⟩
      rw [connection_self hpriv₁] at hsame
      refine ⟨_, hrun same hsame, ?_⟩
      cases same with
      | false =>
          have hd := drop_spec halike.linked hpriv₁
          exact ⟨hd.linked, hd.procs.symm ▸ halike.consistent⟩
      | true =>
          have hlinked : Linked { s₁ with lastPids := none } :=
            ⟨halike.linked.live, halike.linked.sole, halike.linked.fresh, fun _ h => by cases h⟩
          have hd := drop_spec hlinked hpriv₁
          exact ⟨hd.linked, hd.procs.symm ▸ halike.consistent⟩

theorem Sane.mark (hs : Sane s) (hpriv : s.clients c = some priv) (hw : priv.wmgr = false) :
    ∃ s', Clients.iaProcChangeWindowAttributes c true s = some s' ∧ Sane s' ∧ wmgrOf s' c = some true := by
  have hmarked : Sane (marked s c priv) := ⟨marked_linked hs.linked hpriv, hs.consistent⟩
  obtain ⟨s', hrun, hs', hclients⟩ := hmarked.priority c
  refine ⟨{ s' with lastPids := none }, ?_,
    ⟨⟨hs'.linked.live, hs'.linked.sole, hs'.linked.fresh, nofun⟩, hs'.consistent⟩, ?_⟩
  · unfold marked at hrun
    simp only [Clients.iaProcChangeWindowAttributes, hpriv, Option.bind_eq_bind, Option.bind_some, hw,
      hrun, and_self, if_true]
  · change (s'.clients c).map ClientPrivate.wmgr = some true
    have hself : (marked s c priv).clients c = some { priv with wmgr := true } := Function.update_self ..
    rw [hclients, hself]
    rfl

theorem Sane.step (hs : Sane s) {op : Op} (hlegal : Legal op s) (hrun : step op s = some s') : Sane s' := by
  cases op with
  | connect client clientPid =>
      have hinit := hs.init client hlegal.2
      cases clientPid with
      | none =>
          cases hrun
          exact hinit
      | some clientPid =>
          obtain ⟨s₁, s₂, hset, hchange, hs₂⟩ := hinit.set (enter_self hlegal.2) [clientPid]
          simp only [Clients.step, clientInitial, hset, Option.bind_eq_bind, Option.bind_some, hchange] at hrun
          cases hrun
          exact hs₂
  | disconnect client =>
      obtain ⟨s₁, hgone, hs₁⟩ := hs.gone client
      obtain rfl := Option.some.inj (hgone.symm.trans hrun)
      exact hs₁
  | setProcessInfo client stuff =>
      obtain ⟨priv, hpriv⟩ := Option.ne_none_iff_exists'.mp hlegal.2
      obtain ⟨s₁, s₂, hset, hchange, hs₂⟩ := hs.set hpriv stuff.pids
      by_cases hpermitted : stuff.permitted
      · simp only [Clients.step, Clients.procIASetProcessInfo, if_pos hpermitted, hset,
          Option.bind_eq_bind, Option.bind_some,
          hchange] at hrun
        cases hrun
        exact hs₂
      · simp only [Clients.step, Clients.procIASetProcessInfo, if_neg hpermitted] at hrun
        cases hrun
        exact hs
  | setInputFocus requestee =>
      cases requestee with
      | none =>
          cases hrun
          exact hs
      | some requestee =>
          obtain ⟨s₁, hchange, hs₁, -⟩ := hs.priority requestee
          obtain rfl := Option.some.inj (hchange.symm.trans hrun)
          exact hs₁
  | sendEvent client clientMessage requestee =>
      obtain ⟨priv, hpriv⟩ := Option.ne_none_iff_exists'.mp hlegal.2
      obtain ⟨s₁, hchange, hs₁, -⟩ := hs.priority requestee
      by_cases hmessage : priv.wmgr = true ∧ clientMessage = true
      · simp only [Clients.step, iaProcSendEvent, hpriv, Option.bind_eq_bind, Option.bind_some,
          if_pos hmessage, hchange] at hrun
        cases hrun
        exact hs₁
      · simp only [Clients.step, iaProcSendEvent, hpriv, Option.bind_eq_bind, Option.bind_some,
          if_neg hmessage] at hrun
        cases hrun
        exact hs
  | changeWindowAttributes client redirects =>
      obtain ⟨priv, hpriv⟩ := Option.ne_none_iff_exists'.mp hlegal.2
      by_cases hdetect : priv.wmgr = false ∧ redirects = true
      · obtain ⟨s₁, hmark, hs₁, -⟩ := hs.mark hpriv hdetect.1
        rw [hdetect.2] at hrun
        obtain rfl := Option.some.inj (hmark.symm.trans hrun)
        exact hs₁
      · simp only [Clients.step, Clients.iaProcChangeWindowAttributes, hpriv, Option.bind_eq_bind, Option.bind_some,
          if_neg hdetect] at hrun
        cases hrun
        exact hs

theorem word_eq {i w : Nat} (h : stuff.words[i]? = some w) : word stuff i = .ok w := by rw [word, h]

theorem word_none {i : Nat} (h : stuff.words[i]? = none) : word stuff i = .error .badRead := by rw [word, h]

theorem word_lt {i : Nat} (h : i < stuff.words.length) : word stuff i = .ok stuff.words[i] :=
  word_eq (List.getElem?_eq_getElem h)

theorem Sane.list (hs : Sane s) (hpriv : s.clients c = some priv) (hlen : 3 ≤ stuff.words.length) :
    ∃ s₁ s', setClientPrivate c stuff (stuff.length - 3) s = .ok s₁ ∧ changeInteractive c s₁ = some s' ∧
    Sane s' := by
  by_cases hbig : stuff.big = true
  · obtain ⟨hchange, hfree⟩ := hs.free hpriv
    refine ⟨_, _, ?_, hchange, hfree⟩
    have hneg : (stuff.length : Int) - 3 < 0 := by
      rw [Request.length, if_pos hbig]
      decide
    rw [setClientPrivate, if_pos hneg, hpriv]
    rfl
  · have hlength : stuff.length = stuff.words.length := if_neg hbig
    have hpos : ¬ (stuff.length : Int) - 3 < 0 := by omega
    obtain ⟨s₁, s', hset, hchange, hs'⟩ :=
      hs.set hpriv (((stuff.words.drop 3).take ((stuff.length : Int) - 3).toNat).map pidOf)
    refine ⟨s₁, s', ?_, hchange, hs'⟩
    have hwords : wordsBehind stuff 3 ((stuff.length : Int) - 3).toNat =
        .ok ((stuff.words.drop 3).take ((stuff.length : Int) - 3).toNat) := if_pos (by omega)
    simp only [setClientPrivate, if_neg hpos, hwords, bind, Except.bind, hset, defined]

section Requests

variable {serverUid : Nat} {isLocal interactiveOS accepts : Bool} {server : Server}

theorem procIASetProcessInfo_eq (serverUid : Nat) (isLocal : Bool) (hs : Sane server.ia)
    (hpriv : server.ia.clients c = some priv) {flags uid : Nat}
    (hflags : stuff.words[1]? = some flags) (huid : stuff.words[2]? = some uid) :
    ∃ ia, Sane ia ∧ procIASetProcessInfo serverUid isLocal c stuff server =
      if flags.testBit 1 = true ∧ (uid = serverUid ∨ serverUid = 0) ∧ isLocal = true then
        (word stuff 3 >>= fun value => pure (.Success, ⟨ia, value⟩))
      else pure (.Success, { server with ia := ia }) := by
  have hlen : 3 ≤ stuff.words.length := (List.getElem?_eq_some_iff.mp huid).1
  have hshort : ¬ stuff.words.length < 3 := Nat.not_lt_of_le hlen
  by_cases hinfo : flags.testBit 0 = true ∧ (uid = serverUid ∨ serverUid = 0 ∨ uid = 0) ∧ isLocal = true
  · obtain ⟨s₁, s', hset, hchange, hs'⟩ := hs.list hpriv hlen
    refine ⟨s', hs', ?_⟩
    simp only [procIASetProcessInfo, if_neg hshort, word_eq hflags, word_eq huid, bind, Except.bind,
      if_pos hinfo, hset,
      hchange, defined]
  · refine ⟨server.ia, hs, ?_⟩
    simp only [procIASetProcessInfo, if_neg hshort, word_eq hflags, word_eq huid, bind, Except.bind, if_neg hinfo]
    rfl

theorem setProcessInfo_sane (hs : Sane server.ia) (hpriv : server.ia.clients c = some priv) {r : Status × Server}
    (hrun : procIASetProcessInfo serverUid isLocal c stuff server = .ok r) : Sane r.2.ia := by
  by_cases hlen : stuff.words.length < 3
  · rw [procIASetProcessInfo, if_pos hlen] at hrun
    cases hrun
    exact hs
  · have hflags := List.getElem?_eq_getElem (l := stuff.words) (i := 1) (by omega)
    have huid := List.getElem?_eq_getElem (l := stuff.words) (i := 2) (by omega)
    obtain ⟨ia, hia, heq⟩ := procIASetProcessInfo_eq serverUid isLocal hs hpriv hflags huid
    rw [heq] at hrun
    split at hrun
    · obtain ⟨value, -, hrun⟩ := bind_eq_ok.mp hrun
      cases hrun
      exact hia
    · cases hrun
      exact hia

theorem set_iff (hs : Sane server.ia) (hpriv : server.ia.clients c = some priv) :
    SetRight serverUid isLocal c stuff server ↔ SetFits serverUid isLocal stuff := by
  by_cases hlen : stuff.words.length < 3
  · refine iff_of_true ⟨(.BadLength, server), ?_⟩ fun flags uid _ huid => ?_
    · rw [procIASetProcessInfo, if_pos hlen]
      rfl
    · have hlt := (List.getElem?_eq_some_iff.mp huid).1
      omega
  · have hflags := List.getElem?_eq_getElem (l := stuff.words) (i := 1) (by omega)
    have huid := List.getElem?_eq_getElem (l := stuff.words) (i := 2) (by omega)
    obtain ⟨ia, -, heq⟩ := procIASetProcessInfo_eq serverUid isLocal hs hpriv hflags huid
    unfold SetRight SetFits
    rw [heq]
    constructor
    · rintro ⟨r, hrun⟩ flags uid hflags' huid' hbit howner hlocal
      obtain rfl := Option.some.inj (hflags.symm.trans hflags')
      obtain rfl := Option.some.inj (huid.symm.trans huid')
      rw [if_pos ⟨hbit, howner, hlocal⟩] at hrun
      obtain ⟨value, hvalue, -⟩ := bind_eq_ok.mp hrun
      by_contra hshort
      rw [word_none (List.getElem?_eq_none (by omega))] at hvalue
      cases hvalue
    · intro h
      by_cases hsetting : stuff.words[1].testBit 1 = true ∧
        (stuff.words[2] = serverUid ∨ serverUid = 0) ∧ isLocal = true
      · have hroom := h _ _ hflags huid hsetting.1 hsetting.2.1 hsetting.2.2
        refine ⟨(.Success, ⟨ia, stuff.words[3]⟩), ?_⟩
        rw [if_pos hsetting, word_lt hroom]
        rfl
      · exact ⟨_, if_neg hsetting⟩

theorem changeWindowAttributes_quiet (h : detects interactiveOS c stuff s = .ok false) :
    iaProcChangeWindowAttributes interactiveOS accepts c stuff s = .ok (accepts, s) := by
  simp only [iaProcChangeWindowAttributes, h, bind, Except.bind, Bool.false_eq_true, if_false]
  rfl

theorem changeWindowAttributes_loud (accepts : Bool) (hs : Sane s) (hpriv : s.clients c = some priv)
    (hw : priv.wmgr = false)
    (h : detects interactiveOS c stuff s = .ok true) :
    ∃ s', iaProcChangeWindowAttributes interactiveOS accepts c stuff s = .ok (accepts, s') ∧ Sane s' ∧
      wmgrOf s' c = some true := by
  obtain ⟨s', hmark, hs', hself⟩ := hs.mark hpriv hw
  refine ⟨s', ?_, hs', hself⟩
  simp only [iaProcChangeWindowAttributes, h, bind, Except.bind, if_true, hmark, defined]
  rfl

theorem detects_wmgr (hpriv : s.clients c = some priv)
    (h : detects interactiveOS c stuff s = .ok true) : priv.wmgr = false := by
  by_contra hw
  rw [Bool.not_eq_false] at hw
  unfold detects at h
  split at h
  · obtain ⟨valueMask, -, h⟩ := bind_eq_ok.mp h
    split at h
    · rw [hpriv] at h
      dsimp only at h
      rw [if_pos hw] at h
      cases h
    · cases h
  · cases h

theorem changeWindowAttributes_sane (hs : Sane s) (hpriv : s.clients c = some priv) {r : Bool × IAState}
    (hrun : iaProcChangeWindowAttributes interactiveOS accepts c stuff s = .ok r) : Sane r.2 := by
  obtain ⟨redirects, hdetects, -⟩ := bind_eq_ok.mp hrun
  cases redirects with
  | false =>
      rw [changeWindowAttributes_quiet hdetects] at hrun
      cases hrun
      exact hs
  | true =>
      obtain ⟨s', hrun', hs', -⟩ := changeWindowAttributes_loud accepts hs hpriv
        (detects_wmgr hpriv hdetects) hdetects
      rw [hrun'] at hrun
      cases hrun
      exact hs'

theorem attributesRight_quiet (h : detects interactiveOS c stuff s = .ok false) :
    AttributesRight interactiveOS accepts c stuff s :=
  ⟨s, changeWindowAttributes_quiet h, fun _ => ⟨rfl, rfl⟩⟩

theorem not_attributesRight_unread {e : Fault} (h : detects interactiveOS c stuff s = .error e) :
    ¬ AttributesRight interactiveOS accepts c stuff s := by
  rintro ⟨s', hrun, -⟩
  obtain ⟨redirects, hdetects, -⟩ := bind_eq_ok.mp hrun
  rw [h] at hdetects
  cases hdetects

theorem attributesRight_loud (hs : Sane s) (hpriv : s.clients c = some priv)
    (h : detects interactiveOS c stuff s = .ok true) : AttributesRight interactiveOS accepts c stuff s ↔
    accepts = true := by
  have hw := detects_wmgr hpriv h
  obtain ⟨s', hrun, -, hself⟩ := changeWindowAttributes_loud accepts hs hpriv hw h
  constructor
  · rintro ⟨s₁, hrun₁, hkept⟩
    rw [hrun] at hrun₁
    cases hrun₁
    by_contra hrejected
    have hbefore : wmgrOf s' c = some priv.wmgr := by
      rw [(hkept (Bool.eq_false_iff.mpr hrejected)).1, wmgrOf, hpriv, Option.map_some]
    rw [hself, hw] at hbefore
    cases hbefore
  · intro haccepts
    exact ⟨s', hrun, fun hrejected => absurd (haccepts.symm.trans hrejected) nofun⟩

theorem attributes_iff (hs : Sane s) (hpriv : s.clients c = some priv) :
    AttributesRight interactiveOS accepts c stuff s ↔ AttributesFit interactiveOS accepts c stuff s := by
  have hwmgr : wmgrOf s c = some priv.wmgr := by rw [wmgrOf, hpriv, Option.map_some]
  by_cases hos : interactiveOS = true
  swap
  · exact iff_of_true (attributesRight_quiet (if_neg hos)) fun h => absurd h hos
  cases hmask : stuff.words[2]? with
  | none =>
      refine iff_of_false (not_attributesRight_unread (e := .badRead) ?_) fun h => ?_
      · rw [detects, if_pos hos, word_none hmask]
        rfl
      · obtain ⟨valueMask, hvalue, -⟩ := h hos
        rw [hmask] at hvalue
        cases hvalue
  | some valueMask =>
      have hfit : AttributesFit interactiveOS accepts c stuff s ↔ (valueMask.testBit 11 = true → priv.wmgr = false →
          ∃ mask, stuff.words[3 + count (valueMask % 2 ^ 11)]? = some mask ∧
            (mask.testBit 20 = true → accepts = true)) := by
        rw [AttributesFit, forall_prop_of_true hos, hmask, hwmgr]
        simp only [Option.some.injEq, exists_eq_left']
      have hread : detects interactiveOS c stuff s = (if valueMask.testBit 11 = true then
          if priv.wmgr = true then pure false
          else
            match seek (2 ^ 11) valueMask 3 with
            | none => pure false
            | some pVlist => word stuff pVlist >>= fun mask => pure (mask.testBit 20)
          else pure false) := by
        rw [detects, if_pos hos, word_eq hmask, hpriv]
        rfl
      rw [hfit]
      by_cases hbit : valueMask.testBit 11 = true
      swap
      · rw [if_neg hbit] at hread
        exact iff_of_true (attributesRight_quiet hread) fun h => absurd h hbit
      rw [if_pos hbit] at hread
      by_cases hw : priv.wmgr = true
      · rw [if_pos hw] at hread
        exact iff_of_true (attributesRight_quiet hread) fun _ h => absurd (hw.symm.trans h) nofun
      rw [if_neg hw, seek_two_pow hbit] at hread
      dsimp only at hread
      rw [forall_prop_of_true hbit, forall_prop_of_true (Bool.eq_false_iff.mpr hw)]
      cases hplace : stuff.words[3 + count (valueMask % 2 ^ 11)]? with
      | none =>
          rw [word_none hplace] at hread
          exact iff_of_false (not_attributesRight_unread hread) (by simp)
      | some mask =>
          rw [word_eq hplace] at hread
          simp only [Option.some.injEq, exists_eq_left']
          cases hredirects : mask.testBit 20 with
          | false =>
              refine iff_of_true (attributesRight_quiet (hread.trans ?_)) nofun
              exact congrArg Except.ok hredirects
          | true =>
              rw [forall_prop_of_true rfl]
              exact attributesRight_loud hs hpriv (hread.trans (congrArg Except.ok hredirects))

end Requests

theorem served_sane {s : Server} (h : Reachable next Served Started s) : Sane s.ia := by
  refine h.invariant (fun s => Sane s.ia) ?_ ?_
  · rintro s ⟨serverPid, procs, hprocs, hrun⟩
    obtain ⟨s₁, hrun₁, hinv⟩ := Discipline.start_inv hprocs
    obtain rfl := Option.some.inj (hrun₁.symm.trans hrun)
    exact ⟨hinv.linked, hinv.consistent⟩
  · intro event s s' hs hserved hnext
    cases event with
    | call op =>
        obtain ⟨ia, hstep, rfl⟩ := Option.map_eq_some_iff.mp hnext
        exact hs.step hserved hstep
    | setProcessInfo serverUid isLocal client stuff =>
        obtain ⟨priv, hpriv⟩ := Option.ne_none_iff_exists'.mp hserved.2
        rw [next] at hnext
        cases hrun : procIASetProcessInfo serverUid isLocal client stuff s with
        | error e =>
            rw [hrun] at hnext
            cases hnext
        | ok r =>
            rw [hrun] at hnext
            cases hnext
            exact setProcessInfo_sane hs hpriv hrun
    | changeWindowAttributes interactiveOS accepts client stuff =>
        obtain ⟨priv, hpriv⟩ := Option.ne_none_iff_exists'.mp hserved.2
        rw [next] at hnext
        cases hrun : iaProcChangeWindowAttributes interactiveOS accepts client stuff s.ia with
        | error e =>
            rw [hrun] at hnext
            cases hnext
        | ok r =>
            rw [hrun] at hnext
            cases hnext
            exact changeWindowAttributes_sane hs hpriv hrun

/-- The requests of a connected client are read where they have words, and one that is rejected
has no effect, exactly when the priority that is set is there, the event mask is there, and
one that redirects the structure of windows is accepted. -/
theorem requests_right_iff {s : Server} (h : Reachable next Served Started s) {client : ClientId}
    (hclient : s.ia.clients client ≠ none) (serverUid : Nat) (isLocal interactiveOS accepts : Bool)
    (stuff : Request) :
    (SetRight serverUid isLocal client stuff s ↔ SetFits serverUid isLocal stuff) ∧
      (AttributesRight interactiveOS accepts client stuff s.ia ↔
      AttributesFit interactiveOS accepts client stuff s.ia) := by
  obtain ⟨priv, hpriv⟩ := Option.ne_none_iff_exists'.mp hclient
  exact ⟨set_iff (served_sane h) hpriv, attributes_iff (served_sane h) hpriv⟩

def started : Server := ⟨(iaInitTimerCall 1 (Discipline.unconnected fun _ => ⟨false, false⟩)).get rfl, 0⟩

def connected : Server := (next (.call (.connect 1 (some 7))) started).get rfl

theorem connected_reached : Reachable next Served Started connected :=
  .next (s := started) (.call (.connect 1 (some 7))) (.start ⟨1, fun _ => ⟨false, false⟩, nofun, rfl⟩)
    ⟨by decide, rfl⟩ rfl

def unfinished : Request := ⟨[0, 2, 0], false, by decide, by decide, by decide⟩

theorem requests_right_connected :
    (SetRight 0 true 1 unfinished connected ↔ SetFits 0 true unfinished) ∧
      (AttributesRight true false 1 unfinished connected.ia ↔ AttributesFit true false 1 unfinished connected.ia) :=
  requests_right_iff connected_reached (by exact Option.some_ne_none _) 0 true true false unfinished

/-- The priority is read behind the end of the request. -/
theorem requests_unread :
    ¬ ∀ s, Reachable next Served Started s → ∀ client, s.ia.clients client ≠ none →
      ∀ serverUid isLocal interactiveOS accepts stuff, SetRight serverUid isLocal client stuff s ∧
        AttributesRight interactiveOS accepts client stuff s.ia := by
  intro h
  obtain ⟨r, hrun⟩ := (h connected connected_reached 1
    (by exact Option.some_ne_none _) 0 true false true unfinished).1
  cases hrun

end OiUserland.Interactive.Requests
