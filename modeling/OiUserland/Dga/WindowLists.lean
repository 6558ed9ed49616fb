import OiUserland.Lib.ChainEdits
import OiUserland.Lib.Runs

namespace OiUserland.Dga.WindowLists

open Lib.Chains Lib.DoubleLinks Lib.Runs

abbrev Token := Nat

structure Window where
  w_token : Token
  w_next : Nat

structure Winlist where
  w_token : Token
  dga_clientplist_draw : Nat
  dga_clientplist : Nat

structure State where
  heap : Heap Window
  dga_wlist : List Winlist

def Winlist.clients (drawable : Bool) (winp : Winlist) : Nat :=
  if drawable then winp.dga_clientplist_draw else winp.dga_clientplist

def Winlist.setClients (drawable : Bool) (a : Nat) (winp : Winlist) : Winlist :=
  if drawable then { winp with dga_clientplist_draw := a } else { winp with dga_clientplist := a }

def lookupToken (token : Token) (ws : List Winlist) : Option Winlist := ws.find? fun winp => winp.w_token = token

def changeToken (token : Token) (f : Winlist → Winlist) : List Winlist → List Winlist
  | [] => []
  | winp :: ws => if winp.w_token = token then f winp :: ws else winp :: changeToken token f ws

inductive Failure
  | openInfo
  | mapInfo
  | infoSize
  | openDevice
  | mapLock
  | mapUnlock
  | winlock
  | openCursor
  | mapCursor
  | cursorMagic
  | mallocBuffer
  | mallocNode
  deriving DecidableEq

def Failure.frees : Failure → Bool
  | .mallocBuffer | .mallocNode => false
  | _ => true

/-- What a grab meets: the address of the memory for the client, the step that fails, whether
there is a display, and whether the multibuffer set is initialized. -/
structure Surroundings where
  malloc : Nat
  failure : Option Failure
  dpy : Bool
  mbufset : Bool

def unlinkClient (drawable : Bool) (client : Window) (prevclntp : Nat) (s : State) : Option State :=
  if prevclntp = 0 then
    some { s with dga_wlist := changeToken client.w_token (Winlist.setClients drawable client.w_next) s.dga_wlist }
  else
    (s.heap.lookup prevclntp).map fun before =>
      { s with heap := s.heap.insert prevclntp { before with w_next := client.w_next } }

def releaseNode (clientp : Nat) (token : Token) (s : State) : State :=
  match lookupToken token s.dga_wlist with
  | none => s
  | some winp =>
      if winp.dga_clientplist_draw = 0 ∧ winp.dga_clientplist = 0 then
        ⟨s.heap.erase clientp, s.dga_wlist.eraseP fun winp => winp.w_token = token⟩
      else s

def dgai_win_ungrab_common (clientp : Nat) (drawableGrabber : Bool) (s : State) : Option State := do
  let client ← s.heap.lookup clientp
  match lookupToken client.w_token s.dga_wlist with
  | none => some s
  | some winp =>
      match ← searchLink (linkOf Window.w_next s.heap) clientp (s.heap.keys.length + 1) 0
        (winp.clients drawableGrabber) with
      | some prevclntp => do
          let s ← unlinkClient drawableGrabber client prevclntp s
          some (releaseNode clientp client.w_token s)
      | none =>
          -- old style clients, which are unlinked from the list of the interface that is given
          match ← searchLink (linkOf Window.w_next s.heap) clientp (s.heap.keys.length + 1) 0 (winp.clients false) with
          | some prevclntp => do
              let s ← unlinkClient drawableGrabber client prevclntp s
              some (releaseNode clientp client.w_token s)
          | none => some s

def initMbufset (env : Surroundings) (drawableGrabber : Bool) (clientp : Nat) (s : State) : Option State :=
  if env.dpy = true ∧ drawableGrabber = true ∧ env.mbufset = false then dgai_win_ungrab_common clientp false s
  else some s

def attachClient (clientp : Nat) (client : Window) (drawableGrabber : Bool) (s : State) : State :=
  ⟨s.heap.insert clientp client,
    changeToken client.w_token (Winlist.setClients drawableGrabber clientp) s.dga_wlist⟩

def grabAgain (env : Surroundings) (wlist : Winlist) (drawableGrabber : Bool) (s : State) : Option (Nat × State) :=
  let own := wlist.clients drawableGrabber
  if own ≠ 0 then do
    let orig_clientp ← s.heap.lookup own
    some (env.malloc, attachClient env.malloc { orig_clientp with w_next := own } drawableGrabber s)
  else do
    let orig_clientp ← s.heap.lookup (wlist.clients !drawableGrabber)
    if drawableGrabber = true ∧ env.failure = some .infoSize then some (0, s)
    else do
      let s ← initMbufset env drawableGrabber env.malloc { s with heap := s.heap.insert env.malloc orig_clientp }
      let new_clientp ← s.heap.lookup env.malloc
      some (env.malloc, attachClient env.malloc { new_clientp with w_next := 0 } drawableGrabber s)

def newWinlist (token : Token) (drawableGrabber : Bool) (clientp : Nat) : Winlist :=
  if drawableGrabber then ⟨token, clientp, 0⟩ else ⟨token, 0, clientp⟩

def grabFirst (env : Surroundings) (token : Token) (drawableGrabber : Bool) (s : State) : Option (Nat × State) :=
  match env.failure with
  | some failure =>
      some (0, if failure.frees then s else { s with heap := s.heap.insert env.malloc ⟨token, 0⟩ })
  | none => do
      let s ← initMbufset env drawableGrabber env.malloc
        ⟨s.heap.insert env.malloc ⟨token, 0⟩, newWinlist token drawableGrabber env.malloc :: s.dga_wlist⟩
      some (env.malloc, s)

def dgai_win_grab_common (env : Surroundings) (token : Token) (drawableGrabber : Bool) (s : State) :
    Option (Nat × State) :=
  if env.malloc = 0 then some (0, s)
  else
    match lookupToken token s.dga_wlist with
    | some wlist => grabAgain env wlist drawableGrabber s
    | none => grabFirst env token drawableGrabber s

inductive Call
  | grab (env : Surroundings) (token : Token) (drawableGrabber : Bool)
  | ungrab (clientp : Nat) (drawableGrabber : Bool)

abbrev Held := Nat → Option (Token × Bool)

structure Session where
  state : State
  held : Held

def step : Call → Session → Option Session
  | .grab env token drawableGrabber, s =>
      (dgai_win_grab_common env token drawableGrabber s.state).map fun r =>
        ⟨r.2, if r.1 = 0 then s.held else Function.update s.held r.1 (some (token, drawableGrabber))⟩
  | .ungrab clientp drawableGrabber, s =>
      (dgai_win_ungrab_common clientp drawableGrabber s.state).map fun state =>
        ⟨state, Function.update s.held clientp none⟩

def Init (s : Session) : Prop := s.state = ⟨∅, []⟩ ∧ s.held = fun _ => none

/-- Memory that is allocated has not been in use, and what is ungrabbed is a client. -/
def Legal : Call → Session → Prop
  | .grab env _ _, s => env.malloc ≠ 0 → env.malloc ∉ s.state.heap
  | .ungrab clientp _, s => clientp ∈ s.state.heap

/-- A client is ungrabbed through its interface, or as an old one that is not the first of its
list through the drawable one. -/
def Fits : Call → Session → Prop
  | .grab _ _ _, _ => True
  | .ungrab clientp drawableGrabber, s =>
      ∀ token interface, s.held clientp = some (token, interface) →
        drawableGrabber = interface ∨ drawableGrabber = true ∧
          ∀ winp ∈ s.state.dga_wlist, winp.dga_clientplist ≠ clientp

def headOf (ws : List Winlist) (i : Token × Bool) : Nat := ((lookupToken i.1 ws).map (Winlist.clients i.2)).getD 0

/-- There is one node for each window with a client. The lists of the nodes hold the clients of
the window and of the interface, each once and in no other list. -/
structure Right (s : State) (held : Held) : Prop where
  single : (s.dga_wlist.map Winlist.w_token).Nodup
  nodes : ∀ token, token ∈ s.dga_wlist.map Winlist.w_token ↔
    ∃ clientp interface, held clientp = some (token, interface)
  lists : ∃ lists, IsChains (linkOf Window.w_next s.heap) (headOf s.dga_wlist) lists ∧
    ∀ i clientp, clientp ∈ lists i ↔ held clientp = some i
  tokens : ∀ clientp i, held clientp = some i → ∃ v, s.heap.lookup clientp = some v ∧ v.w_token = i.1

variable {s s' : State} {held : Held} {ws : List Winlist} {winp : Winlist} {token : Token} {a c : Nat} {d : Bool}

theorem clients_setClients (d : Bool) (a : Nat) (winp : Winlist) (e : Bool) :
    (winp.setClients d a).clients e = if e = d then a else winp.clients e := by
  cases d <;> cases e <;> rfl

theorem setClients_token (d : Bool) (a : Nat) (winp : Winlist) : (winp.setClients d a).w_token = winp.w_token := by
  cases d <;> rfl

theorem clients_newWinlist (token : Token) (d : Bool) (a : Nat) (e : Bool) :
    (newWinlist token d a).clients e = if e = d then a else 0 := by
  cases d <;> cases e <;> rfl

theorem newWinlist_token (token : Token) (d : Bool) (a : Nat) : (newWinlist token d a).w_token = token := by
  cases d <;> rfl

theorem lookupToken_none : lookupToken token ws = none ↔ token ∉ ws.map Winlist.w_token := by
  simp [lookupToken]

theorem headOf_none (h : token ∉ ws.map Winlist.w_token) (d : Bool) : headOf ws (token, d) = 0 := by
  rw [headOf, lookupToken_none.mpr h]
  rfl

theorem headOf_some (h : lookupToken token ws = some winp) (d : Bool) : headOf ws (token, d) = winp.clients d := by
  rw [headOf, h]
  rfl

theorem headOf_cons (i : Token × Bool) :
    headOf (winp :: ws) i = if winp.w_token = i.1 then winp.clients i.2 else headOf ws i := by
  rw [headOf, lookupToken, List.find?_cons]
  by_cases h : winp.w_token = i.1
  · simp [h]
  · simp [h, headOf, lookupToken]

theorem changeToken_tokens (token : Token) (ws : List Winlist) {f : Winlist → Winlist}
    (hf : ∀ winp, (f winp).w_token = winp.w_token) :
    (changeToken token f ws).map Winlist.w_token = ws.map Winlist.w_token := by
  induction ws with
  | nil => rfl
  | cons winp ws ih =>
      rw [changeToken]
      split
      · rw [List.map_cons, hf, List.map_cons]
      · rw [List.map_cons, ih, List.map_cons]

theorem headOf_changeToken (h : token ∈ ws.map Winlist.w_token) (d : Bool) (a : Nat) :
    headOf (changeToken token (Winlist.setClients d a) ws) = Function.update (headOf ws) (token, d) a := by
  induction ws with
  | nil => cases h
  | cons winp ws ih =>
      funext i
      by_cases ht : winp.w_token = token
      · rw [changeToken, if_pos ht, headOf_cons, setClients_token, clients_setClients,
          Function.update_apply, headOf_cons, ht]
        obtain ⟨t, e⟩ := i
        by_cases htt : token = t
        · subst htt
          by_cases he : e = d
          · simp [he]
          · simp [he]
        · have htt' : ¬ t = token := fun h => htt h.symm
          simp [htt, htt']
      · have hmem := (List.mem_cons.mp h).resolve_left fun h => ht h.symm
        rw [changeToken, if_neg ht, headOf_cons, ih hmem, Function.update_apply, Function.update_apply, headOf_cons]
        by_cases hi : i = (token, d)
        · rw [if_pos hi, if_pos hi, hi, if_neg ht]
        · rw [if_neg hi, if_neg hi]

theorem headOf_eraseP (hnodup : (ws.map Winlist.w_token).Nodup) (hempty : ∀ d, headOf ws (token, d) = 0) :
    headOf (ws.eraseP fun winp => winp.w_token = token) = headOf ws := by
  induction ws with
  | nil => rfl
  | cons winp ws ih =>
      obtain ⟨hout, hnodup⟩ := List.nodup_cons.mp hnodup
      funext i
      by_cases ht : winp.w_token = token
      · rw [List.eraseP_cons_of_pos (by simpa using ht), headOf_cons]
        by_cases hi : winp.w_token = i.1
        · have hhead := hempty i.2
          rw [headOf_cons, if_pos ht] at hhead
          rw [if_pos hi, hhead]
          exact headOf_none (hi ▸ hout) i.2
        · rw [if_neg hi]
      · have hhead (d : Bool) : headOf ws (token, d) = 0 := by
          have hhead := hempty d
          rwa [headOf_cons, if_neg ht] at hhead
        rw [List.eraseP_cons_of_neg (by simpa using ht), headOf_cons, headOf_cons, ih hnodup hhead]

theorem tokens_eraseP (hnodup : (ws.map Winlist.w_token).Nodup) (t : Token) :
    t ∈ (ws.eraseP fun winp => winp.w_token = token).map Winlist.w_token ↔ t ∈ ws.map Winlist.w_token ∧
    t ≠ token := by
  induction ws with
  | nil => simp
  | cons winp ws ih =>
      obtain ⟨hout, hnodup⟩ := List.nodup_cons.mp hnodup
      by_cases ht : winp.w_token = token
      · rw [List.eraseP_cons_of_pos (by simpa using ht), List.map_cons, List.mem_cons, ht]
        rw [ht] at hout
        constructor
        · intro h
          exact ⟨.inr h, fun heq => hout (heq ▸ h)⟩
        · rintro ⟨h | h, hne⟩
          · exact absurd h hne
          · exact h
      · rw [List.eraseP_cons_of_neg (by simpa using ht), List.map_cons, List.map_cons, List.mem_cons, List.mem_cons,
          ih hnodup]
        constructor
        · rintro (rfl | ⟨h, hne⟩)
          · exact ⟨.inl rfl, ht⟩
          · exact ⟨.inr h, hne⟩
        · rintro ⟨h | h, hne⟩
          · exact .inl h
          · exact .inr ⟨h, hne⟩

theorem Right.fresh (h : Right s held) (ha : a ∉ s.heap) : held a = none := by
  by_contra hne
  obtain ⟨i, hi⟩ := Option.ne_none_iff_exists'.mp hne
  obtain ⟨v, hv, -⟩ := h.tokens a i hi
  exact ha (AList.lookup_isSome.mp (by rw [hv]; rfl))

theorem Right.congr (h : Right s held) (hlist : s'.dga_wlist = s.dga_wlist)
    (hheap : ∀ c i, held c = some i → s'.heap.lookup c = s.heap.lookup c) : Right s' held := by
  obtain ⟨lists, hchains, hmem⟩ := h.lists
  refine ⟨hlist ▸ h.single, fun t => hlist ▸ h.nodes t, ⟨lists, ?_, hmem⟩, fun c i hc => ?_⟩
  · rw [hlist]
    refine hchains.congr fun i c hc => ?_
    rw [linkOf, linkOf, hheap c i ((hmem i c).mp hc)]
  · rw [hheap c i hc]
    exact h.tokens c i hc

theorem Right.grabbed (h : Right s held) (ha : a ≠ 0) (hout : a ∉ s.heap) {v : Window}
    (hv : s'.heap.lookup a = some v)
    (hnext : v.w_next = headOf s.dga_wlist (token, d)) (htoken : v.w_token = token)
    (hothers : ∀ c, c ≠ a → s'.heap.lookup c = s.heap.lookup c)
    (hhead : headOf s'.dga_wlist = Function.update (headOf s.dga_wlist) (token, d) a)
    (hsingle : (s'.dga_wlist.map Winlist.w_token).Nodup)
    (hnodes : ∀ t, t ∈ s'.dga_wlist.map Winlist.w_token ↔ t = token ∨ t ∈ s.dga_wlist.map Winlist.w_token) :
    Right s' (Function.update held a (some (token, d))) := by
  obtain ⟨lists, hchains, hmem⟩ := h.lists
  have hnone := h.fresh hout
  have hne {c : Nat} {i : Token × Bool} (hc : held c = some i) : c ≠ a := by
    rintro rfl
    rw [hnone] at hc
    cases hc
  refine ⟨hsingle, fun t => ?_, ⟨Function.update lists (token, d) (a :: lists (token, d)), ?_,
    fun i c => ?_⟩, fun c i hc => ?_⟩
  · rw [hnodes, h.nodes]
    constructor
    · rintro (rfl | ⟨c, e, hc⟩)
      · exact ⟨a, d, Function.update_self ..⟩
      · exact ⟨c, e, (Function.update_of_ne (hne hc) ..).trans hc⟩
    · rintro ⟨c, e, hc⟩
      by_cases hca : c = a
      · rw [hca, Function.update_self] at hc
        cases hc
        exact .inl rfl
      · rw [Function.update_of_ne hca] at hc
        exact .inr ⟨c, e, hc⟩
  · rw [hhead]
    refine hchains.pushed ha (fun j hj => hne ((hmem j a).mp hj) rfl) ?_ fun c hc => ?_
    · rw [linkOf_of_lookup hv, hnext]
    · rw [linkOf, linkOf, hothers c hc]
  · by_cases hca : c = a
    · subst hca
      rw [Function.update_self, Option.some.injEq, Function.update_apply]
      by_cases hi : i = (token, d)
      · rw [if_pos hi]
        exact iff_of_true (List.mem_cons_self ..) hi.symm
      · rw [if_neg hi, hmem, hnone]
        exact iff_of_false (fun h => by cases h) (Ne.symm hi)
    · rw [Function.update_of_ne hca, ← hmem, Function.update_apply]
      by_cases hi : i = (token, d)
      · rw [if_pos hi, hi, List.mem_cons, or_iff_right hca]
      · rw [if_neg hi]
  · by_cases hca : c = a
    · subst hca
      rw [Function.update_self] at hc
      cases hc
      exact ⟨v, hv, htoken⟩
    · rw [Function.update_of_ne hca] at hc
      rw [hothers c hca]
      exact h.tokens c i hc

theorem ungrab_absent {v : Window} {l : List Nat} (hv : s.heap.lookup a = some v)
    (hwinp : lookupToken v.w_token s.dga_wlist = some winp) {f : Bool}
    (hl : IsChain (linkOf Window.w_next s.heap) (winp.clients f) l) (ha : a ∉ l)
    {m : List Nat} (hm : IsChain (linkOf Window.w_next s.heap) (winp.clients false) m) (ha' : a ∉ m) :
    dgai_win_ungrab_common a f s = some s := by
  have hfirst := hl.searchLink_notMem ha (Nat.le_succ_of_le hl.length_le) 0
  have hsecond := hm.searchLink_notMem ha' (Nat.le_succ_of_le hm.length_le) 0
  simp only [dgai_win_ungrab_common, hv, hwinp, hfirst, hsecond, Option.bind_eq_bind, Option.bind_some]

theorem initMbufset_absent (env : Surroundings) {v : Window} (hv : s.heap.lookup a = some v)
    (hwinp : lookupToken v.w_token s.dga_wlist = some winp)
    (hl : d = true → ∃ l, IsChain (linkOf Window.w_next s.heap) (winp.clients false) l ∧ a ∉ l) :
    initMbufset env d a s = some s := by
  rw [initMbufset]
  split
  · rename_i hset
    obtain ⟨l, hl, ha⟩ := hl hset.2.1
    exact ungrab_absent hv hwinp hl ha hl ha
  · rfl

theorem Right.attached (h : Right s held) (client : Window) (ha : a ≠ 0) (hout : a ∉ s.heap) {heap : Heap Window}
    (hheap : ∀ c, c ≠ a → heap.lookup c = s.heap.lookup c)
    (hnext : client.w_next = headOf s.dga_wlist (client.w_token, d))
    (hin : client.w_token ∈ s.dga_wlist.map Winlist.w_token) :
    Right (attachClient a client d { s with heap := heap })
    (Function.update held a (some (client.w_token, d))) := by
  have htokens := changeToken_tokens client.w_token s.dga_wlist (setClients_token d a)
  refine h.grabbed ha hout (AList.lookup_insert _) hnext rfl (fun c hc => ?_)
    (headOf_changeToken hin d a) ?_ fun t => ?_
  · exact (AList.lookup_insert_ne hc).trans (hheap c hc)
  · rw [attachClient, htokens]
    exact h.single
  · rw [attachClient, htokens]
    refine (or_iff_right_of_imp ?_).symm
    rintro rfl
    exact hin

theorem Right.head (h : Right s held) {i : Token × Bool} (hi : headOf s.dga_wlist i ≠ 0) :
    ∃ v, s.heap.lookup (headOf s.dga_wlist i) = some v ∧ v.w_token = i.1 := by
  obtain ⟨lists, hchains, hmem⟩ := h.lists
  obtain ⟨b, r, -, -, hlist⟩ := (hchains.chain i).head_mem hi
  refine h.tokens _ i ((hmem i _).mp ?_)
  rw [hlist]
  exact List.mem_cons_self ..

theorem Right.headOf_ne_zero (h : Right s held) {i : Token × Bool} (hc : held c = some i) :
    headOf s.dga_wlist i ≠ 0 := by
  obtain ⟨lists, hchains, hmem⟩ := h.lists
  intro hzero
  have hchain := hchains.chain i
  rw [hzero] at hchain
  have hc' := (hmem i c).mpr hc
  rw [hchain.zero] at hc'
  cases hc'

theorem Right.ne_of_held (h : Right s held) (ha : a ∉ s.heap) {i : Token × Bool}
    (hc : held c = some i) : c ≠ a := by
  rintro rfl
  rw [h.fresh ha] at hc
  cases hc

theorem grabFirst_right (h : Right s held) (env : Surroundings) (hzero : env.malloc ≠ 0)
    (hmalloc : env.malloc ∉ s.heap)
    (hout : token ∉ s.dga_wlist.map Winlist.w_token) (d : Bool) :
    ∃ r, grabFirst env token d s = some r ∧
      Right r.2 (if r.1 = 0 then held else Function.update held r.1 (some (token, d))) := by
  cases hfailure : env.failure with
  | some failure =>
      refine ⟨(0, if failure.frees then s else { s with heap := s.heap.insert env.malloc ⟨token, 0⟩ }), ?_, ?_⟩
      · rw [grabFirst, hfailure]
      · rw [if_pos rfl]
        dsimp only
        split
        · exact h
        · exact h.congr rfl fun c i hc => AList.lookup_insert_ne (h.ne_of_held hmalloc hc)
  | none =>
      have hlookup : lookupToken token (newWinlist token d env.malloc :: s.dga_wlist) = some
        (newWinlist token d env.malloc) :=
        List.find?_cons_of_pos (by simp [newWinlist_token])
      have hinit : initMbufset env d env.malloc
          ⟨s.heap.insert env.malloc ⟨token, 0⟩, newWinlist token d env.malloc :: s.dga_wlist⟩ =
            some ⟨s.heap.insert env.malloc ⟨token, 0⟩, newWinlist token d env.malloc :: s.dga_wlist⟩ := by
        refine initMbufset_absent env (AList.lookup_insert _) hlookup fun hd => ⟨[], ?_, List.not_mem_nil⟩
        rw [clients_newWinlist, hd]
        exact .nil
      refine ⟨(env.malloc, ⟨s.heap.insert env.malloc ⟨token, 0⟩,
        newWinlist token d env.malloc :: s.dga_wlist⟩), ?_, ?_⟩
      · simp only [grabFirst, hfailure, hinit, Option.bind_eq_bind, Option.bind_some]
      · rw [if_neg hzero]
        refine h.grabbed hzero hmalloc (AList.lookup_insert _) (headOf_none hout d).symm rfl
          (fun c hc => AList.lookup_insert_ne hc) ?_ ?_ fun t => ?_
        · funext i
          obtain ⟨t, e⟩ := i
          rw [headOf_cons, newWinlist_token, clients_newWinlist, Function.update_apply]
          dsimp only
          by_cases ht : token = t
          · subst ht
            rw [if_pos rfl, headOf_none hout]
            simp only [Prod.mk.injEq, true_and]
          · rw [if_neg ht, if_neg fun h => ht (congrArg Prod.fst h).symm]
        · rw [List.map_cons, newWinlist_token]
          exact List.nodup_cons.mpr ⟨hout, h.single⟩
        · rw [List.map_cons, newWinlist_token, List.mem_cons]

theorem grabAgain_right (h : Right s held) (env : Surroundings) (hzero : env.malloc ≠ 0)
    (hmalloc : env.malloc ∉ s.heap)
    (hlookup : lookupToken token s.dga_wlist = some winp) (d : Bool) :
    ∃ r, grabAgain env winp d s = some r ∧
      Right r.2 (if r.1 = 0 then held else Function.update held r.1 (some (token, d))) := by
  have hin : token ∈ s.dga_wlist.map Winlist.w_token := by
    by_contra hout
    rw [lookupToken_none.mpr hout] at hlookup
    cases hlookup
  have hhead (e : Bool) := headOf_some hlookup e
  by_cases hown : winp.clients d = 0
  · -- the copy is one of a client of the other interface
    obtain ⟨c, e, hc⟩ := (h.nodes token).mp hin
    have hother := h.headOf_ne_zero hc
    have he : e = !d := by
      refine Bool.eq_not.mpr ?_
      rintro rfl
      exact hother ((hhead e).trans hown)
    subst he
    obtain ⟨v, hv, rfl⟩ := h.head hother
    rw [hhead] at hv
    by_cases hsize : d = true ∧ env.failure = some .infoSize
    · refine ⟨(0, s), ?_, ?_⟩
      · simp only [grabAgain, ne_eq, hown, not_true_eq_false, if_false, hv, Option.bind_eq_bind, Option.bind_some]
        exact if_pos hsize
      · rw [if_pos rfl]
        exact h
    · have hinit : initMbufset env d env.malloc { s with heap := s.heap.insert env.malloc v } =
          some { s with heap := s.heap.insert env.malloc v } := by
        obtain ⟨lists, hchains, hmem⟩ := h.lists
        refine initMbufset_absent env (AList.lookup_insert _) hlookup fun hd => ⟨lists (v.w_token, false), ?_, ?_⟩
        · have hchain := hchains.chain (v.w_token, false)
          rw [hhead] at hchain
          exact hchain.congr fun b hb => linkOf_insert_ne (h.ne_of_held hmalloc ((hmem _ b).mp hb))
        · exact fun hb => h.ne_of_held hmalloc ((hmem _ _).mp hb) rfl
      refine ⟨(env.malloc,
        attachClient env.malloc { v with w_next := 0 } d { s with heap := s.heap.insert env.malloc v }), ?_, ?_⟩
      · simp only [grabAgain, ne_eq, hown, not_true_eq_false, if_false, hv, Option.bind_eq_bind, Option.bind_some]
        rw [if_neg hsize, hinit, Option.bind_some, AList.lookup_insert, Option.bind_some]
      · rw [if_neg hzero]
        exact h.attached { v with w_next := 0 } hzero hmalloc (fun c hc => AList.lookup_insert_ne hc)
          ((hhead d).trans hown).symm hin
  · have hne : headOf s.dga_wlist (token, d) ≠ 0 := hhead d ▸ hown
    obtain ⟨v, hv, rfl⟩ := h.head hne
    refine ⟨(env.malloc, attachClient env.malloc { v with w_next := winp.clients d } d s), ?_, ?_⟩
    · rw [hhead] at hv
      simp only [grabAgain, ne_eq, hown, not_false_eq_true, if_true, hv, Option.bind_eq_bind, Option.bind_some]
    · rw [if_neg hzero]
      exact h.attached { v with w_next := winp.clients d } hzero hmalloc (fun _ _ => rfl) (hhead d).symm hin

theorem grab_right (h : Right s held) (env : Surroundings)
    (hmalloc : env.malloc ≠ 0 → env.malloc ∉ s.heap) (token : Token) (d : Bool) :
    ∃ r, dgai_win_grab_common env token d s = some r ∧
      Right r.2 (if r.1 = 0 then held else Function.update held r.1 (some (token, d))) := by
  by_cases hzero : env.malloc = 0
  · refine ⟨(0, s), if_pos hzero, ?_⟩
    rw [if_pos rfl]
    exact h
  · rw [dgai_win_grab_common, if_neg hzero]
    cases hlookup : lookupToken token s.dga_wlist with
    | none => exact grabFirst_right h env hzero (hmalloc hzero) (lookupToken_none.mp hlookup) d
    | some winp => exact grabAgain_right h env hzero (hmalloc hzero) hlookup d

structure Loose (s : State) (held : Held) (token : Token) : Prop where
  single : (s.dga_wlist.map Winlist.w_token).Nodup
  own : token ∈ s.dga_wlist.map Winlist.w_token
  nodes : ∀ t, t ≠ token →
    (t ∈ s.dga_wlist.map Winlist.w_token ↔ ∃ clientp interface, held clientp = some (t, interface))
  lists : ∃ lists, IsChains (linkOf Window.w_next s.heap) (headOf s.dga_wlist) lists ∧
    ∀ i clientp, clientp ∈ lists i ↔ held clientp = some i
  tokens : ∀ clientp i, held clientp = some i → ∃ v, s.heap.lookup clientp = some v ∧ v.w_token = i.1

theorem Loose.released (h : Loose s held token) (hc : held c = none) : Right (releaseNode c token s) held := by
  obtain ⟨lists, hchains, hmem⟩ := h.lists
  rw [releaseNode]
  cases hlookup : lookupToken token s.dga_wlist with
  | none => exact absurd h.own (lookupToken_none.mp hlookup)
  | some winp =>
      have hhead (d : Bool) := headOf_some hlookup d
      dsimp only
      by_cases hempty : winp.dga_clientplist_draw = 0 ∧ winp.dga_clientplist = 0
      · have hzero (d : Bool) : headOf s.dga_wlist (token, d) = 0 := by
          rw [hhead]
          cases d
          · exact hempty.2
          · exact hempty.1
        have hne {c' : Nat} {i : Token × Bool} (hc' : held c' = some i) : c' ≠ c := by
          rintro rfl
          rw [hc] at hc'
          cases hc'
        have hnone {c' : Nat} {d : Bool} : held c' ≠ some (token, d) := by
          intro hc'
          have hchain := hchains.chain (token, d)
          rw [hzero] at hchain
          have hin := (hmem _ _).mpr hc'
          rw [hchain.zero] at hin
          cases hin
        rw [if_pos hempty]
        refine ⟨h.single.sublist (List.eraseP_sublist.map _), fun t => ?_, ⟨lists, ?_, hmem⟩, fun c' i hc' => ?_⟩
        · rw [tokens_eraseP h.single]
          by_cases ht : t = token
          · refine iff_of_false (fun h => h.2 ht) ?_
            rintro ⟨c', d, hc'⟩
            exact hnone (ht ▸ hc')
          · rw [and_iff_left ht]
            exact h.nodes t ht
        · rw [headOf_eraseP h.single hzero]
          exact hchains.congr fun i c' hc' => linkOf_erase_ne (hne ((hmem i c').mp hc'))
        · rw [AList.lookup_erase_ne (hne hc')]
          exact h.tokens c' i hc'
      · rw [if_neg hempty]
        refine ⟨h.single, fun t => ?_, ⟨lists, hchains, hmem⟩, h.tokens⟩
        by_cases ht : t = token
        · subst ht
          refine iff_of_true h.own ?_
          have hexists : ∃ d, headOf s.dga_wlist (t, d) ≠ 0 := by
            by_contra hno
            have hzero (d : Bool) : winp.clients d = 0 := by
              rw [← hhead]
              exact not_not.mp fun hd => hno ⟨d, hd⟩
            exact hempty ⟨hzero true, hzero false⟩
          obtain ⟨d, hd⟩ := hexists
          obtain ⟨b, l, -, -, hlist⟩ := (hchains.chain (t, d)).head_mem hd
          refine ⟨headOf s.dga_wlist (t, d), d, (hmem _ _).mp ?_⟩
          rw [hlist]
          exact List.mem_cons_self ..
        · exact h.nodes t ht

theorem unlink_loose (h : Right s held) {lists : Token × Bool → List Nat}
    (hchains : IsChains (linkOf Window.w_next s.heap) (headOf s.dga_wlist) lists)
    (hmem : ∀ i clientp, clientp ∈ lists i ↔ held clientp = some i) {l₁ l₂ : List Nat}
    (hlist : lists (token, d) = l₁ ++ c :: l₂) {client : Window} (hclient : s.heap.lookup c = some client)
    (htoken : client.w_token = token) {f : Bool} (hflag : l₁ = [] → f = d) :
    ∃ s', unlinkClient f client (l₁.getLast?.getD 0) s = some s' ∧
    Loose s' (Function.update held c none) token := by
  have hchain := hchains.chain (token, d)
  have hnodup := hchain.nodup
  rw [hlist] at hchain hnodup
  obtain ⟨hout, -⟩ := List.nodup_cons.mp (List.nodup_middle.mp hnodup)
  have hnext : client.w_next = l₂.headD 0 := by
    have hlink := link_of_isChain hchain
    rw [linkOf_of_lookup hclient] at hlink
    exact Option.some.inj hlink
  have hin (e : Nat) (he : e ∈ l₁) : e ∈ lists (token, d) := hlist ▸ List.mem_append_left _ he
  have hc : c ∈ lists (token, d) := hlist ▸ List.mem_append_right _ (List.mem_cons_self ..)
  have hown : token ∈ s.dga_wlist.map Winlist.w_token := (h.nodes token).mpr ⟨c, d, (hmem _ _).mp hc⟩
  -- the lists without the client are those that are still held
  have hrest : ∀ i c', c' ∈ Function.update lists (token, d) (l₁ ++ l₂) i ↔
    Function.update held c none c' = some i := by
    intro i c'
    rw [Function.update_apply, Function.update_apply]
    by_cases hcc : c' = c
    · subst hcc
      rw [if_pos rfl]
      refine iff_of_false ?_ nofun
      by_cases hi : i = (token, d)
      · rw [if_pos hi]
        exact hout
      · rw [if_neg hi]
        exact fun hc' => hi (hchains.apart i (token, d) c' hc' hc)
    · rw [if_neg hcc, ← hmem]
      by_cases hi : i = (token, d)
      · rw [if_pos hi, hi, hlist, List.mem_append, List.mem_append, List.mem_cons, or_iff_right hcc]
      · rw [if_neg hi]
  have hsame {c' : Nat} {i : Token × Bool} (hc' : Function.update held c none c' = some i) : c' ≠ c ∧
    held c' = some i := by
    by_cases hcc : c' = c
    · rw [hcc, Function.update_self] at hc'
      cases hc'
    · rw [Function.update_of_ne hcc] at hc'
      exact ⟨hcc, hc'⟩
  have hnodes (t : Token) (ht : t ≠ token) : t ∈ s.dga_wlist.map Winlist.w_token ↔
      ∃ clientp interface, Function.update held c none clientp = some (t, interface) := by
    rw [h.nodes]
    refine exists_congr fun c' => exists_congr fun e => ?_
    by_cases hcc : c' = c
    · rw [hcc, Function.update_self]
      refine iff_of_false (fun hc' => ht ?_) nofun
      rw [(hmem _ _).mp hc] at hc'
      cases hc'
      rfl
    · rw [Function.update_of_ne hcc]
  cases hlast : l₁.getLast? with
  | none =>
      rw [List.getLast?_eq_none_iff] at hlast
      subst hlast
      obtain rfl := hflag rfl
      have hheads := headOf_changeToken hown f client.w_next
      have htokens := changeToken_tokens token s.dga_wlist (setClients_token f client.w_next)
      refine ⟨{ s with dga_wlist := changeToken client.w_token (Winlist.setClients f client.w_next) s.dga_wlist },
        if_pos rfl, ?_⟩
      rw [htoken]
      refine ⟨htokens ▸ h.single, htokens ▸ hown, fun t ht => htokens ▸ hnodes t ht, ⟨_, ?_, hrest⟩,
        fun c' i hc' => ?_⟩
      · rw [hheads, hnext]
        exact hchains.unlinked hlist nofun fun _ _ _ => rfl
      · exact h.tokens c' i (hsame hc').2
  | some e =>
      have he := List.mem_of_getLast? hlast
      have hheld := (hmem _ _).mp (hin e he)
      obtain ⟨v, hv, hvtoken⟩ := h.tokens e _ hheld
      have he0 : e ≠ 0 := (hchains.chain _).ne_zero (hin e he)
      refine ⟨{ s with heap := s.heap.insert e { v with w_next := client.w_next } }, ?_, ?_⟩
      · rw [Option.getD_some, unlinkClient, if_neg he0, hv]
        rfl
      · refine ⟨h.single, hown, hnodes, ⟨_, ?_, hrest⟩, fun c' i hc' => ?_⟩
        · have hhead : headOf s.dga_wlist =
              Function.update (headOf s.dga_wlist) (token, d) ((l₁ ++ l₂).headD 0) := by
            rw [← Function.update_eq_self (token, d) (headOf s.dga_wlist)]
            rw [Function.update_idem, headD_of_isChain hchain]
            cases l₁ with
            | nil => cases hlast
            | cons x l₁ => rfl
          rw [hhead]
          refine hchains.unlinked hlist (fun e' he' => ?_) fun c' _ hc' => ?_
          · rw [hlast] at he'
            obtain rfl := Option.some.inj he'
            rw [linkOf_insert, hnext]
          · rw [hlast] at hc'
            exact linkOf_insert_ne fun hce => hc' (hce ▸ rfl)
        · obtain ⟨hcc, hc'⟩ := hsame hc'
          by_cases hce : c' = e
          · subst hce
            rw [hheld] at hc'
            cases hc'
            exact ⟨_, AList.lookup_insert _, hvtoken⟩
          · rw [AList.lookup_insert_ne hce]
            exact h.tokens c' i hc'

theorem ungrab_right (h : Right s held) (hin : c ∈ s.heap) {f : Bool}
    (hfits : ∀ token interface, held c = some (token, interface) →
      f = interface ∨ f = true ∧ ∀ winp ∈ s.dga_wlist, winp.dga_clientplist ≠ c) :
    ∃ s', dgai_win_ungrab_common c f s = some s' ∧ Right s' (Function.update held c none) := by
  obtain ⟨client, hclient⟩ := Option.isSome_iff_exists.mp (AList.lookup_isSome.mpr hin)
  obtain ⟨lists, hchains, hmem⟩ := h.lists
  cases hheld : held c with
  | none =>
      have hnot (i : Token × Bool) : c ∉ lists i := by
        rw [hmem, hheld]
        exact nofun
      rw [← hheld, Function.update_eq_self]
      cases hlookup : lookupToken client.w_token s.dga_wlist with
      | none =>
          refine ⟨s, ?_, h⟩
          simp only [dgai_win_ungrab_common, hclient, hlookup, Option.bind_eq_bind, Option.bind_some]
      | some winp =>
          have hchain (e : Bool) := headOf_some hlookup e ▸ hchains.chain (client.w_token, e)
          exact ⟨s, ungrab_absent hclient hlookup (hchain f) (hnot _) (hchain false) (hnot _), h⟩
  | some i =>
      obtain ⟨token, d⟩ := i
      obtain ⟨v, hv, rfl⟩ := h.tokens c _ hheld
      obtain rfl := Option.some.inj (hclient.symm.trans hv)
      have hown : client.w_token ∈ s.dga_wlist.map Winlist.w_token := (h.nodes _).mpr ⟨c, d, hheld⟩
      obtain ⟨winp, hlookup⟩ : ∃ winp, lookupToken client.w_token s.dga_wlist = some winp := by
        refine Option.ne_none_iff_exists'.mp fun hnone => ?_
        exact lookupToken_none.mp hnone hown
      have hchain (e : Bool) := headOf_some hlookup e ▸ hchains.chain (client.w_token, e)
      obtain ⟨l₁, l₂, hlist⟩ := List.append_of_mem ((hmem _ _).mpr hheld)
      have hchaind := hchain d
      rw [hlist] at hchaind
      have hfuel : l₁.length < s.heap.keys.length + 1 := by
        have hlen := hchaind.length_le
        rw [List.length_append] at hlen
        omega
      have hfound := hchaind.searchLink_mem hfuel 0
      have hflag : l₁ = [] → f = d := by
        rintro rfl
        refine (hfits _ _ hheld).elim id fun ⟨hf, hne⟩ => ?_
        cases d with
        | true => exact hf
        | false => exact absurd (headD_of_isChain hchaind) (hne winp (List.mem_of_find?_eq_some hlookup))
      obtain ⟨s', hunlink, hloose⟩ := unlink_loose h hchains hmem hlist hclient rfl hflag
      refine ⟨releaseNode c client.w_token s', ?_, hloose.released (Function.update_self ..)⟩
      by_cases hfd : f = d
      · subst hfd
        simp only [dgai_win_ungrab_common, hclient, hlookup, hfound, hunlink, Option.bind_eq_bind, Option.bind_some]
      · obtain ⟨rfl, -⟩ := (hfits _ _ hheld).resolve_left hfd
        obtain rfl : d = false := Bool.eq_false_iff.mpr fun hd => hfd hd.symm
        have hother : c ∉ lists (client.w_token, true) := by
          rw [hmem, hheld]
          simp
        have hfirst := (hchain true).searchLink_notMem hother (Nat.le_succ_of_le (hchain true).length_le) 0
        simp only [dgai_win_ungrab_common, hclient, hlookup, hfirst, hfound, hunlink,
          Option.bind_eq_bind, Option.bind_some]

theorem step_right {s : Session} (h : Right s.state s.held) {call : Call} (hlegal : Legal call s)
    (hfits : Fits call s) :
    ∃ s', step call s = some s' ∧ Right s'.state s'.held := by
  cases call with
  | grab env token drawableGrabber =>
      obtain ⟨r, hgrab, hr⟩ := grab_right h env hlegal token drawableGrabber
      exact ⟨_, congrArg (Option.map _) hgrab, hr⟩
  | ungrab clientp drawableGrabber =>
      obtain ⟨state, hungrab, hr⟩ := ungrab_right h hlegal hfits
      exact ⟨_, congrArg (Option.map _) hungrab, hr⟩

/-- While clients are ungrabbed through their interface, or as old ones behind another one, the
lists are those of the clients that are grabbed and not yet ungrabbed, and every call returns. -/
theorem windows_listed {s : Session} (h : Reachable step (fun call s => Legal call s ∧ Fits call s) Init s) :
    Right s.state s.held ∧ ∀ call, Legal call s → Fits call s → ∃ s', step call s = some s' := by
  have hright : Right s.state s.held := by
    refine h.invariant (fun s => Right s.state s.held) ?_ ?_
    · rintro ⟨_, _⟩ ⟨rfl, rfl⟩
      refine ⟨List.nodup_nil, fun t => ?_, ⟨fun _ => [], ⟨fun _ => .nil, nofun⟩, fun i c => ?_⟩, nofun⟩
      · exact iff_of_false List.not_mem_nil nofun
      · exact iff_of_false List.not_mem_nil nofun
    · rintro call s s' hs ⟨hlegal, hfits⟩ hstep
      obtain ⟨s₁, hrun, hs₁⟩ := step_right hs hlegal hfits
      obtain rfl := Option.some.inj (hrun.symm.trans hstep)
      exact hs₁
  refine ⟨hright, fun call hlegal hfits => ?_⟩
  obtain ⟨s', hrun, -⟩ := step_right hright hlegal hfits
  exact ⟨s', hrun⟩

def unused : Session := ⟨⟨∅, []⟩, fun _ => none⟩

def oldGrab : Call := .grab ⟨1, none, false, true⟩ 5 false

def grabbed : Session := (step oldGrab unused).get rfl

theorem windows_listed_grabbed :
    Right grabbed.state grabbed.held ∧ ∀ call, Legal call grabbed → Fits call grabbed →
    ∃ s', step call grabbed = some s' :=
  windows_listed (.next (s := unused) oldGrab (.start ⟨rfl, rfl⟩) ⟨fun _ => by decide, trivial⟩ rfl)

/-- The first old client of a window stays in its list when it is ungrabbed as a drawable. -/
theorem old_client_stays : ¬ ∀ s, Reachable step Legal Init s → Right s.state s.held := by
  intro h
  obtain ⟨s, hreach, hlist, hheld⟩ : ∃ s, Reachable step Legal Init s ∧
    s.state.dga_wlist.map Winlist.w_token = [5] ∧
      s.held = Function.update grabbed.held 1 none :=
    ⟨⟨_, _⟩, .next (s := grabbed) (.ungrab 1 true)
      (.next (s := unused) oldGrab (.start ⟨rfl, rfl⟩) (fun _ => by decide) rfl)
      (show 1 ∈ grabbed.state.heap by decide) rfl, rfl, rfl⟩
  obtain ⟨c, d, hc⟩ := ((h s hreach).nodes 5).mp (hlist ▸ List.mem_singleton_self 5)
  rw [hheld] at hc
  by_cases hcc : c = 1
  · rw [hcc, Function.update_self] at hc
    cases hc
  · rw [Function.update_of_ne hcc] at hc
    change Function.update unused.held 1 _ c = _ at hc
    rw [Function.update_of_ne hcc] at hc
    cases hc

end OiUserland.Dga.WindowLists
