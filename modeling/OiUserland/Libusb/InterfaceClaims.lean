import OiUserland.Lib.Claims
import OiUserland.Lib.Runs
import OiUserland.Libusb.HandleSteps

namespace OiUserland.Libusb.InterfaceClaims

open Lib.Runs Lib.Claims Configs Handles HandleSteps

variable {s s' t : UsbState} {hdl : Nat} {info info' : UsbDevHandleInfo} {r : Int}

def board (s : UsbState) : Board Nat Nat where
  table i := if s.claimedInterfaces i = 0 then none else some (s.claimedInterfaces i)
  holds hdl := (s.handles hdl).map fun info =>
    if info.claimedInterface = -1 then none else some info.claimedInterface.toNat

/-- NULL is no handle, and a claim that is recorded in a handle is an interface. -/
structure Sane (s : UsbState) : Prop where
  null : s.handles 0 = none
  claims : ∀ hdl info, s.handles hdl = some info → info.claimedInterface = -1 ∨ 0 ≤ info.claimedInterface

def Keeps (s s' : UsbState) : Prop := Sane s → Sane s' ∧ Moves (board s) (board s')

theorem Keeps.refl (s : UsbState) : Keeps s s := fun hs => ⟨hs, .refl⟩

theorem Keeps.trans (h : Keeps s t) (h' : Keeps t s') : Keeps s s' := by
  intro hs
  obtain ⟨ht, hm⟩ := h hs
  obtain ⟨hs', hm'⟩ := h' ht
  exact ⟨hs', hm.trans hm'⟩

theorem keeps_congr (hc : t.claimedInterfaces = s.claimedInterfaces) (hh : t.handles = s.handles) : Keeps s t := by
  have hb : board t = board s := by rw [board, board, hc, hh]
  intro hs
  refine ⟨⟨hh ▸ hs.null, fun hdl info hinfo => hs.claims hdl info (hh ▸ hinfo)⟩, ?_⟩
  rw [hb]
  exact .refl

theorem keeps_same (h : Same s t) : Keeps s t := keeps_congr h.claimedInterfaces h.handles

theorem holds_putInfo (s : UsbState) (hdl : Nat) (info : UsbDevHandleInfo) :
    (board (s.putInfo hdl info)).holds = Function.update (board s).holds hdl
      (some (if info.claimedInterface = -1 then none else some info.claimedInterface.toNat)) := by
  funext h
  by_cases hh : h = hdl
  · subst hh
    simp [board, UsbState.putInfo]
  · simp [board, UsbState.putInfo, hh]

theorem table_update (s : UsbState) (i hdl : Nat) :
    (fun j => if Function.update s.claimedInterfaces i hdl j = 0 then none
      else some (Function.update s.claimedInterfaces i hdl j)) =
      Function.update (board s).table i (if hdl = 0 then none else some hdl) := by
  funext j
  by_cases hj : j = i
  · subst hj
    simp [board]
  · simp [board, hj]

theorem Sane.putInfo (hs : Sane s) (hne : hdl ≠ 0) (hc : info.claimedInterface = -1 ∨ 0 ≤ info.claimedInterface) :
    Sane (s.putInfo hdl info) := by
  refine ⟨?_, fun h info' hinfo => ?_⟩
  · rw [putInfo_of_ne s info (Ne.symm hne)]
    exact hs.null
  · by_cases hh : h = hdl
    · subst hh
      rw [putInfo_self] at hinfo
      exact Option.some.inj hinfo ▸ hc
    · rw [putInfo_of_ne s info hh] at hinfo
      exact hs.claims h info' hinfo

theorem keeps_putInfo (hne : hdl ≠ 0) (info : UsbDevHandleInfo) (hinfo : s.handles hdl = some info)
    (hc : info'.claimedInterface = info.claimedInterface) : Keeps s (s.putInfo hdl info') := by
  intro hs
  refine ⟨hs.putInfo hne (hc ▸ hs.claims hdl info hinfo), ?_⟩
  have hb : board (s.putInfo hdl info') = board s := by
    have hh := holds_putInfo s hdl info'
    rw [hc, Function.update_eq_self_iff.mpr (by simp [board, hinfo])] at hh
    exact congrArg (Board.mk (board s).table) hh
  rw [hb]
  exact .refl

theorem keeps_released (hne : hdl ≠ 0) (hinfo : s.handles hdl = some info) (hc : info.claimedInterface ≠ -1) :
    Keeps s (released s hdl info) := by
  intro hs
  refine ⟨Sane.putInfo (s := { s with claimedInterfaces := _ }) ⟨hs.null, hs.claims⟩ hne (.inl rfl), ?_⟩
  have hm := Move.release (b := board s) hdl info.claimedInterface.toNat (by simp [board, hinfo, hc])
  have hb : board (released s hdl info) =
      ⟨Function.update (board s).table info.claimedInterface.toNat none, Function.update (board s).holds hdl (some none)⟩ := by
    have ht := table_update s info.claimedInterface.toNat 0
    have hh := holds_putInfo { s with
      claimedInterfaces := Function.update s.claimedInterfaces info.claimedInterface.toNat 0 } hdl (unclaimed info)
    exact congrArg₂ Board.mk ht hh
  rw [hb]
  exact .single hm

theorem keeps_claimed {i : Nat} {alt : UsbInterfaceDescriptor} (hne : hdl ≠ 0) (hinfo : s.handles hdl = some info)
    (hfree : info.claimedInterface = -1) (hi : s.claimedInterfaces i = 0) : Keeps s (claimed s hdl info' i alt) := by
  intro hs
  refine ⟨Sane.putInfo (s := { s with claimedInterfaces := _ }) ⟨hs.null, hs.claims⟩ hne
    (.inr (Int.natCast_nonneg i)), ?_⟩
  have hm := Move.claim (b := board s) hdl i (by simp [board, hinfo, hfree]) (by simp [board, hi])
  have hb : board (claimed s hdl info' i alt) =
      ⟨Function.update (board s).table i (some hdl), Function.update (board s).holds hdl (some (some i))⟩ := by
    have ht := table_update s i hdl
    rw [if_neg hne] at ht
    have hh := holds_putInfo { s with claimedInterfaces := Function.update s.claimedInterfaces i hdl } hdl
      (onAlternate info' i 0 alt)
    have hclaim : (onAlternate info' i 0 alt).claimedInterface ≠ -1 := by
      show (i : Int) ≠ -1
      omega
    rw [if_neg hclaim] at hh
    exact congrArg₂ Board.mk ht hh
  rw [hb]
  exact .single hm

theorem keeps_entered (hne : hdl ≠ 0) (hnone : s.handles hdl = none) (hc : info.claimedInterface = -1) :
    Keeps s (s.putInfo hdl info) := by
  intro hs
  refine ⟨hs.putInfo hne (.inl hc), ?_⟩
  have hm := Move.enter (b := board s) hdl (by simp [board, hnone])
  have hh := holds_putInfo s hdl info
  rw [if_pos hc] at hh
  have hb : board (s.putInfo hdl info) = ⟨(board s).table, Function.update (board s).holds hdl (some none)⟩ :=
    congrArg (Board.mk (board s).table) hh
  rw [hb]
  exact .single hm

theorem keeps_left (hinfo : s.handles hdl = some info) (hc : info.claimedInterface = -1) :
    Keeps s { s with handles := Function.update s.handles hdl none } := by
  intro hs
  refine ⟨⟨?_, fun h info' hinfo' => ?_⟩, ?_⟩
  · by_cases hz : hdl = 0
    · rw [hz] at hinfo
      exact absurd (hs.null.symm.trans hinfo) nofun
    · exact (Function.update_of_ne (Ne.symm hz) ..).trans hs.null
  · by_cases hh : h = hdl
    · subst hh
      exact absurd ((Function.update_self ..).symm.trans hinfo') nofun
    · exact hs.claims h info' ((Function.update_of_ne hh ..).symm.trans hinfo')
  · have hm := Move.leave (b := board s) hdl (by simp [board, hinfo, hc])
    have hb : board { s with handles := Function.update s.handles hdl none } =
        ⟨(board s).table, Function.update (board s).holds hdl none⟩ := by
      refine congrArg (Board.mk (board s).table) ?_
      funext h
      by_cases hh : h = hdl
      · subst hh
        simp
      · simp [board, hh]
    rw [hb]
    exact .single hm

theorem keeps_release {interface : Int} (h : usbReleaseInterface hdl interface s = some (r, s')) : Keeps s s' := by
  obtain rfl | ⟨info, hne, hinfo, hc, rfl⟩ := release_cases h
  · exact Keeps.refl s'
  · exact keeps_released hne hinfo hc

theorem keeps_claim {interface : Int} (h : usbClaimInterface hdl interface s = some (r, s')) : Keeps s s' := by
  obtain rfl | ⟨info, config, hne, hinfo, -, rfl | ⟨-, hfree, i, alt, -, hi, -, rfl⟩⟩ := claim_cases h
  · exact Keeps.refl s'
  · exact keeps_putInfo hne info hinfo rfl
  · exact keeps_claimed hne hinfo hfree hi

theorem keeps_setConfiguration {configuration : Int} (h : usbSetConfiguration hdl configuration s = some (r, s')) :
    Keeps s s' := by
  obtain rfl | ⟨info, t, hne, hinfo, hsame, -, hcases⟩ := setConfiguration_cases h
  · exact Keeps.refl s'
  · have hput : Keeps s (t.putInfo hdl (configured s info configuration)) :=
      (keeps_same hsame).trans (keeps_putInfo hne info (hsame.handles ▸ hinfo) rfl)
    rcases hcases with ⟨-, rfl⟩ | ⟨hc, rfl⟩
    · exact hput
    · exact hput.trans (keeps_released hne (putInfo_self ..) hc)

theorem keeps_setAlternate {alternate : Int} (h : setAlternate hdl alternate s = some (r, s')) : Keeps s s' := by
  intro hs
  obtain ⟨rfl, -⟩ | ⟨info, t, hinfo, hsame, -, -, hcases⟩ := setAlternate_cases h
  · exact Keeps.refl s' hs
  · have hne : hdl ≠ 0 := fun hz => nomatch (hz ▸ hinfo).symm.trans hs.null
    have hput {info' : UsbDevHandleInfo} (hc : info'.claimedInterface = info.claimedInterface) :
        Keeps s (t.putInfo hdl info') := (keeps_same hsame).trans (keeps_putInfo hne info (hsame.handles ▸ hinfo) hc)
    rcases hcases with rfl | ⟨alt, -, -, rfl⟩
    · exact hput rfl hs
    · exact hput rfl hs

theorem keeps_setAltinterface {alternate : Int} (h : usbSetAltinterface hdl alternate s = some (r, s')) :
    Keeps s s' := by
  obtain rfl | ⟨hclaim, -⟩ | halt | ⟨t, hclaim, halt⟩ := setAltinterface_cases h
  · exact Keeps.refl s'
  · exact keeps_claim hclaim
  · exact keeps_setAlternate halt
  · exact (keeps_claim hclaim).trans (keeps_setAlternate halt)

theorem keeps_open {answers : OpenAnswers} {r : Nat} (h : usbOpen answers s = some (r, s')) : Keeps s s' := by
  obtain ⟨t, dev, hsame, -, rfl⟩ | ⟨hdl, info, t, dev, hne, hnone, hsame, -, -, -, hc, -, rfl⟩ := open_cases h
  · exact keeps_congr hsame.claimedInterfaces hsame.handles
  · have hdev : Keeps s { t with device := dev } := keeps_congr hsame.claimedInterfaces hsame.handles
    exact hdev.trans (keeps_entered hne (hsame.handles ▸ hnone) hc)

theorem keeps_close (h : usbClose hdl s = some (r, s')) : Keeps s s' := by
  obtain rfl | ⟨info, t, u, hne, hinfo, hreleased, hsame, rfl⟩ := close_cases h
  · exact Keeps.refl s'
  · obtain ⟨info', hinfo', hc, hkeeps⟩ :
        ∃ info', t.handles hdl = some info' ∧ info'.claimedInterface = -1 ∧ Keeps s t := by
      rcases hreleased with ⟨hc, rfl⟩ | ⟨hc, rfl⟩
      · exact ⟨info, hinfo, hc, Keeps.refl t⟩
      · exact ⟨unclaimed info, putInfo_self .., rfl, keeps_released hne hinfo hc⟩
    exact (hkeeps.trans (keeps_same hsame)).trans (keeps_left (hsame.handles ▸ hinfo') hc)

theorem keeps_check {ep : Int} {epType : Nat} {answers : CheckAnswers}
    (h : usbCheckDeviceAndStatusOpen hdl ep epType answers s = some (r, s')) : Keeps s s' := by
  intro hs
  obtain ⟨info, hinfo, ⟨hsame, -⟩ | ⟨-, -, t, fd, stat, hsame, -, -, rfl⟩⟩ := check_cases h
  · exact keeps_same hsame hs
  · have hne : hdl ≠ 0 := fun hz => nomatch (hz ▸ hinfo).symm.trans hs.null
    exact (keeps_same hsame).trans (keeps_putInfo hne info (hsame.handles ▸ hinfo) rfl) hs

theorem step_keeps {op : Op} (h : step op s = some s') : Keeps s s' := by
  cases op with
  | usbOpen answers =>
      obtain ⟨r, h⟩ := exists_of_map_snd h
      exact keeps_open h
  | usbClose hdl =>
      obtain ⟨r, h⟩ := exists_of_map_snd h
      exact keeps_close h
  | usbSetConfiguration hdl configuration =>
      obtain ⟨r, h⟩ := exists_of_map_snd h
      exact keeps_setConfiguration h
  | usbClaimInterface hdl interface =>
      obtain ⟨r, h⟩ := exists_of_map_snd h
      exact keeps_claim h
  | usbReleaseInterface hdl interface =>
      obtain ⟨r, h⟩ := exists_of_map_snd h
      exact keeps_release h
  | usbSetAltinterface hdl alt =>
      obtain ⟨r, h⟩ := exists_of_map_snd h
      exact keeps_setAltinterface h
  | usbCheckDeviceAndStatusOpen hdl ep epType answers =>
      obtain ⟨r, h⟩ := exists_of_map_snd h
      exact keeps_check h

theorem Init.sane (h : Init s) : Sane s := ⟨h.no_handles 0, fun hdl _ hinfo => nomatch (h.no_handles hdl).symm.trans hinfo⟩

theorem Init.symmetric (h : Init s) : Symmetric (board s) := by
  intro i hdl
  simp [board, h.no_claims i, h.no_handles hdl]

theorem reachable_symmetric (h : Reachable step (fun _ _ => True) Init s) : Sane s ∧ Symmetric (board s) := by
  refine h.invariant (fun s => Sane s ∧ Symmetric (board s)) (fun s hs => ⟨Init.sane hs, Init.symmetric hs⟩) ?_
  rintro op s s' ⟨hsane, hsym⟩ - hstep
  obtain ⟨hsane', hmoves⟩ := step_keeps hstep hsane
  exact ⟨hsane', hsym.moves hmoves⟩

/-- A handle records an interface as its own if and only if the device does, so that
nobody else has it, and nothing stays with a handle that is not there. -/
theorem claims_exclusive (h : Reachable step (fun _ _ => True) Init s) :
    (∀ hdl i, hdl ≠ 0 → (s.claimedInterfaces i = hdl ↔
      ∃ info, s.handles hdl = some info ∧ info.claimedInterface = (i : Nat))) ∧
    (∀ i hdl hdl' info info', s.handles hdl = some info → s.handles hdl' = some info' →
      info.claimedInterface = (i : Nat) → info'.claimedInterface = (i : Nat) → hdl = hdl') ∧
    (∀ i hdl, hdl ≠ 0 → s.handles hdl = none → s.claimedInterfaces i ≠ hdl) ∧
    ∀ hdl info, s.handles hdl = some info → info.claimedInterface = -1 ∨
      ∃ i : Nat, info.claimedInterface = i ∧ s.claimedInterfaces i = hdl := by
  obtain ⟨hsane, hsym⟩ := reachable_symmetric h
  have hiff (hdl i : Nat) (hne : hdl ≠ 0) : s.claimedInterfaces i = hdl ↔
      ∃ info, s.handles hdl = some info ∧ info.claimedInterface = (i : Nat) := by
    have htable : (board s).table i = some hdl ↔ s.claimedInterfaces i = hdl := by
      simp only [board]
      split
      next hz => exact ⟨nofun, fun he => absurd (he.symm.trans hz) hne⟩
      · exact ⟨Option.some.inj, congrArg some⟩
    rw [← htable, hsym i hdl]
    simp only [board, Option.map_eq_some_iff]
    refine exists_congr fun _ => and_congr_right fun hinfo => ?_
    rcases hsane.claims hdl _ hinfo with hc | hc
    · rw [if_pos hc]
      exact ⟨nofun, fun he => absurd (hc.symm.trans he) (by omega)⟩
    · rw [if_neg (by omega)]
      exact ⟨fun he => by have := Option.some.inj he; omega, fun he => congrArg some (by omega)⟩
  have hlive {hdl : Nat} {info : UsbDevHandleInfo} (hinfo : s.handles hdl = some info) : hdl ≠ 0 :=
    fun hz => nomatch (hz ▸ hinfo).symm.trans hsane.null
  refine ⟨hiff, ?_, ?_, ?_⟩
  · intro i hdl hdl' info info' hinfo hinfo' hc hc'
    have ht := (hiff hdl i (hlive hinfo)).mpr ⟨info, hinfo, hc⟩
    have ht' := (hiff hdl' i (hlive hinfo')).mpr ⟨info', hinfo', hc'⟩
    exact ht.symm.trans ht'
  · intro i hdl hne hnone ht
    obtain ⟨info, hinfo, -⟩ := (hiff hdl i hne).mp ht
    exact absurd (hnone.symm.trans hinfo) nofun
  · intro hdl info hinfo
    rcases hsane.claims hdl info hinfo with hc | hc
    · exact .inl hc
    · obtain ⟨i, hi⟩ := Int.eq_ofNat_of_zero_le hc
      exact .inr ⟨i, hi, (hiff hdl i (hlive hinfo)).mpr ⟨info, hinfo, hi⟩⟩

section Frames

variable {g : Nat}

/-- The handle that a call is made on. -/
def on : Op → Option Nat
  | .usbOpen _ => none
  | .usbClose hdl | .usbSetConfiguration hdl _ | .usbClaimInterface hdl _ | .usbReleaseInterface hdl _
  | .usbSetAltinterface hdl _ | .usbCheckDeviceAndStatusOpen hdl _ _ _ => some hdl

theorem released_of_ne (hne : g ≠ hdl) : (released s hdl info).handles g = s.handles g := putInfo_of_ne _ _ hne

theorem claim_frame {interface : Int} (hne : g ≠ hdl) (h : usbClaimInterface hdl interface s = some (r, s')) :
    s'.handles g = s.handles g := by
  obtain rfl | ⟨_, _, -, -, -, rfl | ⟨-, -, _, _, -, -, -, rfl⟩⟩ := claim_cases h
  · rfl
  · exact putInfo_of_ne s _ hne
  · exact putInfo_of_ne _ _ hne

theorem setAlternate_frame {alternate : Int} (hne : g ≠ hdl) (h : setAlternate hdl alternate s = some (r, s')) :
    s'.handles g = s.handles g := by
  obtain ⟨rfl, -⟩ | ⟨_, t, -, hsame, -, -, rfl | ⟨_, -, -, rfl⟩⟩ := setAlternate_cases h
  · rfl
  · rw [putInfo_of_ne _ _ hne, hsame.handles]
  · rw [putInfo_of_ne _ _ hne, hsame.handles]

theorem step_frame {op : Op} (hg : (s.handles g).isSome) (hon : on op ≠ some g) (h : step op s = some s') :
    s'.handles g = s.handles g := by
  have hne {hdl : Nat} (hon : some hdl ≠ some g) : g ≠ hdl := fun he => hon (he ▸ rfl)
  cases op <;> obtain ⟨r, h⟩ := exists_of_map_snd h
  case usbOpen =>
    obtain ⟨t, _, hsame, -, rfl⟩ | ⟨hdl, _, t, _, -, hnone, hsame, -, -, -, -, -, rfl⟩ := open_cases h
    · rw [hsame.handles]
    · have hnew : g ≠ hdl := fun he => by simp [he, hnone] at hg
      rw [putInfo_of_ne _ _ hnew, hsame.handles]
  case usbClose =>
    obtain rfl | ⟨_, t, u, -, -, ⟨-, rfl⟩ | ⟨-, rfl⟩, hsame, rfl⟩ := close_cases h
    · rfl
    · exact (Function.update_of_ne (hne hon) ..).trans (congrFun hsame.handles g)
    · refine (Function.update_of_ne (hne hon) ..).trans ?_
      rw [hsame.handles, released_of_ne (hne hon)]
  case usbSetConfiguration =>
    obtain rfl | ⟨_, t, -, -, hsame, -, ⟨-, rfl⟩ | ⟨-, rfl⟩⟩ := setConfiguration_cases h
    · rfl
    · rw [putInfo_of_ne _ _ (hne hon), hsame.handles]
    · rw [released_of_ne (hne hon), putInfo_of_ne _ _ (hne hon), hsame.handles]
  case usbClaimInterface => exact claim_frame (hne hon) h
  case usbReleaseInterface =>
    obtain rfl | ⟨_, -, -, -, rfl⟩ := release_cases h
    · rfl
    · exact released_of_ne (hne hon)
  case usbSetAltinterface =>
    obtain rfl | ⟨hclaim, -⟩ | halt | ⟨t, hclaim, halt⟩ := setAltinterface_cases h
    · rfl
    · exact claim_frame (hne hon) hclaim
    · exact setAlternate_frame (hne hon) halt
    · exact (setAlternate_frame (hne hon) halt).trans (claim_frame (hne hon) hclaim)
  case usbCheckDeviceAndStatusOpen =>
    obtain ⟨_, -, ⟨hsame, -⟩ | ⟨-, -, t, _, _, hsame, -, -, rfl⟩⟩ := check_cases h
    · rw [hsame.handles]
    · rw [putInfo_of_ne _ _ (hne hon), hsame.handles]

theorem exec_frame {ops : List Op} (hg : (s.handles g).isSome) (hon : ∀ op ∈ ops, on op ≠ some g)
    (h : exec step ops s = some s') : s'.handles g = s.handles g := by
  induction ops generalizing s with
  | nil => exact congrArg (·.handles g) (Option.some.inj h).symm
  | cons op ops ih =>
      obtain ⟨t, ht, h⟩ := Option.bind_eq_some_iff.mp h
      have hkept := step_frame hg (hon op (List.mem_cons_self ..)) ht
      exact (ih (hkept ▸ hg) (fun op hop => hon op (List.mem_cons_of_mem _ hop)) h).trans hkept

theorem table_eq_some {i : Nat} (hg : g ≠ 0) : (board s).table i = some g ↔ s.claimedInterfaces i = g := by
  by_cases hz : s.claimedInterfaces i = 0 <;> simp [board, hz, Ne.symm hg]

/-- What is done with other handles changes neither the record of an open handle nor its claims. -/
theorem handles_independent {ops : List Op} (h : Reachable step (fun _ _ => True) Init s) (hg : (s.handles g).isSome)
    (hon : ∀ op ∈ ops, on op ≠ some g) (hrun : exec step ops s = some s') :
    s'.handles g = s.handles g ∧ ∀ i, s'.claimedInterfaces i = g ↔ s.claimedInterfaces i = g := by
  have hkept := exec_frame hg hon hrun
  obtain ⟨hsane, hsym⟩ := reachable_symmetric h
  obtain ⟨-, hsym'⟩ := reachable_symmetric (reachable_of_exec ops (fun _ _ _ => trivial) h hrun)
  have hne : g ≠ 0 := by
    rintro rfl
    simp [hsane.null] at hg
  refine ⟨hkept, fun i => ?_⟩
  rw [← table_eq_some hne, ← table_eq_some hne, hsym' i g, hsym i g]
  simp only [board, hkept]

end Frames

def sampleCloud : List UInt8 :=
  [9, 2, 41, 0, 1, 1, 0, 0x80, 50,
   9, 4, 0, 0, 1, 0xff, 0, 0, 0,
   7, 5, 0x81, 2, 64, 0, 0,
   9, 4, 0, 1, 1, 0xff, 0, 0, 0,
   7, 5, 0x81, 2, 64, 0, 0]

def sampleEnv : Env where
  grant _ := true
  device := .received [18, 1, 0, 2, 0, 0, 0, 64, 1, 0, 2, 0, 0, 1, 0, 0, 0, 1]
  config _ := .received (sampleCloud)
  cloud _ := .received sampleCloud
  stack _ _ _ _ := ⟨0, 0, 0, 0, 0, 0, 0, 0⟩

def sampleState : UsbState where
  relaxed := false
  dirname := ['u']
  filename := ['d']
  device := ⟨⟨0, 0, 0, 0, 0, 0, 0, 0, 0, 0, 0, 0, 0, 0⟩, none⟩
  refCount := 0
  ep0Fd := ⟨0, []⟩
  ep0FdStat := ⟨0, []⟩
  claimedInterfaces _ := 0
  handles _ := none
  files := []

theorem sampleState_init : Init sampleState := ⟨rfl, rfl, rfl, rfl, fun _ => rfl, fun _ => rfl⟩

def sampleOpen (hdl fd : Nat) : Op := .usbOpen ⟨some hdl, true, true, .opened fd, .opened (fd + 1), sampleEnv⟩

/-- Two handles are opened, and the first one claims the interface. -/
theorem claims_exclusive_two : ∃ s : UsbState, (∃ info, s.handles 1 = some info ∧ info.claimedInterface = (0 : Nat)) ∧
    s.claimedInterfaces 0 = 1 ∧ (s.handles 2).isSome := by
  have hrun : (exec step [sampleOpen 1 3, sampleOpen 2 5, .usbClaimInterface 1 0, .usbClaimInterface 2 0]
      sampleState).any (fun s => decide (s.claimedInterfaces 0 = 1 ∧ (s.handles 2).isSome)) = true := by
    decide +kernel
  obtain ⟨s, he, hs⟩ := (Option.any_eq_true _ _).mp hrun
  obtain ⟨hclaim, htwo⟩ := of_decide_eq_true hs
  have hreach := reachable_of_exec _ (fun _ _ _ => trivial) (.start sampleState_init) he
  exact ⟨s, ((claims_exclusive hreach).1 1 0 (by decide)).mp hclaim, hclaim, htwo⟩

theorem handles_independent_two : ∃ s s' : UsbState, s.claimedInterfaces 0 = 1 ∧ s'.handles 1 = s.handles 1 ∧
    s'.claimedInterfaces 0 = 1 := by
  let others : List Op := [.usbClaimInterface 2 0, .usbClose 2]
  have hrun : (exec step [sampleOpen 1 3, sampleOpen 2 5, .usbClaimInterface 1 0] sampleState).any
      (fun s => decide (s.claimedInterfaces 0 = 1 ∧ (s.handles 1).isSome ∧ (exec step others s).isSome)) = true := by
    decide +kernel
  obtain ⟨s, he, hs⟩ := (Option.any_eq_true _ _).mp hrun
  obtain ⟨hclaim, hg, hnext⟩ := of_decide_eq_true hs
  obtain ⟨s', hs'⟩ := Option.isSome_iff_exists.mp hnext
  have hreach := reachable_of_exec _ (fun _ _ _ => trivial) (.start sampleState_init) he
  obtain ⟨hkept, hclaims⟩ := handles_independent hreach hg (by simp [others, on]) hs'
  exact ⟨s, s', hclaim, hkept, (hclaims 0).mpr hclaim⟩

end OiUserland.Libusb.InterfaceClaims
