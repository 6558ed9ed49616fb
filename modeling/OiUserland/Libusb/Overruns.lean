import OiUserland.Libusb.Bounds

namespace OiUserland.Libusb.Overruns

open Lib.Faults Lib.LengthChains Descriptors Decoding Scans Configs Bounds

/-- Both reads bring what was asked for. The first one declares `total` bytes, and
after the second one `total'` bytes and `n` interfaces are in force. -/
structure Declares (env : Env) (index total total' n : Nat) : Prop where
  first_full : ((env.config index).bytes usbCfgDescrSize).length = usbCfgDescrSize
  first_type : peek ((env.config index).bytes usbCfgDescrSize, 0) 1 = usbDescrTypeCfg
  first_total : totalLength ((env.config index).bytes usbCfgDescrSize) = total
  second_full : ((env.cloud index).bytes total).length = total
  second_total : totalAfter total total ((env.cloud index).bytes total) = total'
  second_interfaces :
    interfacesAfter (numInterfaces ((env.config index).bytes usbCfgDescrSize)) total ((env.cloud index).bytes total) = n

def low (n : Nat) : UInt8 := UInt8.ofNat (n % 256)
def high (n : Nat) : UInt8 := UInt8.ofNat (n / 256)

def shortHeader (total n : Nat) : List UInt8 := [9, 2, low total, high total, low n, 1, 0, 128, 50]

def cutCloud (total total' n : Nat) : List UInt8 :=
  [5, 2, low total', high total', low n] ++ (List.replicate (total - 8) 1 ++ [1, 4, 0])

/-- A device that declares a greater total length in the second read. -/
def growing (total total' n : Nat) : Env where
  grant := fun _ => true
  device := .failed 5
  config := fun _ => .received (shortHeader total n)
  cloud := fun _ => .received (cutCloud total total' n)
  stack := fun _ _ _ _ => ⟨0, 0, 0, 0, 0, 0, 0, 0⟩

section Values

variable {total total' n : Nat}

theorem low_high (h : total < 65536) : (low total).toNat + 256 * (high total).toNat = total := by
  simp only [low, high, UInt8.toNat_ofNat']
  omega

theorem low_eq (h : n < 256) : (low n).toNat = n := by
  simp only [low, UInt8.toNat_ofNat']
  omega

theorem length_cutCloud (h : 8 ≤ total) : (cutCloud total total' n).length = total := by
  simp only [cutCloud, List.length_append, List.length_cons, List.length_nil, List.length_replicate]
  omega

theorem declares_growing (index : Nat) (h : 8 ≤ total) (ht : total < 65536) (ht' : total' < 65536) (hn : n < 256) :
    Declares (growing total total' n) index total total' n := by
  have hcloud : ((growing total total' n).cloud index).bytes total = cutCloud total total' n :=
    List.take_of_length_le (Nat.le_of_eq (length_cutCloud h))
  constructor
  · rfl
  · rfl
  · exact low_high ht
  · rw [hcloud]
    exact length_cutCloud h
  · have htype : peek (cutCloud total total' n, 0) 1 = usbDescrTypeCfg := rfl
    rw [hcloud, totalAfter, if_pos ⟨htype, by omega⟩]
    exact low_high ht'
  · have htype : peek (cutCloud total total' n, 0) 1 = usbDescrTypeCfg := rfl
    rw [hcloud, interfacesAfter, if_pos ⟨htype, by omega⟩]
    exact low_eq hn

end Values

theorem walk_ones {visit : Unit → Place → Run (Unit ⊕ Option Place)}
    (hv : ∀ q, visit () q = (isInterface 0 0 q.1).map fun found => if found then .inr (some q) else .inl ()) {k m : Nat}
    (h : k + 4 ≤ m) : walk 3 visit () (List.replicate k 1 ++ [1, 4, 0], m) = .error .badRead := by
  induction k generalizing m with
  | zero =>
      rw [walk, dif_pos (by simp only; omega), hv]
      rfl
  | succ k ih =>
      have hvisit : visit () (List.replicate (k + 1) 1 ++ [1, 4, 0], m) = .ok (.inl ()) := by
        rw [hv]
        cases k <;> rfl
      rw [walk, dif_pos (by simp only; omega), hvisit]
      exact @ih (m - 1) (by omega)

theorem scanExtra_ones {off k : Nat} :
    scanExtra off (List.replicate k 1 ++ [1, 4, 0], k + 3) = .ok (some (off + k)) := by
  induction k generalizing off with
  | zero =>
      rw [scanExtra, dif_pos (by simp only; omega)]
      rfl
  | succ k ih =>
      have htype : byte (List.replicate (k + 1) 1 ++ [1, 4, 0]) 1 = .ok 1 := by
        cases k <;> rfl
      rw [scanExtra, dif_pos (by simp only; omega), htype]
      have hnext := @ih (off + 1)
      rw [Nat.add_right_comm] at hnext
      exact hnext

section Run

variable {total total' n : Nat} {index : Nat}

theorem findInterface_cutCloud (h : 8 ≤ total) (htt : total < total') :
    findInterface (cutCloud total total' n, total') 0 0 = .error .badRead := by
  rw [findInterface, walk, dif_pos (by simp only; omega)]
  refine @walk_ones _ ?_ (total - 8) (total' - 5) (by omega)
  intro q
  cases isInterface 0 0 q.1 <;> rfl

theorem usbFindExtra_cutCloud (h : 8 ≤ total) :
    usbFindExtra (cutCloud total total' n, total) = .ok (List.replicate (total - 8) 1 ++ [1, 4, 0], total - 8) := by
  have hscan := @scanExtra_ones 0 (total - 8)
  have hlen : total - 8 + 3 = total - 5 := by omega
  rw [hlen, Nat.zero_add] at hscan
  rw [usbFindExtra]
  show (do
    let extralen ← scanExtra 0 (List.replicate (total - 8) 1 ++ [1, 4, 0], total - 5)
    pure (List.replicate (total - 8) 1 ++ [1, 4, 0], extralen.getD 0) : Run Place) = _
  rw [hscan]
  rfl

theorem usbFindExtra_shortHeader : usbFindExtra (shortHeader total n, usbCfgDescrSize) = .ok ([], 0) := by
  have hscan : scanExtra 0 ([], 0) = .ok none := by
    rw [scanExtra, dif_neg (by decide)]
    rfl
  show (do
    let extralen ← scanExtra 0 ([], 0)
    pure ([], extralen.getD 0) : Run Place) = _
  rw [hscan]
  rfl

theorem parseInterfaces_badRead {env : Env} {cloud : List UInt8} {slot : UsbConfigDescriptor} {h : Heap}
    (hgrant : env.grant h.asked = true) (hn : 0 < slot.descr.bNumInterfaces)
    (hf : findInterface (cloud, slot.descr.wTotalLength) 0 0 = .error .badRead) :
    parseInterfaces env index cloud slot h = .error .badRead := by
  have hparse (ret : UsbIfDescr) : usbParseIfDescr (cloud, slot.descr.wTotalLength) 0 0 ret = .error .badRead := by
    rw [usbParseIfDescr, hf]
    rfl
  have hiface (s : UsbInterface) (h : Heap) :
      usbParseInterface env index (cloud, slot.descr.wTotalLength) 0 s h = .error .badRead := by
    rw [usbParseInterface, usbMaxaltsetting, countAlternates, hparse]
    rfl
  obtain ⟨k, hk⟩ := Nat.exists_eq_succ_of_ne_zero (Nat.ne_of_gt hn)
  simp only [parseInterfaces, calloc, hgrant, ↓reduceIte, hk, List.replicate_succ, eachSlot, List.getElem?_cons_zero,
    hiface]
  rfl

theorem usbParseCfgDescr_shortHeader (ht : total < 65536) (hn : n < 256) (ret : UsbCfgDescr) :
    usbParseCfgDescr (shortHeader total n, usbCfgDescrSize) ret =
      .ok (some (usbCfgDescrSize, ⟨9, 2, total, n, 1, 0, 128, 50⟩, ([], 0))) := by
  have hin : Inside (shortHeader total n, usbCfgDescrSize) := Nat.le_refl 9
  have hroom : 2 ≤ usbCfgDescrSize := by decide
  have htotal : (low total).toNat + 256 * (high total).toNat = total := low_high ht
  have hnum : (low n).toNat = n := low_eq hn
  have hdecode := @decode_cfg 9 2 (low total) (high total) (low n) 1 0 128 50 [] 9 (Nat.le_refl 9)
  rw [htotal, hnum] at hdecode
  rw [usbParseCfgDescr_eq hin hroom rfl usbFindExtra_shortHeader]
  simp only [shortHeader, usbCfgDescrSize, hdecode]
  rfl

theorem copyExtra_granted {env : Env} {src : Place} (hgrant : ∀ k, env.grant k = true) (hsrc : Inside src)
    (extra : Option (Block UInt8)) (extralen : Nat) (h : Heap) :
    ∃ extra' extralen' h', copyExtra env src extra extralen h = .ok (0, extra', extralen', h') := by
  rw [copyExtra]
  by_cases h0 : src.2 = 0
  · rw [if_pos h0]
    exact ⟨_, _, _, rfl⟩
  · have hle : src.2 ≤ src.1.length := hsrc
    simp only [if_neg h0, calloc, hgrant, ↓reduceIte, memcpy, if_pos hle]
    exact ⟨_, _, _, rfl⟩

theorem parseCloud_growing (h : 8 ≤ total) (htt : total < total') (ht' : total' < 65536) (hn0 : 0 < n) (hn : n < 256)
    {slot : UsbConfigDescriptor} (hslot : slot.descr.wTotalLength = total) (extra : Place) (hp : Heap) :
    parseCloud (growing total total' n) index (cutCloud total total' n) extra slot hp = .error .badRead := by
  have hlen : (cutCloud total total' n).length = total := length_cutCloud h
  have hin : Inside (cutCloud total total' n, total) := Nat.le_of_eq hlen.symm
  have hheader := @usbParseCfgDescr_eq _ slot.descr _ hin (by simp only; omega) rfl (usbFindExtra_cutCloud h)
  obtain ⟨htot, hnum⟩ := decode_cfg_header hin (by omega) slot.descr
  rw [if_pos (by omega)] at htot hnum
  have hsrc : Inside (List.replicate (total - 8) (1 : UInt8) ++ [1, 4, 0], total - 8) := by
    simp only [Inside, List.length_append, List.length_replicate]
    omega
  obtain ⟨extra', extralen', h', hcopy⟩ :=
    @copyExtra_granted (growing total total' n) _ (fun _ => rfl) hsrc slot.extra slot.extralen hp
  rw [parseCloud, hslot, hheader]
  simp only [bind, Except.bind, Option.elim_some, hcopy, ne_eq, not_true_eq_false, ↓reduceIte]
  refine parseInterfaces_badRead rfl ?_ ?_
  · simp only [hnum]
    rw [show numInterfaces (cutCloud total total' n) = n from low_eq hn]
    exact hn0
  · simp only [htot]
    rw [show totalLength (cutCloud total total' n) = total' from low_high ht']
    exact findInterface_cutCloud h htt

theorem growing_overruns (h : 8 ≤ total) (htt : total < total') (ht' : total' < 65536) (hn0 : 0 < n) (hn : n < 256)
    (slot : UsbConfigDescriptor) (hp : Heap) :
    usbParseConfig (growing total total' n) index slot hp = .error .badRead := by
  have hlen : (cutCloud total total' n).length = total := length_cutCloud h
  have hcloud : ((growing total total' n).cloud index).bytes total = cutCloud total total' n :=
    List.take_of_length_le (Nat.le_of_eq hlen)
  have hrval : ((growing total total' n).cloud index).rval total = total := by
    show (((cutCloud total total' n).take total).length : Int) = total
    rw [List.take_of_length_le (Nat.le_of_eq hlen), hlen]
  have hfirst := usbParseCfgDescr_shortHeader (Nat.lt_trans htt ht') hn slot.descr
  have hsize : ¬((growing total total' n).config index).rval usbCfgDescrSize < usbCfgDescrSize := Int.lt_irrefl 9
  have hbytes : ((growing total total' n).config index).bytes usbCfgDescrSize = shortHeader total n := rfl
  have hgrant (k : Nat) : (growing total total' n).grant k = true := rfl
  rw [usbParseConfig, if_neg hsize, hbytes, hfirst]
  simp only [bind, Except.bind, Nat.lt_irrefl, ↓reduceIte, malloc, hgrant, hrval, ne_eq, not_true_eq_false, hcloud]
  rw [parseCloud_growing h htt ht' hn0 hn rfl]

end Run

/-- The parse of a configuration stays inside its cloud if the second read declares no
more bytes than the first one, or no interfaces. For every other pair of lengths
there is a device whose parse leaves the cloud. -/
theorem config_parse_bounds (index : Nat) :
    (∀ env slot h, Agrees env index → Safe (usbParseConfig env index slot h)) ∧
      ∀ total total' n, 8 ≤ total → total' < 65536 → n < 256 →
        ((∀ env, Declares env index total total' n → ∀ slot h, Safe (usbParseConfig env index slot h)) ↔
          total' ≤ total ∨ n = 0) := by
  constructor
  · intro env slot h hc
    exact usbParseConfig_safe hc slot h
  · intro total total' n h ht' hn
    constructor
    · intro hall
      by_contra hcon
      simp only [not_or, Nat.not_le] at hcon
      obtain ⟨htt, hn0⟩ := hcon
      have hdecl := declares_growing index h (Nat.lt_trans htt ht') ht' hn
      have hrun := @growing_overruns total total' n index h htt ht' (Nat.pos_of_ne_zero hn0) hn
        UsbConfigDescriptor.zero ⟨0, [], []⟩
      have hsafe := hall _ hdecl UsbConfigDescriptor.zero ⟨0, [], []⟩
      rw [Safe, hrun] at hsafe
      exact nomatch hsafe
    · intro hc env hdecl slot h
      refine usbParseConfig_safe ?_ slot h
      simp only [Agrees, Confined, hdecl.first_total, hdecl.second_total, hdecl.second_interfaces]
      exact hc

/-- A configuration of 12 bytes that declares 200 bytes when it is read again. -/
theorem growing_unsafe :
    Declares (growing 12 200 1) 0 12 200 1 ∧
      ¬Safe (usbParseConfig (growing 12 200 1) 0 UsbConfigDescriptor.zero ⟨0, [], []⟩) := by
  constructor
  · constructor <;> decide
  · rw [Safe, growing_overruns (by decide) (by decide) (by decide) (by decide) (by decide)]
    exact nofun

end OiUserland.Libusb.Overruns
