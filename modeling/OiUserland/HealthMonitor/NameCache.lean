import Mathlib.Algebra.Group.Nat.Defs
import Mathlib.Data.List.Chain

namespace OiUserland.HealthMonitor.NameCache

/-- The variables of the DNLC node. -/
structure Dnlc where
  firsttime : Int
  lasthits : BitVec 32
  lastmisses : BitVec 32
  prevhits : BitVec 32
  prevmisses : BitVec 32
  prevtime : BitVec 64
  hits : BitVec 64
  misses : BitVec 64
  hitrate : BitVec 64
  refrate : BitVec 64

def start : Dnlc := ⟨1, 0, 0, 0, 0, 0, 0, 0, 0, 0⟩

def div (a b : BitVec 64) : Option (BitVec 64) := if b = 0 then none else some (a.sdiv b)

/-- What time() and krgetncstatdetail give: the counters, or a failure. -/
structure Sample where
  curtime : BitVec 64
  counters : Option (BitVec 64 × BitVec 64)

def lastCounters (s : Dnlc) (hits misses : BitVec 64) : BitVec 32 × BitVec 32 :=
  if s.firsttime = 1 then (hits.truncate 32, misses.truncate 32) else (s.prevhits, s.prevmisses)

def rates (newhits refrate elapsed : BitVec 64) : Option (BitVec 64 × BitVec 64) :=
  if refrate = 0 then some (100, refrate)
  else do
    let hitrate ← div (100 * newhits) refrate
    let refrate ← div refrate elapsed
    some (hitrate, refrate)

def refreshDNLCData (x : Sample) (s : Dnlc) : Option Dnlc :=
  if s.prevtime ≠ x.curtime then do
    let counters := x.counters.getD (0, 0)
    let last := lastCounters s counters.1 counters.2
    let newhits := counters.1 - last.1.signExtend 64
    let newmisses := counters.2 - last.2.signExtend 64
    let r ← rates newhits (newhits + newmisses) (x.curtime - s.prevtime)
    some ⟨0, last.1, last.2, counters.1.truncate 32, counters.2.truncate 32, x.curtime, counters.1, counters.2, r.1, r.2⟩
  else some s

def run (xs : List Sample) : Option Dnlc := xs.foldlM (fun s x => refreshDNLCData x s) start

structure Reading where
  curtime : BitVec 64
  hits : BitVec 64
  misses : BitVec 64

def Reading.sample (x : Reading) : Sample := ⟨x.curtime, some (x.hits, x.misses)⟩

/-- Neither the time nor a counter decreases. -/
structure Before (p c : Reading) : Prop where
  curtime : p.curtime.toNat ≤ c.curtime.toNat
  hits : p.hits.toNat ≤ c.hits.toNat
  misses : p.misses.toNat ≤ c.misses.toNat

def newHits (p c : Reading) : Nat := c.hits.toNat - p.hits.toNat

def newReferences (p c : Reading) : Nat := newHits p c + (c.misses.toNat - p.misses.toNat)

structure Rates (p c : Reading) (s : Dnlc) : Prop where
  hitrate : s.hitrate.toInt = if newReferences p c = 0 then 100 else ((100 * newHits p c / newReferences p c : Nat) : Int)
  bounds : 0 ≤ s.hitrate.toInt ∧ s.hitrate.toInt ≤ 100
  refrate : s.refrate.toInt = ((newReferences p c / (c.curtime.toNat - p.curtime.toNat) : Nat) : Int)

/-- The counters are kept in an int, and the rates are computed in a long. -/
structure Fits (p c : Reading) : Prop where
  hits : p.hits.toNat < 2 ^ 31
  misses : p.misses.toNat < 2 ^ 31
  percent : 100 * newHits p c < 2 ^ 63
  references : newReferences p c < 2 ^ 63

def lastTime (ys : List Reading) : BitVec 64 := (ys.getLast?.map Reading.curtime).getD 0

def effective (xs : List Reading) : List Reading :=
  xs.foldl (fun ys x => if lastTime ys = x.curtime then ys else ys ++ [x]) []

theorem effective_snoc (xs : List Reading) (x : Reading) :
    effective (xs ++ [x]) = if lastTime (effective xs) = x.curtime then effective xs else effective xs ++ [x] :=
  List.foldl_append ..

theorem effective_subset (xs : List Reading) : ∀ y ∈ effective xs, y ∈ xs := by
  induction xs using List.reverseRecOn with
  | nil => exact fun y hy => hy
  | append_singleton xs x ih =>
      intro y hy
      rw [effective_snoc] at hy
      split at hy
      · exact List.mem_append_left _ (ih y hy)
      · rcases List.mem_append.mp hy with hin | hin
        · exact List.mem_append_left _ (ih y hin)
        · exact List.mem_append_right _ hin

section Refresh

variable {p c x : Reading} {s s' : Dnlc}

theorem rates_eq (newhits refrate : BitVec 64) {elapsed : BitVec 64} (h : elapsed ≠ 0) :
    rates newhits refrate elapsed =
      some (if refrate = 0 then 100 else (100 * newhits).sdiv refrate, if refrate = 0 then 0 else refrate.sdiv elapsed) := by
  unfold rates
  by_cases hzero : refrate = 0
  · rw [if_pos hzero, if_pos hzero, if_pos hzero, hzero]
  · rw [if_neg hzero, if_neg hzero, if_neg hzero, div, if_neg hzero, div, if_neg h]
    rfl

structure Kept (c : Reading) (s : Dnlc) : Prop where
  firsttime : s.firsttime = 0
  prevhits : s.prevhits = c.hits.truncate 32
  prevmisses : s.prevmisses = c.misses.truncate 32
  prevtime : s.prevtime = c.curtime

def Computed (s : Dnlc) (x : Reading) (s' : Dnlc) : Prop :=
  let newhits := x.hits - s.prevhits.signExtend 64
  let newmisses := x.misses - s.prevmisses.signExtend 64
  rates newhits (newhits + newmisses) (x.curtime - s.prevtime) = some (s'.hitrate, s'.refrate)

theorem refresh_idle (h : s.prevtime = x.curtime) : refreshDNLCData x.sample s = some s := if_neg fun hne => hne h

theorem refresh_effective (h : s.prevtime ≠ x.curtime) :
    ∃ s', refreshDNLCData x.sample s = some s' ∧ Kept x s' ∧ (s.firsttime = 0 → Computed s x s') := by
  have hdt : x.curtime - s.prevtime ≠ 0 := fun hzero => h (by bv_omega)
  have hrun : refreshDNLCData x.sample s = _ := if_pos h
  simp only [Reading.sample, Option.getD_some, rates_eq _ _ hdt, Option.bind_eq_bind, Option.bind_some] at hrun
  refine ⟨_, hrun, ⟨rfl, rfl, rfl, rfl⟩, fun hfirst => ?_⟩
  have hlast : lastCounters s x.hits x.misses = (s.prevhits, s.prevmisses) := by
    rw [lastCounters, if_neg]
    rw [hfirst]
    decide
  rw [hlast]
  exact rates_eq _ _ hdt

theorem signExtend_truncate {a : BitVec 64} (ha : a.toNat < 2 ^ 31) : (a.truncate 32).signExtend 64 = a := by
  have hmsb : (a.truncate 32).msb = false := by
    rw [BitVec.msb_eq_false_iff_two_mul_lt, BitVec.truncate_eq_setWidth, BitVec.toNat_setWidth]
    omega
  rw [BitVec.signExtend_eq_setWidth_of_msb_false hmsb]
  refine BitVec.eq_of_toNat_eq ?_
  rw [BitVec.truncate_eq_setWidth, BitVec.toNat_setWidth, BitVec.toNat_setWidth]
  omega

theorem toNat_new {a b : BitVec 64} (hle : a.toNat ≤ b.toNat) : (b - a).toNat = b.toNat - a.toNat :=
  BitVec.toNat_sub_of_le (BitVec.le_def.mpr hle)

theorem toInt_sdiv {a b : BitVec 64} (ha : a.toNat < 2 ^ 63) (hb : b.toNat < 2 ^ 63) :
    (a.sdiv b).toInt = ((a.toNat / b.toNat : Nat) : Int) := by
  have hmsb {c : BitVec 64} (hc : c.toNat < 2 ^ 63) : c.msb = false := by
    rw [BitVec.msb_eq_false_iff_two_mul_lt]
    omega
  have hle : a.toNat / b.toNat ≤ a.toNat := Nat.div_le_self _ _
  rw [BitVec.sdiv_eq, hmsb ha, hmsb hb]
  change (a / b).toInt = _
  rw [BitVec.toInt_eq_toNat_of_lt, BitVec.toNat_udiv]
  rw [BitVec.toNat_udiv]
  omega

theorem newHits_le (p c : Reading) : newHits p c ≤ newReferences p c := Nat.le_add_right _ _

theorem rates_of_fits (hkept : Kept p s) (hc : Computed s c s') (hne : s.prevtime ≠ c.curtime) (hle : Before p c)
    (htime : c.curtime.toNat < 2 ^ 63) (hfits : Fits p c) : Rates p c s' := by
  have hdt : c.curtime - s.prevtime ≠ 0 := fun hzero => hne (by bv_omega)
  have helapsed : (c.curtime - s.prevtime).toNat = c.curtime.toNat - p.curtime.toNat := by
    rw [hkept.prevtime, toNat_new hle.curtime]
  have hpercent := hfits.percent
  have hreferences := hfits.references
  unfold Computed at hc
  rw [hkept.prevhits, hkept.prevmisses, signExtend_truncate hfits.hits, signExtend_truncate hfits.misses] at hc
  have hhits : (c.hits - p.hits).toNat = newHits p c := toNat_new hle.hits
  have hrefs : (c.hits - p.hits + (c.misses - p.misses)).toNat = newReferences p c := by
    rw [BitVec.toNat_add, hhits, toNat_new hle.misses]
    exact Nat.mod_eq_of_lt (Nat.lt_trans hreferences (by decide))
  have hhundred : (100 * (c.hits - p.hits)).toNat = 100 * newHits p c := by
    rw [BitVec.toNat_mul, hhits]
    exact Nat.mod_eq_of_lt (Nat.lt_trans hpercent (by decide))
  dsimp only at hc
  rw [rates_eq _ _ hdt] at hc
  obtain ⟨hhit, href⟩ := Prod.mk.inj (Option.some.inj hc)
  have hzero : c.hits - p.hits + (c.misses - p.misses) = 0 ↔ newReferences p c = 0 := by
    rw [← hrefs]
    exact ⟨fun h => by rw [h]; rfl, fun h => BitVec.eq_of_toNat_eq h⟩
  by_cases hnone : newReferences p c = 0
  · rw [if_pos (hzero.mpr hnone)] at hhit href
    have hhundred : (100 : BitVec 64).toInt = 100 := rfl
    refine ⟨?_, ?_, ?_⟩
    · rw [if_pos hnone, ← hhit, hhundred]
    · rw [← hhit, hhundred]
      exact ⟨by decide, by decide⟩
    · rw [← href, hnone, Nat.zero_div]
      rfl
  · rw [if_neg (hzero.not.mpr hnone)] at hhit href
    have hhit' : s'.hitrate.toInt = ((100 * newHits p c / newReferences p c : Nat) : Int) := by
      rw [← hhit, toInt_sdiv (by rwa [hhundred]) (by rwa [hrefs]), hhundred, hrefs]
    have hbound : 100 * newHits p c / newReferences p c ≤ 100 :=
      Nat.div_le_of_le_mul ((Nat.mul_le_mul_left 100 (newHits_le p c)).trans_eq (Nat.mul_comm _ _))
    refine ⟨?_, ?_, ?_⟩
    · rw [if_neg hnone, hhit']
    · rw [hhit']
      exact ⟨Int.natCast_nonneg _, Int.ofNat_le.mpr hbound⟩
    · have hlt : c.curtime.toNat - p.curtime.toNat < 2 ^ 63 := Nat.lt_of_le_of_lt (Nat.sub_le _ _) htime
      rw [← href, toInt_sdiv (by rwa [hrefs]) (by rwa [helapsed]), hrefs, helapsed]

end Refresh

section Runs

variable {xs ys : List Reading} {x : Reading} {s s' : Dnlc}

def Tracked (ys : List Reading) (s : Dnlc) : Prop :=
  match ys.getLast? with
  | none => s = start
  | some c => Kept c s

theorem Tracked.lastTime (h : Tracked ys s) : s.prevtime = lastTime ys := by
  unfold Tracked at h
  unfold NameCache.lastTime
  cases hlast : ys.getLast? with
  | none =>
      rw [hlast] at h
      rw [h]
      rfl
  | some c =>
      rw [hlast] at h
      exact h.prevtime

/-- The rates after a run are those between the last two effective readings. -/
def Current (ys : List Reading) (s : Dnlc) : Prop := ∀ zs p c, ys = zs ++ [p, c] → Rates p c s

theorem run_snoc (xs : List Reading) (x : Reading) :
    run ((xs ++ [x]).map Reading.sample) = (run (xs.map Reading.sample)).bind (refreshDNLCData x.sample) := by
  unfold run
  rw [List.map_append, List.foldlM_append]
  cases (xs.map Reading.sample).foldlM (fun s x => refreshDNLCData x s) start with
  | none => rfl
  | some s => exact bind_pure (refreshDNLCData x.sample s)

theorem current_snoc (h : Tracked ys s) (hne : s.prevtime ≠ x.curtime) (hc : s.firsttime = 0 → Computed s x s')
    (hle : ∀ p ∈ ys, Before p x) (htime : x.curtime.toNat < 2 ^ 63) (hfits : (ys ++ [x]).IsChain Fits) :
    Current (ys ++ [x]) s' := by
  rintro zs p c heq
  have heq' : ys ++ [x] = (zs ++ [p]) ++ [c] := by rw [heq, List.append_assoc]; rfl
  obtain ⟨rfl, hxc⟩ := List.append_inj' heq' rfl
  obtain rfl := List.cons.inj hxc |>.1
  have hkept : Kept p s := by
    unfold Tracked at h
    rw [List.getLast?_concat] at h
    exact h
  have hfit : Fits p x := by
    rw [heq, List.isChain_append] at hfits
    exact List.isChain_pair.mp hfits.2.1
  exact rates_of_fits hkept (hc hkept.firsttime) hne (hle p (List.mem_append_right _ (List.mem_singleton_self p))) htime hfit

/-- Nothing is ever divided by 0, and if the counters fit the rates of a run are right. -/
theorem dnlc_rates (xs : List Reading) (horder : xs.Pairwise Before) (htimes : ∀ x ∈ xs, x.curtime.toNat < 2 ^ 63) :
    ∃ s, run (xs.map Reading.sample) = some s ∧ ((effective xs).IsChain Fits → Current (effective xs) s) := by
  have hrun : ∃ s, run (xs.map Reading.sample) = some s ∧ Tracked (effective xs) s ∧
      ((effective xs).IsChain Fits → Current (effective xs) s) := by
    induction xs using List.reverseRecOn with
    | nil => exact ⟨start, rfl, rfl, fun _ zs p c h => by simp [effective] at h⟩
    | append_singleton xs x ih =>
        obtain ⟨horder', -, hbefore⟩ := List.pairwise_append.mp horder
        obtain ⟨s, hrun, htracked, hcurrent⟩ := ih horder' fun y hy => htimes y (List.mem_append_left _ hy)
        rw [run_snoc, hrun, Option.bind_some, effective_snoc, ← htracked.lastTime]
        by_cases hidle : s.prevtime = x.curtime
        · rw [if_pos hidle, refresh_idle hidle]
          exact ⟨s, rfl, htracked, hcurrent⟩
        · rw [if_neg hidle]
          obtain ⟨s', hs', hkept, hc⟩ := refresh_effective hidle
          refine ⟨s', hs', ?_, fun hfits => ?_⟩
          · unfold Tracked
            rw [List.getLast?_concat]
            exact hkept
          · refine current_snoc htracked hidle hc (fun p hp => ?_) (htimes x ?_) hfits
            · exact hbefore p (effective_subset xs p hp) x (List.mem_singleton_self x)
            · exact List.mem_append_right _ (List.mem_singleton_self x)
  obtain ⟨s, hs, -, hcurrent⟩ := hrun
  exact ⟨s, hs, hcurrent⟩

/-- Ten hits and ten misses in five seconds. -/
theorem dnlc_rates_half : ∃ s, run ([⟨1, 5, 5⟩, ⟨6, 15, 15⟩].map Reading.sample) = some s ∧
    ((effective [⟨1, 5, 5⟩, ⟨6, 15, 15⟩]).IsChain Fits → Current (effective [⟨1, 5, 5⟩, ⟨6, 15, 15⟩]) s) := by
  refine dnlc_rates [⟨1, 5, 5⟩, ⟨6, 15, 15⟩] ?_ ?_
  · exact List.pairwise_pair.mpr ⟨by decide, by decide, by decide⟩
  · decide

/-- The hits do not fit into an int, and a second that has only a miss gets a hit rate of 99. -/
theorem dnlc_rates_truncated :
    ¬ ∀ xs : List Reading, xs.Pairwise Before → (∀ x ∈ xs, x.curtime.toNat < 2 ^ 63) →
      ∃ s, run (xs.map Reading.sample) = some s ∧ Current (effective xs) s := by
  intro hall
  obtain ⟨s, hrun, hcurrent⟩ := hall [⟨1, 2147483648, 0⟩, ⟨2, 2147483648, 1⟩] (List.pairwise_pair.mpr ⟨by decide, by decide, by decide⟩) (by decide)
  have hs : run ([⟨1, 2147483648, 0⟩, ⟨2, 2147483648, 1⟩].map Reading.sample) = some _ := rfl
  obtain rfl := Option.some.inj (hs.symm.trans hrun)
  have hrates := hcurrent [] ⟨1, 2147483648, 0⟩ ⟨2, 2147483648, 1⟩ rfl
  exact absurd hrates.hitrate (by decide)

end Runs

end OiUserland.HealthMonitor.NameCache
