import OiUserland.HealthMonitor.DiskLists

namespace OiUserland.HealthMonitor.DeviceNames

open Lib.Chains DiskNames Iostat DiskLists

variable {ndkmap : Nat}

/-- A device name is a string of the list of disks that a run has built. There is no text if it has
been read from behind the partitions of an entry. -/
structure DeviceName (ndkmap : Nat) where
  generation : Nat
  text : Option (Text ndkmap)

/-- The kstats that a run finds, and the disks. -/
structure Update where
  kcChain : List KStat
  disks : List Insertion

def lookupName (dl : List (DiskListEnt ndkmap)) (generation : Nat) (ksName : List Char) : Option (DeviceName ndkmap) :=
  match lookupKsName ksName dl with
  | none => some ⟨generation, none⟩
  | some t => t.map fun t => ⟨generation, some t⟩

def Update.chain (ndkmap : Nat) (u : Update) (generation : Nat) : Chain (DeviceName ndkmap) :=
  ⟨u.kcChain, !(mkListOfDisks ndkmap u.disks).isEmpty, lookupName (mkListOfDisks ndkmap u.disks) generation⟩

def chains (ndkmap : Nat) (us : List Update) : List (Chain (DeviceName ndkmap)) :=
  us.zipIdx.map fun t => t.1.chain ndkmap t.2

def Belongs (e : DiskListEnt ndkmap) (ksName : List Char) : Prop :=
  ∃ k : KsName, k.text = ksName ∧ e.dtype = k.driver ∧ e.dnum = k.num

def Owned (dl : List (DiskListEnt ndkmap)) (generation : Nat) (ksName : List Char) (deviceName : Option (DeviceName ndkmap)) : Prop :=
  ∀ n, deviceName = some n → n.generation = generation ∧ ∃ t, n.text = some t ∧ t.ent ∈ dl ∧ Belongs t.ent ksName

/-- The reading of the name does not stray to another type. If an entry is found, the name is made of its driver
and its instance, and its letter is not the one behind the partitions. -/
structure Safe (dl : List (DiskListEnt ndkmap)) (ksName : List Char) : Prop where
  strays : rest ksName ≠ [] → ¬ Strays dl (letters ksName) (atoi (rest ksName))
  own : rest ksName ≠ [] → Exact dl (letters ksName) (atoi (rest ksName)) →
    partitionOf ndkmap ksName ≠ ndkmap ∧
      ∃ k : KsName, k.text = ksName ∧ k.driver = letters ksName ∧ (k.num : Int) = atoi (rest ksName)

section Lookups

variable {dl : List (DiskListEnt ndkmap)} {e : DiskListEnt ndkmap} {ksName : List Char} {generation : Nat}

theorem partitionOf_le (ndkmap : Nat) (s : List Char) : partitionOf ndkmap s ≤ ndkmap := by
  unfold partitionOf
  split
  · omega
  · dsimp only
    split_ifs <;> omega

theorem partitionOf_ge (ndkmap : Nat) (s : List Char) : -1 ≤ partitionOf ndkmap s := by
  unfold partitionOf
  split
  · omega
  · dsimp only
    split_ifs <;> omega

theorem textOf_none (e : DiskListEnt ndkmap) (s : List Char) : textOf e (partitionOf ndkmap s) = none ↔ partitionOf ndkmap s = ndkmap := by
  have hle := partitionOf_le ndkmap s
  have hge := partitionOf_ge ndkmap s
  unfold textOf
  split_ifs with hnone hlt hsome
  · exact iff_of_false nofun (by omega)
  · exact iff_of_false nofun (by omega)
  · exact iff_of_true rfl (by omega)
  · exact iff_of_false nofun (by omega)

theorem belongs_iff (hsorted : dl.Pairwise Le) (he : Landed dl (letters ksName) (atoi (rest ksName)) e) :
    Belongs e ksName ↔ ¬ Strays dl (letters ksName) (atoi (rest ksName)) ∧
      ∃ k : KsName, k.text = ksName ∧ k.driver = letters ksName ∧ (k.num : Int) = atoi (rest ksName) := by
  constructor
  · rintro ⟨k, rfl, htype, hnum⟩
    have hdriver : k.driver = letters k.text := by
      by_cases halpha : ∀ c ∈ k.driver, c.isAlpha = true
      · exact (alpha_driver k halpha).1.symm
      · exact absurd (htype ▸ he.dtype_le) (not_le.mpr (letters_lt k halpha))
    refine ⟨?_, k, rfl, hdriver, hnum.symm.trans he.dnum_eq⟩
    rintro ⟨e', he', hne⟩
    exact hne (he.unique hsorted he' ▸ htype.trans hdriver)
  · rintro ⟨hstrays, k, htext, hdriver, hnum⟩
    have htype : e.dtype = letters ksName := by
      by_contra hne
      exact hstrays ⟨e, he, hne⟩
    exact ⟨k, htext, htype.trans hdriver.symm, he.dnum_eq.trans hnum.symm⟩

theorem owned_iff (hsorted : dl.Pairwise Le) (hne : dl ≠ []) :
    Owned dl generation ksName (lookupName dl generation ksName) ↔ Safe dl ksName := by
  by_cases hnone : rest ksName ≠ [] → ∀ e, ¬ Landed dl (letters ksName) (atoi (rest ksName)) e
  · refine iff_of_true ?_ ⟨fun hrest => ((not_landed_iff hsorted).mp (hnone hrest)).2,
      fun hrest hexact => absurd hexact ((not_landed_iff hsorted).mp (hnone hrest)).1⟩
    rw [lookupName, lookup_nothing hsorted hne hnone]
    exact nofun
  · push Not at hnone
    obtain ⟨hrest, e, he⟩ := hnone
    rw [lookupName, lookup_landed hsorted hrest he]
    have hsafe : Safe dl ksName ↔ Belongs e ksName ∧ partitionOf ndkmap ksName ≠ ndkmap := by
      rw [belongs_iff hsorted he]
      constructor
      · intro h
        have hstrays := h.strays hrest
        have htype : e.dtype = letters ksName := by
          by_contra hne
          exact hstrays ⟨e, he, hne⟩
        obtain ⟨hletter, hown⟩ := h.own hrest ⟨e, he.mem, htype, he.dnum_eq⟩
        exact ⟨⟨hstrays, hown⟩, hletter⟩
      · rintro ⟨⟨hstrays, hown⟩, hletter⟩
        exact ⟨fun _ => hstrays, fun _ _ => ⟨hletter, hown⟩⟩
    rw [hsafe]
    cases htext : textOf e (partitionOf ndkmap ksName) with
    | none =>
        refine iff_of_false (fun h => ?_) fun h => h.2 ((textOf_none e ksName).mp htext)
        obtain ⟨-, t, ht, -⟩ := h _ rfl
        cases ht
    | some t =>
        have hletter : partitionOf ndkmap ksName ≠ ndkmap := fun heq => by
          rw [(textOf_none e ksName).mpr heq] at htext
          cases htext
        have hent := textOf_ent htext
        constructor
        · intro h
          obtain ⟨-, t', ht', -, hbelongs⟩ := h _ rfl
          obtain rfl : t = t' := Option.some.inj ht'
          exact ⟨hent ▸ hbelongs, hletter⟩
        · rintro ⟨hbelongs, -⟩ _ ⟨rfl⟩
          exact ⟨rfl, t, rfl, hent ▸ he.mem, hent ▸ hbelongs⟩

theorem nameOf_chain (u : Update) (generation : Nat) (k : KStat) :
    Owned (mkListOfDisks ndkmap u.disks) generation k.ksName ((u.chain ndkmap generation).nameOf k) ↔
      Safe (mkListOfDisks ndkmap u.disks) k.ksName := by
  cases hdl : mkListOfDisks ndkmap u.disks with
  | nil =>
      have hname : (u.chain ndkmap generation).nameOf k = none := by
        rw [Chain.nameOf, Update.chain, hdl]
        rfl
      rw [hname]
      refine iff_of_true nofun ⟨fun _ => ?_, fun _ => ?_⟩
      · rintro ⟨e, he, -⟩
        cases he.mem
      · rintro ⟨e, he, -⟩
        cases he
  | cons e l =>
      have hname : (u.chain ndkmap generation).nameOf k = lookupName (mkListOfDisks ndkmap u.disks) generation k.ksName := by
        rw [Chain.nameOf, Update.chain, hdl]
        rfl
      rw [← hdl, hname]
      exact owned_iff (mkListOfDisks_built ndkmap u.disks).sorted (hdl ▸ List.cons_ne_nil e l)

end Lookups

section Runs

variable {s : IoState (DeviceName ndkmap)} {chars : DeviceName ndkmap → List Char} {sorted : List (Addr × KStat)}
  {aside : Cells (DeviceName ndkmap)}

def NamesOwned (s : IoState (DeviceName ndkmap)) (dl : List (DiskListEnt ndkmap)) (generation : Nat) : Prop :=
  ∃ list, IsChain (linkOf DiskInfo.next s.heap) s.firstdisk list ∧
    ∀ a ∈ list, ∃ d k, s.heap.lookup a = some d ∧ d.ks = some k ∧ Owned dl generation k.ksName d.deviceName

theorem namesOwned_iff (u : Update) (generation : Nat) (hkept : Kept s (cellsOf (u.chain ndkmap generation) sorted) aside)
    (hcurrent : Current chars (u.chain ndkmap generation) s sorted) :
    NamesOwned s (mkListOfDisks ndkmap u.disks) generation ↔
      ∀ k ∈ accepted u.kcChain, Safe (mkListOfDisks ndkmap u.disks) k.ksName := by
  have hlist := hkept.current
  have hchain := hlist.chain
  rw [fst_cellsOf] at hchain
  have hnode (t : Addr × KStat) (ht : t ∈ sorted) : ∃ d, s.heap.lookup t.1 = some d ∧ d.ks = some t.2 ∧
      d.deviceName = (u.chain ndkmap generation).nameOf t.2 := by
    obtain ⟨d, hd, hcontent⟩ := hlist.node ht
    exact ⟨d, hd, congrArg DiskInfo.ks hcontent, congrArg DiskInfo.deviceName hcontent⟩
  constructor
  · rintro ⟨list, hchain', howned⟩ k hk
    obtain rfl := hchain.unique hchain'
    obtain ⟨t, ht, rfl⟩ := List.mem_map.mp (hcurrent.kstats.mem_iff.mpr hk)
    obtain ⟨d, hd, hks, hname⟩ := hnode t ht
    obtain ⟨d', k, hd', hks', h⟩ := howned t.1 (List.mem_map_of_mem ht)
    obtain rfl := Option.some.inj (hd.symm.trans hd')
    obtain rfl := Option.some.inj (hks.symm.trans hks')
    rw [hname] at h
    exact (nameOf_chain u generation t.2).mp h
  · intro hsafe
    refine ⟨_, hchain, fun a ha => ?_⟩
    obtain ⟨t, ht, rfl⟩ := List.mem_map.mp ha
    obtain ⟨d, hd, hks, hname⟩ := hnode t ht
    refine ⟨d, t.2, hd, hks, ?_⟩
    rw [hname]
    exact (nameOf_chain u generation t.2).mpr (hsafe t.2 (hcurrent.kstats.mem_iff.mp (List.mem_map_of_mem ht)))

theorem chains_concat (ndkmap : Nat) (us : List Update) (u : Update) :
    chains ndkmap (us ++ [u]) = chains ndkmap us ++ [u.chain ndkmap us.length] := by
  simp only [chains, List.zipIdx_append, List.map_append, List.zipIdx_cons, List.zipIdx_nil, List.map_cons, List.map_nil,
    Nat.zero_add]

/-- The names after a run are those of the list of disks that it has built, each of its own kstat, just if the
name of every kstat is safe. The earlier runs do not matter. -/
theorem device_names (chars : DeviceName ndkmap → List Char) (us : List Update) (u : Update) :
    ∃ s searches, initRuns chars (chains ndkmap (us ++ [u])) = some (s, searches) ∧
      (NamesOwned s (mkListOfDisks ndkmap u.disks) us.length ↔
        ∀ k ∈ accepted u.kcChain, Safe (mkListOfDisks ndkmap u.disks) k.ksName) := by
  obtain ⟨s, searches, list, aside, hrun, hkept, -, hlast⟩ := initRuns_spec chars (chains ndkmap (us ++ [u]))
  rw [chains_concat] at hlast
  obtain ⟨sorted, rfl, hcurrent⟩ := hlast _ (List.getLast?_concat ..)
  exact ⟨s, searches, hrun, namesOwned_iff u us.length hkept hcurrent⟩

def sd1Kstat : KStat where
  ksType := kstatTypeIO
  ksClass := ['d', 'i', 's', 'k']
  ksModule := ['s', 'd']
  ksInstance := 1
  ksName := sd1.text
  isInt := by decide

/-- The node of sd1 gets the name of cmdk1. -/
theorem other_name_given : ¬ ∀ (ndkmap : Nat) (chars : DeviceName ndkmap → List Char) (us : List Update) (u : Update) s searches,
    initRuns chars (chains ndkmap (us ++ [u])) = some (s, searches) →
      NamesOwned s (mkListOfDisks ndkmap u.disks) us.length := by
  intro hall
  let u : Update := ⟨[sd1Kstat], twoDisks⟩
  obtain ⟨s, searches, list, aside, hrun, hkept, -, hlast⟩ := initRuns_spec (fun _ => []) (chains 16 [u])
  obtain ⟨sorted, rfl, hcurrent⟩ := hlast (u.chain 16 0) rfl
  have hsafe := (namesOwned_iff u 0 hkept hcurrent).mp (hall 16 (fun _ => []) [] u s searches hrun) sd1Kstat
    (List.mem_singleton_self _)
  refine hsafe.strays (List.cons_ne_nil _ _) ⟨(disk ['c', 'm', 'd', 'k'] ['c', '0'] 1).entry ['c', 'm', 'd', 'k'], ?_, by decide⟩
  refine ⟨⟨(disk ['s', 'd'] ['c', '1'] 0).entry ['s', 'd'], List.mem_cons_self .., rfl⟩,
    ⟨[(disk ['s', 'd'] ['c', '1'] 0).entry ['s', 'd']], [], rfl, ?_⟩, by decide, rfl⟩
  intro e he _
  obtain rfl := List.mem_singleton.mp he
  decide

end Runs

end OiUserland.HealthMonitor.DeviceNames
