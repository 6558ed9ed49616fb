import OiUserland.Fetch.Checks

namespace OiUserland.Fetch.DownloadPaths

open Checks (localSchemes urlScheme)
open FindHash (basename)

/-- DOWNLOAD_SEARCH_PATH, DOWNLOAD_FALLBACK_PATH, and whether urlparse accepts the network location
of a url: it raises an exception if its brackets are unbalanced or its characters misleading. -/
structure Env where
  searchPath : Option (List Char)
  fallbackPath : Option (List Char)
  acceptsNetloc : List Char → Bool

inductive Filenames
  | none
  | one (filename : List Char)
  | many (filenames : List (List Char))
  deriving DecidableEq

section Model

variable (env : Env)

def clean (url : List Char) : List Char :=
  (url.dropWhile fun c => c.toNat ≤ 32).filter fun c => c ≠ '\t' ∧ c ≠ '\r' ∧ c ≠ '\n'

def afterScheme (url : List Char) : List Char :=
  if urlScheme url = [] then url else (url.dropWhile (· ≠ ':')).tail

def urlparse (url : List Char) : Option (List Char) :=
  let url := clean url
  match afterScheme url with
  | '/' :: '/' :: rest =>
      if env.acceptsNetloc (rest.takeWhile fun c => c ≠ '/' ∧ c ≠ '?' ∧ c ≠ '#') then some (urlScheme url) else none
  | _ => some (urlScheme url)

def Filenames.list : Filenames → Option (List (List Char))
  | .none => Option.none
  | .one filename => some [filename]
  | .many filenames => some filenames

def paths : Option (List Char) → List (List Char)
  | some (c :: tmp) => (c :: tmp).splitOn ' '
  | _ => []

def under (bases : List (List Char)) (filename : List Char) : List (List Char) :=
  bases.map fun base => base ++ '/' :: basename filename

def addFile (search urls : List (List Char)) (filename : List Char) : List (List Char) :=
  let urls := urls ++ under search filename
  filename :: if filename ∈ urls then urls.erase filename else urls

def addUrl (urls : List (List Char)) : Option (List Char) → Option (List (List Char))
  | none => some urls
  | some url => if url ∈ urls then some urls else (urlparse env url).map fun _ => urls ++ [url]

def gather (search : List (List Char)) (filenames : Filenames) (url : Option (List Char)) : Option (List (List Char)) :=
  match filenames.list with
  | none => addUrl env [] url
  | some filenames => (addUrl env (filenames.foldl (addFile search) []) url).map fun urls =>
      urls ++ filenames.flatMap (under (paths env.fallbackPath))

def sortEntry (sorted : List (List Char) × List (List Char)) (entry : List Char) : Option (List (List Char) × List (List Char)) :=
  (urlparse env entry).map fun scheme =>
    if scheme ∈ localSchemes then (sorted.1 ++ [entry], sorted.2) else (sorted.1, sorted.2 ++ [entry])

def sortUrls (urls : List (List Char)) : Option (List (List Char)) :=
  (urls.foldlM (sortEntry env) ([], [])).map fun sorted => sorted.1 ++ sorted.2

structure Call where
  returned : Option (List (List Char))
  search : List (List Char)
  deriving DecidableEq

def downloadPaths (search : List (List Char)) (filenames : Filenames) (url : Option (List Char)) : Call :=
  let search := if filenames.list = none then search else search ++ paths env.searchPath
  ⟨(gather env search filenames url).bind (sortUrls env), search⟩

end Model

variable {env : Env} {search urls fs : List (List Char)} {filenames : Filenames} {url : Option (List Char)} {e f : List Char}

def isLocal (env : Env) (entry : List Char) : Bool := (urlparse env entry).any (· ∈ localSchemes)

/-- The places to look: the files themselves, every base of the list and of the two variables with
every file, and the url. -/
def Entry (env : Env) (search : List (List Char)) (filenames : Filenames) (url : Option (List Char)) (e : List Char) : Prop :=
  (∃ fs, filenames.list = some fs ∧ (e ∈ fs ∨ ∃ f ∈ fs, ∃ base ∈ search ++ paths env.searchPath ++ paths env.fallbackPath,
    e = base ++ '/' :: basename f)) ∨ url = some e

theorem mem_under {bases : List (List Char)} : e ∈ under bases f ↔ ∃ base ∈ bases, e = base ++ '/' :: basename f := by
  rw [under, List.mem_map]
  exact exists_congr fun base => and_congr_right fun _ => eq_comm

theorem exists_under_append {a b : List (List Char)} :
    (∃ f ∈ fs, e ∈ under (a ++ b) f) ↔ (∃ f ∈ fs, e ∈ under a f) ∨ ∃ f ∈ fs, e ∈ under b f := by
  simp only [under, List.map_append, List.mem_append, and_or_left, exists_or]

theorem mem_addFile : e ∈ addFile search urls f ↔ e = f ∨ e ∈ urls ∨ e ∈ under search f := by
  have hmoved {l : List (List Char)} : (e ∈ f :: if f ∈ l then l.erase f else l) ↔ e = f ∨ e ∈ l := by
    by_cases hef : e = f
    · exact iff_of_true (List.mem_cons.mpr (.inl hef)) (.inl hef)
    · rw [List.mem_cons]
      refine or_congr_right ?_
      split
      · exact List.mem_erase_of_ne hef
      · exact Iff.rfl
  rw [addFile, hmoved, List.mem_append]

theorem mem_foldl_addFile : e ∈ fs.foldl (addFile search) urls ↔ e ∈ urls ∨ e ∈ fs ∨ ∃ f ∈ fs, e ∈ under search f := by
  induction fs generalizing urls with
  | nil => simp
  | cons f fs ih =>
      rw [List.foldl_cons, ih, mem_addFile, List.mem_cons, List.exists_mem_cons_iff]
      tauto

theorem mem_addUrl (h : addUrl env urls url = some fs) : e ∈ fs ↔ e ∈ urls ∨ url = some e := by
  cases url with
  | none =>
      cases h
      simp
  | some u =>
      rw [addUrl] at h
      split at h
      · next hmem =>
          cases h
          refine (or_iff_left_of_imp ?_).symm
          rintro ⟨rfl⟩
          exact hmem
      · obtain ⟨scheme, -, rfl⟩ := Option.map_eq_some_iff.mp h
        rw [List.mem_append, List.mem_singleton, Option.some.injEq, eq_comm]

theorem mem_gather (h : gather env (search ++ paths env.searchPath) filenames url = some urls) :
    e ∈ urls ↔ Entry env search filenames url e := by
  unfold gather at h
  unfold Entry
  cases hlist : filenames.list with
  | none =>
      rw [hlist] at h
      rw [mem_addUrl h]
      simp
  | some fs =>
      rw [hlist] at h
      obtain ⟨urls', hurl, rfl⟩ := Option.map_eq_some_iff.mp h
      rw [List.mem_append, mem_addUrl hurl, mem_foldl_addFile, List.mem_flatMap]
      simp only [← mem_under, exists_under_append, Option.some.injEq, exists_eq_left', List.not_mem_nil, false_or]
      exact or_right_comm.trans (or_congr_left or_assoc)

theorem gather_none (h : gather env search filenames url = none) : ∃ u, url = some u ∧ urlparse env u = none := by
  have hurl : ∃ urls, addUrl env urls url = none := by
    unfold gather at h
    split at h
    · exact ⟨_, h⟩
    · exact ⟨_, Option.map_eq_none_iff.mp h⟩
  obtain ⟨urls, hurl⟩ := hurl
  cases url with
  | none => cases hurl
  | some u =>
      rw [addUrl] at hurl
      split at hurl
      · cases hurl
      · exact ⟨u, rfl, Option.map_eq_none_iff.mp hurl⟩

theorem gather_head (h : gather env search filenames url = some urls) (hfile : filenames.list = some [f]) : ∃ tail, urls = f :: tail := by
  rw [gather, hfile] at h
  obtain ⟨urls', hurl, rfl⟩ := Option.map_eq_some_iff.mp h
  have hcons : ∃ tail, urls' = f :: tail := by
    cases url with
    | none =>
        cases hurl
        exact ⟨_, rfl⟩
    | some u =>
        rw [addUrl] at hurl
        split at hurl
        · cases hurl
          exact ⟨_, rfl⟩
        · obtain ⟨scheme, -, rfl⟩ := Option.map_eq_some_iff.mp hurl
          exact ⟨_, rfl⟩
  obtain ⟨tail, rfl⟩ := hcons
  exact ⟨_, rfl⟩

theorem isLocal_of_urlparse {scheme : List Char} (h : urlparse env e = some scheme) : isLocal env e = decide (scheme ∈ localSchemes) := by
  rw [isLocal, h]
  rfl

theorem foldlM_sortEntry {sorted : List (List Char) × List (List Char)} (h : ∀ e ∈ urls, urlparse env e ≠ none) :
    urls.foldlM (sortEntry env) sorted =
      some (sorted.1 ++ urls.filter (isLocal env), sorted.2 ++ urls.filter fun e => !isLocal env e) := by
  induction urls generalizing sorted with
  | nil => simp
  | cons e urls ih =>
      obtain ⟨scheme, hscheme⟩ := Option.ne_none_iff_exists'.mp (h e (List.mem_cons_self ..))
      have hrest := fun d hd => h d (List.mem_cons_of_mem e hd)
      have hlocal := isLocal_of_urlparse hscheme
      rw [List.foldlM_cons, sortEntry, hscheme, Option.map_some, Option.bind_eq_bind, Option.bind_some, ih hrest]
      by_cases hmem : scheme ∈ localSchemes
      · rw [decide_eq_true hmem] at hlocal
        rw [if_pos hmem, List.filter_cons_of_pos hlocal, List.filter_cons_of_neg (by simp [hlocal]), List.append_assoc]
        rfl
      · rw [decide_eq_false hmem] at hlocal
        rw [if_neg hmem, List.filter_cons_of_neg (by simp [hlocal]), List.filter_cons_of_pos (by simp [hlocal]), List.append_assoc]
        rfl

theorem sortUrls_eq (h : ∀ e ∈ urls, urlparse env e ≠ none) :
    sortUrls env urls = some (urls.filter (isLocal env) ++ urls.filter fun e => !isLocal env e) := by
  rw [sortUrls, foldlM_sortEntry h]
  rfl

theorem sortUrls_none (he : e ∈ urls) (h : urlparse env e = none) : sortUrls env urls = none := by
  have hfold (sorted : List (List Char) × List (List Char)) : urls.foldlM (sortEntry env) sorted = none := by
    induction urls generalizing sorted with
    | nil => cases he
    | cons d urls ih =>
        rw [List.foldlM_cons, Option.bind_eq_bind]
        rcases List.mem_cons.mp he with rfl | he
        · rw [sortEntry, h]
          rfl
        · cases sortEntry env sorted d with
          | none => rfl
          | some sorted' => exact ih he sorted'
  rw [sortUrls, hfold]
  rfl

theorem gather_bases : gather env (if filenames.list = none then search else search ++ paths env.searchPath) filenames url =
    gather env (search ++ paths env.searchPath) filenames url := by
  cases filenames <;> rfl

theorem returned_eq : (downloadPaths env search filenames url).returned =
    (gather env (search ++ paths env.searchPath) filenames url).bind (sortUrls env) := by
  rw [downloadPaths, gather_bases]

theorem returned_iff : (∃ result, (downloadPaths env search filenames url).returned = some result) ↔
    ∀ e, Entry env search filenames url e → urlparse env e ≠ none := by
  rw [returned_eq]
  cases hgather : gather env (search ++ paths env.searchPath) filenames url with
  | none =>
      obtain ⟨u, hu, hparse⟩ := gather_none hgather
      refine iff_of_false nofun fun h => h u (.inr hu) hparse
  | some urls =>
      simp only [← mem_gather hgather]
      constructor
      · rintro ⟨result, hresult⟩ e he hparse
        rw [Option.bind_some, sortUrls_none he hparse] at hresult
        cases hresult
      · intro h
        exact ⟨_, sortUrls_eq h⟩

/-- The candidates are sorted and complete, the only file comes first, and a second call with the list
that the first one leaves returns the same and finds the list of the caller as it was. -/
structure Meets (env : Env) (search : List (List Char)) (filenames : Filenames) (url : Option (List Char)) : Prop where
  result : ∃ result, (downloadPaths env search filenames url).returned = some result ∧
    (∃ urls, gather env (downloadPaths env search filenames url).search filenames url = some urls ∧
      result = urls.filter (isLocal env) ++ urls.filter fun e => !isLocal env e) ∧
    (∀ e, Entry env search filenames url e → e ∈ result) ∧
    (∀ f, filenames.list = some [f] → result.head? = some f) ∧
    (downloadPaths env (downloadPaths env search filenames url).search filenames url).returned = some result
  unchanged : (downloadPaths env search filenames url).search = search

/-- Every entry is accepted, there is nothing to look for or DOWNLOAD_SEARCH_PATH adds nothing, and the only
file is local unless all entries are remote. -/
structure Safe (env : Env) (search : List (List Char)) (filenames : Filenames) (url : Option (List Char)) : Prop where
  accepted : ∀ e, Entry env search filenames url e → urlparse env e ≠ none
  kept : filenames = .none ∨ paths env.searchPath = []
  first : ∀ f, filenames.list = some [f] → isLocal env f = true ∨ ∀ e, Entry env search filenames url e → isLocal env e = false

theorem search_kept_iff : (downloadPaths env search filenames url).search = search ↔ filenames = .none ∨ paths env.searchPath = [] := by
  cases filenames <;> simp [downloadPaths, Filenames.list]

theorem head_sorted {tail : List (List Char)} : (List.filter (isLocal env) (f :: tail) ++
    List.filter (fun e => !isLocal env e) (f :: tail)).head? = some f ↔
      isLocal env f = true ∨ ∀ e ∈ f :: tail, isLocal env e = false := by
  by_cases hf : isLocal env f = true
  · rw [List.filter_cons_of_pos hf]
    exact iff_of_true rfl (.inl hf)
  · rw [List.filter_cons_of_neg hf, List.filter_cons_of_pos (by simp [hf]), or_iff_right hf]
    cases hlocals : tail.filter (isLocal env) with
    | nil =>
        refine iff_of_true rfl fun e he => ?_
        rcases List.mem_cons.mp he with rfl | he
        · exact Bool.eq_false_iff.mpr hf
        · exact Bool.eq_false_iff.mpr (List.filter_eq_nil_iff.mp hlocals e he)
    | cons d locals =>
        have hd : d ∈ tail ∧ isLocal env d = true := List.mem_filter.mp (hlocals ▸ List.mem_cons_self ..)
        refine iff_of_false ?_ ?_
        · intro h
          obtain rfl := Option.some.inj h
          exact hf hd.2
        · intro h
          exact absurd hd.2 (Bool.eq_false_iff.mp (h d (List.mem_cons_of_mem _ hd.1)))

theorem download_paths_iff (env : Env) (search : List (List Char)) (filenames : Filenames) (url : Option (List Char)) :
    Meets env search filenames url ↔ Safe env search filenames url := by
  constructor
  · rintro ⟨⟨result, hreturned, ⟨urls, hgather, hsorted⟩, -, hhead, -⟩, hunchanged⟩
    have haccepted := returned_iff.mp ⟨result, hreturned⟩
    refine ⟨haccepted, search_kept_iff.mp hunchanged, fun f hf => ?_⟩
    rw [downloadPaths, gather_bases] at hgather
    obtain ⟨tail, rfl⟩ := gather_head hgather hf
    simp only [← mem_gather hgather]
    exact head_sorted.mp (hsorted ▸ hhead f hf)
  · rintro ⟨haccepted, hkept, hfirst⟩
    obtain ⟨result, hreturned⟩ := returned_iff.mpr haccepted
    have hunchanged : (downloadPaths env search filenames url).search = search := search_kept_iff.mpr hkept
    refine ⟨⟨result, hreturned, ?_⟩, hunchanged⟩
    rw [hunchanged]
    have hgathered := hreturned
    rw [returned_eq] at hgathered
    obtain ⟨urls, hgather, hsorted⟩ := Option.bind_eq_some_iff.mp hgathered
    have hmem := fun e => mem_gather (e := e) hgather
    rw [sortUrls_eq fun e he => haccepted e ((hmem e).mp he)] at hsorted
    obtain rfl := Option.some.inj hsorted
    refine ⟨⟨urls, ?_, rfl⟩, fun e he => ?_, fun f hf => ?_, hreturned⟩
    · rcases hkept with rfl | hnone
      · exact hgather
      · rw [hnone, List.append_nil] at hgather
        exact hgather
    · have hin := (hmem e).mpr he
      rw [List.mem_append, List.mem_filter, List.mem_filter]
      cases hlocal : isLocal env e with
      | true => exact .inl ⟨hin, rfl⟩
      | false => exact .inr ⟨hin, rfl⟩
    · obtain ⟨tail, rfl⟩ := gather_head hgather hf
      refine head_sorted.mpr ((hfirst f hf).imp_right ?_)
      intro h e he
      exact h e ((hmem e).mp he)

/-- A search base and DOWNLOAD_SEARCH_PATH, both one directory. -/
def oneBase : Env := ⟨some ['/', 'b'], none, fun _ => true⟩

/-- The list of the caller grows, and the second call returns an entry twice. -/
theorem download_paths_twice : ¬ Meets oneBase [['/', 'a']] (.one ['f']) none ∧
    (downloadPaths oneBase [['/', 'a']] (.one ['f']) none).search = [['/', 'a'], ['/', 'b']] ∧
    (downloadPaths oneBase [['/', 'a'], ['/', 'b']] (.one ['f']) none).returned =
      some [['f'], ['/', 'a', '/', 'f'], ['/', 'b', '/', 'f'], ['/', 'b', '/', 'f']] := by
  refine ⟨fun h => ?_, by decide, by decide⟩
  have hunchanged := h.unchanged
  revert hunchanged
  decide

end OiUserland.Fetch.DownloadPaths
