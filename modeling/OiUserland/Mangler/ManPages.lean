import OiUserland.Lib.PosixPaths
import OiUserland.Lib.Regexes

namespace OiUserland.Mangler.ManPages

open Lib.PosixPaths Lib.Regexes Lib.Splits Lib.Substitutions

structure Manifest where
  fmri : Option (List Char)
  upstreamUrl : Option (List Char)
  sourceUrl : Option (List Char)
  repositoryUrl : Option (List Char)

structure Action where
  path : List Char
  stability : Option (List Char)
  modifiedDate : Option (List Char)
  rewriteSection : Option (List Char)

/-- The section of a title line is to be that of the file name. -/
def Action.rewrites (action : Action) : Bool :=
  (action.rewriteSection.getD "true".toList).map Char.toLower = "true".toList

/-- `capitalize` is the method of strings. -/
def attributesSectionText (capitalize : List Char → List Char)
    (availability stability modifiedDate : Option (List Char)) : List Char :=
  if availability = none ∧ stability = none then []
  else
    "\n.\\\" Oracle has added the ARC stability level to this manual page".toList ++
    (modifiedDate.elim [] fun date => "\n.\\\" on ".toList ++ date) ++
    ("\n.SH ATTRIBUTES\nSee\n.BR attributes (5)\nfor descriptions of the following attributes:\n.sp\n.TS\nbox;\n" ++
      "cbp-1 | cbp-1\nl | l .\nATTRIBUTE TYPE\tATTRIBUTE VALUE ").toList ++
    (availability.elim [] fun a => "\n=\nAvailability\t".toList ++ a) ++
    (stability.elim [] fun s => "\n=\nStability\t".toList ++ capitalize s) ++
    "\n.TE\n.PP\n".toList

def notesHeader : List Char := "\n.SH NOTES\n".toList

def notesSectionText (headerSeen : Bool) (community source modifiedDate : Option (List Char)) : List Char :=
  if community = none ∧ source = none then []
  else
    (if headerSeen then [] else notesHeader) ++
    "\n.\\\" Oracle has added source availability information to this manual page".toList ++
    (modifiedDate.elim [] fun date => "\n.\\\" on ".toList ++ date) ++
    (source.elim [] fun url =>
      ("\nThis software was built from source available at https://openindiana.org/.  " ++
        "The original community source was downloaded from  ").toList ++ url ++ "\n".toList) ++
    (community.elim [] fun url =>
      ("\nFurther information about this software can be found on the open source " ++
        "community website at ").toList ++ url ++ ".\n".toList)

def anyOf (cs : List Char) : Regex := .chars false (cs.map fun c => (c, c))

def literal (c : Char) : Regex := anyOf [c]

def letter (c : Char) : Regex := anyOf (if c = 's' then ['s', 'S', 'ſ'] else [c, c.toUpper])

def spaces : List (Char × Char) :=
  [('\t', '\r'), ('\x1c', ' '), ('\x85', '\x85'), ('\u00a0', '\u00a0'), ('\u1680', '\u1680'), ('\u2000', '\u200a'),
    ('\u2028', '\u2029'), ('\u202f', '\u202f'), ('\u205f', '\u205f'), ('\u3000', '\u3000')]

def many (r : Regex) : Regex := .rep r 1 none true

/-- `^\.so.+$` -/
def soRe : Regex := .cat (literal '.') (.cat (literal 's') (.cat (literal 'o') (many .dot)))

def titleRe : Regex := .cat (.cap 1 (many (.chars true [('"', '"')]))) (.cat (.rep .dot 0 none true) .eol)

def sectionRe : Regex :=
  .cat (literal '.') (.cat (letter 's') (.cat (letter 'h') (.cat (literal ' ')
    (.cat (.rep (literal '"') 0 (some 1) true) titleRe))))

/-- `\.TH\s+(?:"[^"]+"|\S+)\s+(\S+)` -/
def thRe : Regex :=
  .cat (literal '.') (.cat (letter 't') (.cat (letter 'h') (.cat (many (.chars false spaces))
    (.cat (.alt (.cat (literal '"') (.cat (many (.chars true [('"', '"')])) (literal '"')))
        (many (.chars true spaces)))
      (.cat (many (.chars false spaces)) (.cap 1 (many (.chars true spaces))))))))

def groupSpan (r : Regex) (line : List Char) : Option (List Char × List Char × List Char) :=
  (ends r ⟨true, line, []⟩).head?.bind fun s =>
    (s.caps.lookup 1).map fun group => (line.take (line.length - (group ++ s.rest).length), group, s.rest)

inductive Failure
  | exit (message : List Char)
  | unboundLocal (name : List Char)
  deriving DecidableEq

structure Page where
  result : List Char
  attributesWritten : Bool
  notesSeen : Bool

def beforeHeader (attributes : List Char) (page : Page) : Page :=
  if page.attributesWritten then page
  else { page with result := page.result ++ attributes, attributesWritten := true }

def writeLine (attributes : List Char) (rewrite : Bool) (sect : List Char) (page : Page) (line : List Char) : Page :=
  match matchGroup sectionRe 1 line with
  | some (some title) =>
    let page := if title = "SEE ALSO".toList ∨ title = "NOTES".toList then beforeHeader attributes page else page
    let page := if title = "NOTES".toList then { page with notesSeen := true } else page
    let line :=
      match groupSpan thRe line with
      | some (front, _, rest) => if rewrite then front ++ sect ++ rest else line
      | none => line
    { page with result := page.result ++ line ++ ['\n'] }
  | _ => { page with result := page.result ++ line ++ ['\n'] }

/-- `pkgName` is the name in a package's identifier and `str` an action's text, both of the packaging
library; `capitalize` is the method of strings. -/
def mangleManpage (pkgName capitalize : List Char → List Char) (str : Action → List Char) (manifest : Manifest)
    (action : Action) (text : List Char) : Except Failure (List Char) :=
  match action.stability with
  | none => .error (.exit ("ERROR: manpage action missing mangler.man.stability: ".toList ++ str action))
  | some stability =>
    let community := manifest.upstreamUrl
    let source := manifest.sourceUrl.or manifest.repositoryUrl
    if (lineMatch soRe text).isSome then .ok text
    else
      match manifest.fmri with
      | none => .error (.unboundLocal "availability".toList)
      | some fmri =>
        let attributes := attributesSectionText capitalize (some (pkgName fmri)) (some stability) action.modifiedDate
        let page := (text.splitOn '\n').foldl
          (writeLine attributes action.rewrites ((splitext action.path).2.drop 1)) ⟨"'\\\" te\n".toList, false, false⟩
        let page := beforeHeader attributes page
        .ok (page.result ++ notesSectionText page.notesSeen community source action.modifiedDate)

section Headers

variable {line rest title : List Char} {cs : List Char} {r : Regex}

/-- A `.SH` line with a title that ends where the line does, or at a quote. -/
def SectionHeader (title line : List Char) : Prop :=
  ∃ s h q u, line = '.' :: s :: h :: ' ' :: (q ++ (title ++ u)) ∧ s ∈ ['s', 'S', 'ſ'] ∧ h ∈ ['h', 'H'] ∧
    (q = [] ∨ q = ['"']) ∧ (u = [] ∨ u.head? = some '"')

def unquoted (rest : List Char) : List Char := if rest.head? = some '"' then rest.tail else rest

def sectionTitle : List Char → Option (List Char)
  | d :: s :: h :: b :: rest =>
    if d = '.' ∧ s ∈ ['s', 'S', 'ſ'] ∧ h ∈ ['h', 'H'] ∧ b = ' ' then
      let title := (unquoted rest).takeWhile (· ≠ '"')
      if title = [] then none else some title
    else none
  | _ => none

theorem inRanges_map (cs : List Char) (d : Char) : inRanges (cs.map fun c => (c, c)) d = decide (d ∈ cs) := by
  rw [Bool.eq_iff_iff, decide_eq_true_iff, inRanges, List.any_map, List.any_eq_true]
  constructor
  · rintro ⟨c, hc, h⟩
    have hcd : c ≤ d ∧ d ≤ c := of_decide_eq_true h
    exact Char.le_antisymm hcd.1 hcd.2 ▸ hc
  · exact fun hd => ⟨d, hd, decide_eq_true ⟨Char.le_refl d, Char.le_refl d⟩⟩

theorem ends_anyOf (cs : List Char) (s : Reading) : ends (anyOf cs) s = readChar (· ∈ cs) s := by
  rw [anyOf, ends]
  refine congrArg (readChar · s) (funext fun c => ?_)
  rw [inRanges_map]
  cases decide (c ∈ cs) <;> rfl

theorem ends_anyOf_cat (cs : List Char) (r : Regex) (start : Bool) (c : Char) (rest : List Char)
    (caps : List (Nat × List Char)) :
    ends (.cat (anyOf cs) r) ⟨start, c :: rest, caps⟩ = if c ∈ cs then ends r ⟨false, rest, caps⟩ else [] := by
  rw [ends, ends_anyOf]
  by_cases hc : c ∈ cs
  · simp [readChar, hc]
  · simp [readChar, hc]

theorem ends_notQuote (s : Reading) : ends (.chars true [('"', '"')]) s = readChar (· ≠ '"') s := by
  rw [ends]
  refine congrArg (readChar · s) (funext fun c => ?_)
  have hin : inRanges [('"', '"')] c = decide (c ∈ ['"']) := inRanges_map ['"'] c
  rw [hin]
  by_cases hc : c = '"' <;> simp [hc]

theorem ends_titleRe_nil (start : Bool) (caps : List (Nat × List Char)) (h : rest.takeWhile (· ≠ '"') = []) :
    ends titleRe ⟨start, rest, caps⟩ = [] := by
  have hnone : ends (many (.chars true [('"', '"')])) ⟨start, rest, caps⟩ = [] :=
    many_eq_nil ends_notQuote (by rw [h]; exact Nat.zero_lt_one)
  rw [titleRe, ends, ends, hnone]
  rfl

theorem head?_titleRe (start : Bool) (caps : List (Nat × List Char)) (hline : '\n' ∉ rest)
    (h : rest.takeWhile (· ≠ '"') ≠ []) :
    ∃ b, (ends titleRe ⟨start, rest, caps⟩).head? = some ⟨b, [], (1, rest.takeWhile (· ≠ '"')) :: caps⟩ := by
  let title := rest.takeWhile (· ≠ '"')
  let m : Reading := ⟨start && title.isEmpty, rest.dropWhile (· ≠ '"'), caps⟩
  have hmany : (ends (many (.chars true [('"', '"')])) ⟨start, rest, caps⟩).head? = some m :=
    head?_many ends_notQuote (List.length_pos_iff.mpr h)
  have hcapture : capture 1 ⟨start, rest, caps⟩ m = { m with caps := (1, title) :: caps } :=
    capture_text List.takeWhile_append_dropWhile.symm
  have hcap : (ends (.cap 1 (many (.chars true [('"', '"')]))) ⟨start, rest, caps⟩).head? =
      some { m with caps := (1, title) :: caps } := by
    rw [ends, List.head?_map, hmany, Option.map_some, hcapture]
  have hall : ∀ c ∈ m.rest, (c != '\n') = true := fun c hc =>
    bne_iff_ne.mpr fun hcn => hline (hcn ▸ (List.dropWhile_suffix _).subset hc)
  have hdots := head?_many (r := .dot) (s := { m with caps := (1, title) :: caps }) (fun _ => rfl) (Nat.zero_le _)
  rw [List.dropWhile_eq_nil_iff.mpr hall] at hdots
  exact ⟨_, head?_cat hcap (head?_cat hdots rfl)⟩

theorem ends_anyOf_end (cs : List Char) (r : Regex) (start : Bool) (caps : List (Nat × List Char)) :
    ends (.cat (anyOf cs) r) ⟨start, [], caps⟩ = [] := rfl

theorem letter_s : letter 's' = anyOf ['s', 'S', 'ſ'] := rfl

theorem letter_h : letter 'h' = anyOf ['h', 'H'] := rfl

theorem letter_t : letter 't' = anyOf ['t', 'T'] := rfl

theorem head?_quoted (hline : '\n' ∉ rest) :
    (ends (.cat (.rep (literal '"') 0 (some 1) true) titleRe) ⟨false, rest, []⟩).head?.map
        (fun s => s.caps.lookup 1) =
      if (unquoted rest).takeWhile (· ≠ '"') = [] then none
      else some (some ((unquoted rest).takeWhile (· ≠ '"'))) := by
  have hone : ∀ (r : List Char) (caps : List (Nat × List Char)), '\n' ∉ r →
      (ends titleRe ⟨false, r, caps⟩).head?.map (fun s => s.caps.lookup 1) =
        if r.takeWhile (· ≠ '"') = [] then none else some (some (r.takeWhile (· ≠ '"'))) := by
    intro r caps hr
    by_cases htitle : r.takeWhile (· ≠ '"') = []
    · rw [if_pos htitle, ends_titleRe_nil false caps htitle]
      rfl
    · obtain ⟨b, hb⟩ := head?_titleRe false caps hr htitle
      rw [if_neg htitle, hb]
      rfl
  rw [ends, literal, ends_optional (ends_anyOf ['"']), List.flatMap_append, List.flatMap_singleton]
  cases rest with
  | nil => exact hone [] [] hline
  | cons c rest =>
      by_cases hc : c = '"'
      · subst hc
        have hnil : ends titleRe ⟨false, '"' :: rest, []⟩ = [] := ends_titleRe_nil false [] rfl
        have hread : readChar (· ∈ ['"']) ⟨false, '"' :: rest, []⟩ = [⟨false, rest, []⟩] := rfl
        rw [hnil, List.append_nil, hread, List.flatMap_singleton]
        exact hone rest [] fun h => hline (List.mem_cons_of_mem _ h)
      · have hread : readChar (· ∈ ['"']) ⟨false, c :: rest, []⟩ = [] := by simp [readChar, hc]
        have hplain : unquoted (c :: rest) = c :: rest := if_neg fun h => hc (Option.some.inj h)
        rw [hread, List.flatMap_nil, List.nil_append, hplain]
        exact hone (c :: rest) [] hline

theorem matchGroup_section (hline : '\n' ∉ line) : matchGroup sectionRe 1 line = (sectionTitle line).map some := by
  rw [matchGroup, sectionRe, literal, literal, letter_s, letter_h]
  rcases line with _ | ⟨d, _ | ⟨s, _ | ⟨h, _ | ⟨b, rest⟩⟩⟩⟩
  · rfl
  · simp only [ends_anyOf_cat, ends_anyOf_end, ite_self]
    rfl
  · simp only [ends_anyOf_cat, ends_anyOf_end, ite_self]
    rfl
  · simp only [ends_anyOf_cat, ends_anyOf_end, ite_self]
    rfl
  · have hrest : '\n' ∉ rest := fun h => hline (by simp [h])
    simp only [ends_anyOf_cat, sectionTitle, List.mem_singleton]
    by_cases hpat : d = '.' ∧ s ∈ ['s', 'S', 'ſ'] ∧ h ∈ ['h', 'H'] ∧ b = ' '
    · rw [if_pos hpat, if_pos hpat.1, if_pos hpat.2.1, if_pos hpat.2.2.1, if_pos hpat.2.2.2, head?_quoted hrest]
      split <;> rfl
    · rw [if_neg hpat]
      split
      · next hd =>
        split
        · next hs =>
          split
          · next hh =>
            rw [if_neg fun hb => hpat ⟨hd, hs, hh, hb⟩]
            rfl
          · rfl
        · rfl
      · rfl

theorem takeWhile_title (hquote : '"' ∉ title) (body : List Char) :
    body.takeWhile (· ≠ '"') = title ↔ ∃ u, body = title ++ u ∧ (u = [] ∨ u.head? = some '"') := by
  constructor
  · rintro rfl
    refine ⟨body.dropWhile (· ≠ '"'), List.takeWhile_append_dropWhile.symm, ?_⟩
    cases hu : body.dropWhile (· ≠ '"') with
    | nil => exact .inl rfl
    | cons c u =>
        have hne : body.dropWhile (· ≠ '"') ≠ [] := by
          rw [hu]
          exact List.cons_ne_nil c u
        have hc := List.head_dropWhile_not (fun c => decide (c ≠ '"')) hne
        simp only [hu, List.head_cons, decide_eq_false_iff_not, not_not] at hc
        exact .inr (congrArg some hc)
  · rintro ⟨u, rfl, hu⟩
    have hall : ∀ c ∈ title, decide (c ≠ '"') = true := fun c hc => decide_eq_true fun h => hquote (h ▸ hc)
    have hnil : u.takeWhile (· ≠ '"') = [] := by
      rcases hu with rfl | hu
      · rfl
      · obtain ⟨u, rfl⟩ := List.head?_eq_some_iff.mp hu
        rfl
    rw [List.takeWhile_append_of_pos hall, hnil, List.append_nil]

theorem matchGroup_header (hline : '\n' ∉ line) (hquote : '"' ∉ title) (htitle : title ≠ []) :
    matchGroup sectionRe 1 line = some (some title) ↔ SectionHeader title line := by
  rw [matchGroup_section hline, Option.map_eq_some_iff]
  constructor
  · rintro ⟨t, ht, heq⟩
    obtain rfl := Option.some.inj heq
    rcases line with _ | ⟨d, _ | ⟨s, _ | ⟨h, _ | ⟨b, rest⟩⟩⟩⟩
    · cases ht
    · cases ht
    · cases ht
    · cases ht
    · rw [sectionTitle] at ht
      split at ht
      · next hpat =>
        obtain ⟨rfl, hs, hh, rfl⟩ := hpat
        dsimp only at ht
        split at ht
        · cases ht
        · obtain ⟨u, hu, hend⟩ := (takeWhile_title hquote _).mp (Option.some.inj ht)
          by_cases hq : rest.head? = some '"'
          · obtain ⟨rest, rfl⟩ := List.head?_eq_some_iff.mp hq
            exact ⟨s, h, ['"'], u, by rw [← hu]; rfl, hs, hh, .inr rfl, hend⟩
          · rw [unquoted, if_neg hq] at hu
            exact ⟨s, h, [], u, by rw [hu]; rfl, hs, hh, .inl rfl, hend⟩
      · cases ht
  · rintro ⟨s, h, q, u, rfl, hs, hh, hq, hu⟩
    have hbody : unquoted (q ++ (title ++ u)) = title ++ u := by
      rcases hq with rfl | rfl
      · obtain ⟨c, title, rfl⟩ := List.exists_cons_of_ne_nil htitle
        have hc : c ≠ '"' := fun hc => hquote (hc ▸ List.mem_cons_self ..)
        exact if_neg fun h => hc (Option.some.inj h)
      · rfl
    refine ⟨title, ?_, rfl⟩
    rw [sectionTitle, if_pos ⟨rfl, hs, hh, rfl⟩, hbody, (takeWhile_title hquote _).mpr ⟨u, rfl, hu⟩]
    exact if_neg htitle

theorem title_line (h : (sectionTitle line).isSome) : ∃ s rest, line = '.' :: s :: rest ∧ s ∈ ['s', 'S', 'ſ'] := by
  unfold sectionTitle at h
  split at h
  · split at h
    · next hpat => exact ⟨_, _, by rw [hpat.1], hpat.2.1⟩
    · cases h
  · cases h

theorem groupSpan_th {front sect rest : List Char} (h : groupSpan thRe line = some (front, sect, rest)) :
    line = front ++ (sect ++ rest) ∧ ∃ t front', front = '.' :: t :: front' ∧ t ∈ ['t', 'T'] := by
  obtain ⟨s, hhead, hspan⟩ := Option.bind_eq_some_iff.mp h
  have hs := List.mem_of_head? hhead
  clear hhead h
  rw [thRe, literal, letter_t] at hs
  rcases line with _ | ⟨d, _ | ⟨t, line⟩⟩
  · cases hs
  · simp only [ends_anyOf_cat, ends_anyOf_end, ite_self] at hs
    cases hs
  · simp only [ends_anyOf_cat, List.mem_singleton] at hs
    split at hs
    · next hd =>
      split at hs
      · next ht =>
        subst hd
        obtain ⟨m₁, hm₁, hs⟩ := mem_cat.mp hs
        obtain ⟨m₂, hm₂, hs⟩ := mem_cat.mp hs
        obtain ⟨m₃, hm₃, hs⟩ := mem_cat.mp hs
        obtain ⟨m₄, hm₄, hs⟩ := mem_cat.mp hs
        obtain ⟨m, hm, rfl⟩ := mem_cap.mp hs
        obtain ⟨u, hu⟩ := ends_suffix hm
        have hbefore := (ends_suffix hm₃).trans ((ends_suffix hm₂).trans (ends_suffix hm₁))
        obtain ⟨z, hz⟩ := (ends_suffix hm₄).trans hbefore
        rw [capture_text hu.symm] at hspan
        have hline : line = z ++ (u ++ m.rest) := by rw [hu, hz]
        obtain ⟨hfront, hrest⟩ := Prod.mk.inj (Option.some.inj hspan)
        obtain ⟨rfl, rfl⟩ := Prod.mk.inj hrest
        have htake : front = '.' :: t :: z := by
          rw [← hfront, hline]
          refine List.take_left' (?_ : ('.' :: t :: z).length = _)
          simp only [List.length_cons, List.length_append]
          omega
        exact ⟨by rw [htake, hline]; rfl, t, z, htake, ht⟩
      · cases hs
    · cases hs

end Headers

section Lines

variable {attributes sect line : List Char} {rewrite : Bool} {page : Page} {lines : List (List Char)}

def Marks (line : List Char) : Prop := SectionHeader "SEE ALSO".toList line ∨ SectionHeader "NOTES".toList line

theorem see_also_iff (hline : '\n' ∉ line) :
    matchGroup sectionRe 1 line = some (some "SEE ALSO".toList) ↔ SectionHeader "SEE ALSO".toList line :=
  matchGroup_header hline (by decide) (by decide)

theorem notes_iff (hline : '\n' ∉ line) :
    matchGroup sectionRe 1 line = some (some "NOTES".toList) ↔ SectionHeader "NOTES".toList line :=
  matchGroup_header hline (by decide) (by decide)

theorem beforeHeader_notesSeen (attributes : List Char) (page : Page) :
    (beforeHeader attributes page).notesSeen = page.notesSeen := by
  unfold beforeHeader
  split <;> rfl

theorem writeLine_eq (attributes sect : List Char) (rewrite : Bool) (page : Page) (hline : '\n' ∉ line) :
    ∃ marks notes : Bool, (marks ↔ Marks line) ∧ (notes ↔ SectionHeader "NOTES".toList line) ∧
    writeLine attributes rewrite sect page line =
      { result := (if marks then beforeHeader attributes page else page).result ++ line ++ ['\n']
        attributesWritten := (if marks then beforeHeader attributes page else page).attributesWritten
        notesSeen := notes || page.notesSeen } := by
  have hsee := see_also_iff hline
  have hnotes := notes_iff hline
  have hne : "SEE ALSO".toList ≠ "NOTES".toList := by decide
  cases htitle : matchGroup sectionRe 1 line with
  | none =>
      rw [htitle] at hsee hnotes
      refine ⟨false, false, ⟨nofun, fun h => ?_⟩, ⟨nofun, fun h => nomatch hnotes.mpr h⟩, ?_⟩
      · exact h.elim (fun h => nomatch hsee.mpr h) fun h => nomatch hnotes.mpr h
      · rw [writeLine, htitle]
        simp
  | some group =>
      obtain ⟨title, htext, rfl⟩ := Option.map_eq_some_iff.mp ((matchGroup_section hline).symm.trans htitle)
      have hth : groupSpan thRe line = none := by
        obtain ⟨s, rest, hs, hcase⟩ := title_line (Option.isSome_iff_exists.mpr ⟨title, htext⟩)
        cases hspan : groupSpan thRe line with
        | none => rfl
        | some parts =>
            obtain ⟨hparts, t, front, hfront, ht⟩ := groupSpan_th hspan
            rw [hparts, hfront] at hs
            obtain rfl : t = s := (List.cons.inj (List.cons.inj hs).2).1
            exact absurd hcase (by revert ht; simp; rintro (rfl | rfl) <;> decide)
      rw [htitle] at hsee hnotes
      have hsee : title = "SEE ALSO".toList ↔ SectionHeader "SEE ALSO".toList line := by simpa using hsee
      have hnotes : title = "NOTES".toList ↔ SectionHeader "NOTES".toList line := by simpa using hnotes
      refine ⟨decide (title = "SEE ALSO".toList ∨ title = "NOTES".toList), decide (title = "NOTES".toList), ?_, ?_, ?_⟩
      · rw [decide_eq_true_iff, hsee, hnotes]
        rfl
      · rw [decide_eq_true_iff, hnotes]
      · rw [writeLine, htitle]
        dsimp only
        rw [hth]
        by_cases hn : title = "NOTES".toList
        · simp only [hn, or_true, decide_true, if_true, Bool.true_or]
        · by_cases hs : title = "SEE ALSO".toList
          · simp only [hs, if_neg hne, true_or, decide_true, if_true, decide_eq_false hne,
              Bool.false_or, beforeHeader_notesSeen]
          · simp only [hs, hn, or_self, decide_false, if_false, Bool.false_or, Bool.false_eq_true]

theorem beforeHeader_written (h : page.attributesWritten) : beforeHeader attributes page = page := if_pos h

theorem beforeHeader_unwritten (h : ¬ page.attributesWritten) :
    beforeHeader attributes page = { page with result := page.result ++ attributes, attributesWritten := true } :=
  if_neg h

theorem write_written (attributes sect : List Char) (rewrite : Bool) (page : Page) (hlines : ∀ l ∈ lines, '\n' ∉ l)
    (h : page.attributesWritten) :
    (lines.foldl (writeLine attributes rewrite sect) page).attributesWritten ∧
    (lines.foldl (writeLine attributes rewrite sect) page).result = page.result ++ unlines '\n' lines ∧
    ((lines.foldl (writeLine attributes rewrite sect) page).notesSeen ↔
      page.notesSeen ∨ ∃ l ∈ lines, SectionHeader "NOTES".toList l) := by
  induction lines generalizing page with
  | nil => exact ⟨h, (List.append_nil _).symm, by simp⟩
  | cons l lines ih =>
      obtain ⟨marks, notes, -, hnotes, hwrite⟩ :=
        writeLine_eq attributes sect rewrite page (hlines l (List.mem_cons_self ..))
      rw [beforeHeader_written h, ite_self] at hwrite
      rw [List.foldl_cons, hwrite]
      obtain ⟨hw, hresult, hseen⟩ := ih ⟨page.result ++ l ++ ['\n'], page.attributesWritten, notes || page.notesSeen⟩
        (fun m hm => hlines m (List.mem_cons_of_mem l hm)) h
      refine ⟨hw, ?_, ?_⟩
      · rw [hresult, unlines_cons]
        simp
      · rw [hseen, Bool.or_eq_true, hnotes, List.exists_mem_cons_iff, or_comm (a := SectionHeader _ _), or_assoc]

theorem write_run (attributes sect : List Char) (rewrite : Bool) (page : Page) (hlines : ∀ l ∈ lines, '\n' ∉ l)
    (h : ¬ page.attributesWritten) :
    ∃ before after, lines = before ++ after ∧ (∀ l ∈ before, ¬ Marks l) ∧ (∀ l ∈ after.head?, Marks l) ∧
      (beforeHeader attributes (lines.foldl (writeLine attributes rewrite sect) page)).result =
        page.result ++ (unlines '\n' before ++ (attributes ++ unlines '\n' after)) ∧
      ((lines.foldl (writeLine attributes rewrite sect) page).notesSeen ↔
        page.notesSeen ∨ ∃ l ∈ lines, SectionHeader "NOTES".toList l) := by
  induction lines generalizing page with
  | nil =>
      refine ⟨[], [], rfl, nofun, nofun, ?_, by simp⟩
      rw [List.foldl_nil, beforeHeader_unwritten h]
      simp [unlines]
  | cons l lines ih =>
      have hrest : ∀ m ∈ lines, '\n' ∉ m := fun m hm => hlines m (List.mem_cons_of_mem l hm)
      obtain ⟨marks, notes, hmarks, hnotes, hwrite⟩ :=
        writeLine_eq attributes sect rewrite page (hlines l (List.mem_cons_self ..))
      rw [beforeHeader_unwritten h] at hwrite
      rw [List.foldl_cons, hwrite, List.exists_mem_cons_iff, ← hnotes, ← or_assoc,
        or_comm (b := notes = true), ← Bool.or_eq_true]
      cases marks with
      | true =>
          obtain ⟨hw, hresult, hseen⟩ := write_written attributes sect rewrite
            ⟨page.result ++ attributes ++ l ++ ['\n'], true, notes || page.notesSeen⟩ hrest rfl
          refine ⟨[], l :: lines, rfl, nofun, ?_, ?_, hseen⟩
          · rintro m ⟨rfl⟩
            exact hmarks.mp rfl
          · rw [if_pos rfl, beforeHeader_written hw, hresult, unlines_cons]
            simp [unlines]
      | false =>
          obtain ⟨before, after, rfl, hbefore, hafter, hresult, hseen⟩ := ih
            ⟨page.result ++ l ++ ['\n'], page.attributesWritten, notes || page.notesSeen⟩ hrest h
          refine ⟨l :: before, after, rfl, ?_, hafter, ?_, hseen⟩
          · intro m hm
            rcases List.mem_cons.mp hm with rfl | hm
            · exact fun hmark => nomatch hmarks.mpr hmark
            · exact hbefore m hm
          · rw [if_neg Bool.false_ne_true, hresult, unlines_cons]
            simp

end Lines

section Pages

variable {manifest : Manifest} {action : Action} {stability fmri text : List Char}

def Reference (text : List Char) : Prop := ∃ c rest, text = '.' :: 's' :: 'o' :: c :: rest ∧ c ≠ '\n'

theorem lineMatch_so (text : List Char) : (lineMatch soRe text).isSome ↔ Reference text := by
  rw [lineMatch, Option.isSome_map, soRe, literal, literal, literal]
  rcases text with _ | ⟨d, _ | ⟨s, _ | ⟨o, rest⟩⟩⟩
  · exact ⟨nofun, fun ⟨_, _, h, _⟩ => nomatch h⟩
  · simp only [ends_anyOf_cat, ends_anyOf_end, ite_self]
    exact ⟨nofun, fun ⟨_, _, h, _⟩ => nomatch h⟩
  · simp only [ends_anyOf_cat, ends_anyOf_end, ite_self]
    exact ⟨nofun, fun ⟨_, _, h, _⟩ => nomatch h⟩
  · by_cases hpat : d = '.' ∧ s = 's' ∧ o = 'o'
    · obtain ⟨rfl, rfl, rfl⟩ := hpat
      simp only [ends_anyOf_cat, List.mem_singleton, if_true]
      rw [List.isSome_head?]
      constructor
      · intro hne
        obtain ⟨s', hs'⟩ := List.exists_mem_of_ne_nil _ hne
        obtain ⟨u, hu, hall, hlen, -⟩ := (mem_many (r := .dot) fun _ => rfl).mp (List.mem_filter.mp hs').1
        obtain ⟨c, u, rfl⟩ := List.exists_cons_of_length_pos hlen
        have hc : c ≠ '\n' := bne_iff_ne.mp (hall c (List.mem_cons_self ..))
        exact ⟨c, u ++ s'.rest, congrArg (fun rest => '.' :: 's' :: 'o' :: rest) hu, hc⟩
      · rintro ⟨c, rest', h, hc⟩
        obtain rfl : rest = c :: rest' := by simpa using h
        have hpos : 1 ≤ ((c :: rest').takeWhile (· != '\n')).length := by
          rw [List.takeWhile_cons, if_pos (bne_iff_ne.mpr hc), List.length_cons]
          exact Nat.le_add_left ..
        have hhead := head?_many (r := .dot) (s := ⟨false, c :: rest', []⟩) (fun _ => rfl) hpos
        refine List.ne_nil_of_mem (List.mem_filter.mpr ⟨List.mem_of_head? hhead, ?_⟩)
        cases hdrop : (c :: rest').dropWhile (· != '\n') with
        | nil => rfl
        | cons e rest'' =>
            have hne : (c :: rest').dropWhile (· != '\n') ≠ [] := by
              rw [hdrop]
              exact List.cons_ne_nil e rest''
            have he := List.head_dropWhile_not (· != '\n') hne
            simp only [hdrop, List.head_cons, bne_eq_false_iff_eq] at he
            exact decide_eq_true he
    · simp only [ends_anyOf_cat, List.mem_singleton]
      refine iff_of_false ?_ fun ⟨c, rest', h, _⟩ => hpat (by simp_all)
      split
      · next hd =>
        split
        · next hs =>
          rw [if_neg fun ho => hpat ⟨hd, hs, ho⟩]
          exact nofun
        · exact nofun
      · exact nofun

/-- How a page is laid out: the lines, with the attributes in front of the first header or behind all
lines, and then the notes. -/
def Laid (attributes : List Char) (notes : Bool → List Char) (lines : List (List Char)) (out : List Char) : Prop :=
  ∃ before after seen, lines = before ++ after ∧ (∀ l ∈ before, ¬ Marks l) ∧ (∀ l ∈ after.head?, Marks l) ∧
    (seen = true ↔ ∃ l ∈ lines, SectionHeader "NOTES".toList l) ∧
    out = "'\\\" te\n".toList ++ (unlines '\n' before ++ (attributes ++ (unlines '\n' after ++ notes seen)))

/-- The texts that are added to a page. -/
def attributesOf (pkgName capitalize : List Char → List Char) (action : Action)
    (stability fmri : List Char) : List Char :=
  attributesSectionText capitalize (some (pkgName fmri)) (some stability) action.modifiedDate

def notesOf (manifest : Manifest) (action : Action) (seen : Bool) : List Char :=
  notesSectionText seen manifest.upstreamUrl (manifest.sourceUrl.or manifest.repositoryUrl) action.modifiedDate

theorem mangle_laid (pkgName capitalize : List Char → List Char) (str : Action → List Char)
    (hstability : action.stability = some stability) (hfmri : manifest.fmri = some fmri) (href : ¬ Reference text) :
    ∃ out, mangleManpage pkgName capitalize str manifest action text = .ok out ∧
      Laid (attributesOf pkgName capitalize action stability fmri) (notesOf manifest action)
        (text.splitOn '\n') out := by
  have hlines : ∀ l ∈ text.splitOn '\n', '\n' ∉ l := fun _ hl => not_mem_of_mem_splitOn hl
  let page := (text.splitOn '\n').foldl
    (writeLine (attributesOf pkgName capitalize action stability fmri) action.rewrites
      ((splitext action.path).2.drop 1)) ⟨"'\\\" te\n".toList, false, false⟩
  obtain ⟨before, after, hsplit, hbefore, hafter, hresult, hseen⟩ :=
    write_run (attributesOf pkgName capitalize action stability fmri) ((splitext action.path).2.drop 1)
      action.rewrites ⟨"'\\\" te\n".toList, false, false⟩ hlines Bool.false_ne_true
  refine ⟨(beforeHeader (attributesOf pkgName capitalize action stability fmri) page).result ++
    notesOf manifest action page.notesSeen, ?_, before, after, page.notesSeen, hsplit, hbefore, hafter, ?_, ?_⟩
  · rw [mangleManpage, hstability, hfmri]
    dsimp only
    rw [if_neg ((lineMatch_so text).not.mpr href), beforeHeader_notesSeen]
    rfl
  · rw [hseen]
    exact or_iff_right Bool.false_ne_true
  · rw [hresult]
    simp only [List.append_assoc]

def upstreamPackage : Manifest := ⟨some "pkg:/foo".toList, some "foo.org".toList, none, none⟩

def manPage (name : String) : Action := ⟨"usr/share/man/".toList ++ name.toList, some "committed".toList, none, none⟩

end Pages

section Titles

variable {manifest : Manifest} {action : Action} {stability fmri text sect line title : List Char}

def retitled (sect line : List Char) : List Char :=
  match groupSpan thRe line with
  | some (front, _, rest) => front ++ sect ++ rest
  | none => line

theorem retitled_of_span {front own rest : List Char} (h : groupSpan thRe line = some (front, own, rest)) :
    retitled sect line = front ++ (sect ++ rest) := by
  rw [retitled, h]
  exact List.append_assoc ..

theorem not_header {t : Char} {rest : List Char} (ht : t ∈ ['t', 'T']) :
    ¬ SectionHeader title ('.' :: t :: rest) := by
  rintro ⟨s, h, q, u, heq, hs, -⟩
  obtain rfl : t = s := (List.cons.inj (List.cons.inj heq).2).1
  revert ht hs
  simp only [List.mem_cons, List.not_mem_nil, or_false]
  rintro (rfl | rfl) <;> decide

theorem header_retitled : SectionHeader title (retitled sect line) ↔ SectionHeader title line := by
  cases hspan : groupSpan thRe line with
  | none => rw [retitled, hspan]
  | some parts =>
      obtain ⟨hline, t, front, hfront, ht⟩ := groupSpan_th hspan
      rw [retitled_of_span hspan, hline, hfront]
      exact iff_of_false (not_header ht) (not_header ht)

theorem retitled_eq : retitled sect line = line ↔
    ∀ front own rest, groupSpan thRe line = some (front, own, rest) → own = sect := by
  cases hspan : groupSpan thRe line with
  | none => exact iff_of_true (by rw [retitled, hspan]) nofun
  | some parts =>
      obtain ⟨front, own, rest⟩ := parts
      obtain rfl := (groupSpan_th hspan).1
      rw [retitled_of_span hspan, List.append_cancel_left_eq, List.append_cancel_right_eq]
      constructor
      · rintro rfl front' own' rest' h
        exact (Prod.mk.inj (Prod.mk.inj (Option.some.inj h)).2).1.symm
      · exact fun h => (h front own rest rfl).symm

theorem cut_unique {α : Type} {P : α → Prop} {b a b' a' : List α} (h : b ++ a = b' ++ a')
    (hb : ∀ x ∈ b, ¬ P x) (ha : ∀ x ∈ a.head?, P x) (hb' : ∀ x ∈ b', ¬ P x) (ha' : ∀ x ∈ a'.head?, P x) : b = b' ∧ a = a' := by
  rcases List.append_eq_append_iff.mp h with ⟨y, rfl, hy⟩ | ⟨y, rfl, hy⟩
  · cases y with
    | nil => exact ⟨by simp, hy⟩
    | cons x y => exact absurd (ha x (by rw [hy]; rfl)) (hb' x (by simp))
  · cases y with
    | nil => exact ⟨by simp, hy.symm⟩
    | cons x y => exact absurd (ha' x (by rw [hy]; rfl)) (hb x (by simp))

theorem Laid.map_inj {attributes out : List Char} {notes : Bool → List Char} {lines : List (List Char)}
    {f : List Char → List Char} (hf : ∀ title line, SectionHeader title (f line) ↔ SectionHeader title line) (hlines : ∀ l ∈ lines, '\n' ∉ l)
    (h : Laid attributes notes lines out) (hmap : Laid attributes notes (lines.map f) out) : lines.map f = lines := by
  obtain ⟨before, after, seen, rfl, hbefore, hafter, hseen, rfl⟩ := h
  obtain ⟨before', after', seen', hsplit, hbefore', hafter', hseen', hout⟩ := hmap
  have hmarks : ∀ line, Marks (f line) ↔ Marks line := fun line => or_congr (hf _ line) (hf _ line)
  rw [List.map_append] at hsplit
  obtain ⟨rfl, rfl⟩ := cut_unique (P := Marks) hsplit
    (fun x hx => by
      obtain ⟨l, hl, rfl⟩ := List.mem_map.mp hx
      exact (hmarks l).not.mpr (hbefore l hl))
    (fun x hx => by
      rw [List.head?_map] at hx
      obtain ⟨l, hl, rfl⟩ := Option.map_eq_some_iff.mp hx
      exact (hmarks l).mpr (hafter l hl))
    hbefore' hafter'
  obtain rfl : seen = seen' := by
    rw [Bool.eq_iff_iff, hseen, hseen']
    simp only [List.mem_map, exists_exists_and_eq_and, hf]
  have hall := List.append_cancel_left hout
  have hfree : ∀ l ∈ (before ++ after).map f, '\n' ∉ l := by
    have hown := (count_unlines_eq '\n' (before ++ after)).mpr hlines
    have hcount := congrArg (List.count '\n') hall
    rw [unlines_append, List.count_append] at hown
    rw [← count_unlines_eq, List.map_append, unlines_append, List.count_append]
    simp only [List.count_append, List.length_append, List.length_map] at hcount hown ⊢
    omega
  obtain ⟨hb, hrest⟩ := unlines_inj (List.length_map f).symm (fun l hl => hlines l (List.mem_append_left _ hl))
    (fun l hl => hfree l (by rw [List.map_append]; exact List.mem_append_left _ hl)) hall
  obtain ⟨ha, -⟩ := unlines_inj (List.length_map f).symm (fun l hl => hlines l (List.mem_append_right _ hl))
    (fun l hl => hfree l (by rw [List.map_append]; exact List.mem_append_right _ hl)) (List.append_cancel_left hrest)
  rw [List.map_append, ← hb, ← ha]

def titledLines (action : Action) (text : List Char) : List (List Char) :=
  if action.rewrites then (text.splitOn '\n').map (retitled ((splitext action.path).2.drop 1)) else text.splitOn '\n'

theorem titled_iff (pkgName capitalize : List Char → List Char) (str : Action → List Char)
    (hstability : action.stability = some stability) (hfmri : manifest.fmri = some fmri) (href : ¬ Reference text) :
    (∃ out, mangleManpage pkgName capitalize str manifest action text = .ok out ∧
      Laid (attributesOf pkgName capitalize action stability fmri) (notesOf manifest action)
        (titledLines action text) out) ↔
      titledLines action text = text.splitOn '\n' := by
  obtain ⟨out, hout, hlaid⟩ := mangle_laid pkgName capitalize str hstability hfmri href
  constructor
  · rintro ⟨out', hout', hlaid'⟩
    obtain rfl := Except.ok.inj (hout.symm.trans hout')
    unfold titledLines at hlaid' ⊢
    split
    · next hrewrites =>
      rw [if_pos hrewrites] at hlaid'
      exact Laid.map_inj (fun _ _ => header_retitled) (fun _ hl => not_mem_of_mem_splitOn hl) hlaid hlaid'
    · rfl
  · intro h
    exact ⟨out, hout, h ▸ hlaid⟩

/-- The titles of the page carry the section they are to carry if and only if they did before. -/
theorem titles_in_section (pkgName capitalize : List Char → List Char) (str : Action → List Char)
    (hstability : action.stability = some stability) (hfmri : manifest.fmri = some fmri) (href : ¬ Reference text) :
    (∃ out, mangleManpage pkgName capitalize str manifest action text = .ok out ∧
      Laid (attributesOf pkgName capitalize action stability fmri) (notesOf manifest action)
        (titledLines action text) out) ↔
    (action.rewrites → ∀ line ∈ text.splitOn '\n', ∀ front own rest, groupSpan thRe line = some (front, own, rest) →
      own = (splitext action.path).2.drop 1) := by
  rw [titled_iff pkgName capitalize str hstability hfmri href, titledLines]
  by_cases hrewrites : action.rewrites
  · have hself : ∀ lines : List (List Char), lines.map (retitled ((splitext action.path).2.drop 1)) = lines ↔
        ∀ line ∈ lines, retitled ((splitext action.path).2.drop 1) line = line := fun lines => by
      simpa using List.map_inj_left (l := lines) (g := id)
    rw [if_pos hrewrites, hself]
    constructor
    · exact fun h _ line hline => retitled_eq.mp (h line hline)
    · exact fun h line hline => retitled_eq.mpr (h hrewrites line hline)
  · rw [if_neg hrewrites]
    exact iff_of_true rfl fun h => absurd h hrewrites

theorem titles_in_section_kept :
    (∃ out, mangleManpage id id Action.path upstreamPackage (manPage "foo.1m") ".TH foo 8\n".toList = .ok out ∧
      Laid (attributesOf id id (manPage "foo.1m") "committed".toList "pkg:/foo".toList)
        (notesOf upstreamPackage (manPage "foo.1m"))
        (titledLines (manPage "foo.1m") ".TH foo 8\n".toList) out) ↔
    ((manPage "foo.1m").rewrites → ∀ line ∈ ".TH foo 8\n".toList.splitOn '\n', ∀ front own rest,
      groupSpan thRe line = some (front, own, rest) → own = (splitext (manPage "foo.1m").path).2.drop 1) :=
  titles_in_section id id Action.path rfl rfl ((lineMatch_so _).not.mp (by decide))

/-- The title keeps the section 8 where the file is one of section 1m. -/
theorem title_kept :
    (titledLines (manPage "foo.1m") ".TH foo 8\n".toList = [".TH foo 1m".toList, []]) ∧
    ¬ ∃ out, mangleManpage id id Action.path upstreamPackage (manPage "foo.1m") ".TH foo 8\n".toList = .ok out ∧
      Laid (attributesOf id id (manPage "foo.1m") "committed".toList "pkg:/foo".toList)
        (notesOf upstreamPackage (manPage "foo.1m"))
        (titledLines (manPage "foo.1m") ".TH foo 8\n".toList) out := by
  have htitled : titledLines (manPage "foo.1m") ".TH foo 8\n".toList = [".TH foo 1m".toList, []] := by decide
  refine ⟨htitled, ?_⟩
  rw [titled_iff id id Action.path rfl rfl ((lineMatch_so _).not.mp (by decide)), htitled]
  decide

end Titles

end OiUserland.Mangler.ManPages
