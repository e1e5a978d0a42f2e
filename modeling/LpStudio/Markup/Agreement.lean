import LpStudio.ChangeSet.Scan
import LpStudio.Lib.Outcome
import LpStudio.StaticExport.Scan

/-! # Agreement of the two markup scanners
`static_export.rs` skips CDATA sections and processing instructions whole and steps over a `<` that opens
nothing; `change_set.rs` reads the first as a tag and stops at the second. Where neither difference
matters, both scanners read the same tags.
-/
namespace LpStudio.Markup
open Str Scanning

/-- `html_mode` as `static_export.rs` derives it from the path. -/
def htmlMode (sourcePath : Text) : Bool := StaticExport.textMediaTypeForPath sourcePath = some .html

/-- The text after the section that `static_export.rs` skips at `tail`. -/
def sectionEnd (html : Bool) (tail : Text) : Option Text :=
  if "![CDATA[".toList.isPrefixOf tail then (splitOnce "]]>".toList (tail.drop 8)).map Prod.snd
  else if !html && "?".toList.isPrefixOf tail then
    (splitOnce "?>".toList (tail.drop 1)).map Prod.snd
  else none

/-- A section skipped at `u` ends where `change_set.rs` takes its tag to end. -/
def sectionInStep (html : Bool) (u : Text) : Bool :=
  match u.dropWhile (· != '<') with
  | [] => true
  | _ :: tail =>
    match sectionEnd html tail with
    | none => true
    | some rest => (markupTagEnd none tail).map Prod.snd == some rest

/-- The first `<` of `u` opens no comment and has no unquoted `>` behind it. -/
def stray (u : Text) : Bool :=
  match u.dropWhile (· != '<') with
  | [] => false
  | _ :: tail => !"!--".toList.isPrefixOf tail && (markupTagEnd none tail).isNone

/-- The tag that the first `<` of `u` opens: name, closing flag and the text after the name. -/
def tagAt (u : Text) : Option (Text × Bool × Text) :=
  match u.dropWhile (· != '<') with
  | [] => none
  | _ :: tail => (markupTagEnd none tail).bind fun (inner, _) => tagName (trim inner)

/-- Every section along the way of `static_export.rs` is in step. -/
def SectionsInStep (sourcePath text : Text) : Prop :=
  ∀ u, Visits (StaticExport.scanStep sourcePath) text u → sectionInStep (htmlMode sourcePath) u = true

/-- No tag follows a stray `<`. -/
def NoTagAfterStray (sourcePath text : Text) : Prop :=
  ∀ u, Visits (StaticExport.scanStep sourcePath) text u → stray u = true →
    ∀ v, Visits (StaticExport.scanStep sourcePath) u v → tagAt v = none

instance (sourcePath text : Text) : Decidable (SectionsInStep sourcePath text) :=
  decidable_of_iff (∀ u ∈ trail (StaticExport.scanStep sourcePath) text,
      sectionInStep (htmlMode sourcePath) u = true)
    (by simp only [mem_trail (StaticExport.scanStep_productive sourcePath)]; rfl)

instance (sourcePath text : Text) : Decidable (NoTagAfterStray sourcePath text) :=
  decidable_of_iff (∀ u ∈ trail (StaticExport.scanStep sourcePath) text, stray u = true →
      ∀ v ∈ trail (StaticExport.scanStep sourcePath) u, tagAt v = none)
    (by simp only [mem_trail (StaticExport.scanStep_productive sourcePath)]; rfl)

/-- The raw text of the element whose start tag opens at `u`. -/
def rawBody (u : Text) : Text :=
  match u.dropWhile (· != '<') with
  | [] => []
  | _ :: tail =>
    match markupTagEnd none tail with
    | none => []
    | some (inner, rest) =>
      match tagName (trim inner) with
      | none => []
      | some (name, _) => ((rawTextElementBounds rest name).map Prod.fst).getD []

/-- The tags `static_export.rs` reads, each with its raw text. -/
def elements (sourcePath text : Text) :
    Except StaticExport.StaticExportError (List (StaticExport.MarkupTag × Text)) :=
  run (noted rawBody (StaticExport.scanStep sourcePath)) text

theorem elements_tags (sourcePath text : Text) :
    (elements sourcePath text).map (List.map Prod.fst) =
      StaticExport.scanMarkupTags sourcePath text :=
  run_noted (StaticExport.scanStep_productive sourcePath) text

/-- The two scanners have read one tag; `P` holds of the name and the attribute text of a start tag. -/
def SameElement (K : Crates) (sourcePath : Text) (P : Text → Text → Prop)
    (e : StaticExport.MarkupTag × Text) (tag : ChangeSet.MarkupTag) : Prop :=
  tag.name = e.1.name ∧ tag.closing = e.1.closing ∧
  tag.bodySha256 = (if e.1.closing = false ∧ e.1.name = "script".toList
    then some (K.sha256 (encode e.2)) else none) ∧
  (e.1.closing = true ∧ e.1.attributes = [] ∧ tag.attributes = [] ∨
    e.1.closing = false ∧ ∃ rest, P e.1.name rest ∧
      StaticExport.parseAttributes sourcePath rest = .ok e.1.attributes ∧
      tag.attributes = ChangeSet.parseAttributes rest)

/-! ## One turn -/

theorem trim_head {c : Char} {t : Text} (hc : isWhitespace c = false) : (trim (c :: t)).head? = some c := by
  simp only [trim, trimStart_cons_not hc, trimEnd]
  cases h : (c :: t).rdropWhile isWhitespace with
  | nil =>
    have := List.rdropWhile_eq_nil_iff.mp h c (by simp)
    simp [hc] at this
  | cons d ds =>
    have hpre := List.rdropWhile_prefix isWhitespace (l := c :: t)
    rw [h, List.cons_prefix_cons] at hpre
    simp [hpre.1]

/-- What begins with `!` or `?` is no tag. -/
theorem tagName_declaration {c : Char} {tail inner rest : Text} (hc : c = '!' ∨ c = '?')
    (htail : tail.head? = some c) (hend : markupTagEnd none tail = some (inner, rest)) :
    tagName (trim inner) = none := by
  cases tail with
  | nil => simp at htail
  | cons d ds =>
    obtain rfl : d = c := by simpa using htail
    obtain ⟨i, r, hi, rfl, rfl⟩ : ∃ i r, markupTagEnd none ds = some (i, r) ∧ d :: i = inner ∧ r = rest := by
      rcases hc with rfl | rfl <;> simpa [markupTagEnd] using hend
    have hhead : (trim (d :: i)).head? = some d := trim_head (by rcases hc with rfl | rfl <;> decide)
    rcases hc with rfl | rfl <;> simp [tagName, hhead]

section
variable {K : Crates} {sourcePath : Text} {P : Text → Text → Prop}

theorem sameElement_closing {name raw : Text} :
    SameElement K sourcePath P (⟨name, true, [], none, false⟩, raw) ⟨name, true, [], none⟩ :=
  ⟨rfl, rfl, rfl, .inl ⟨rfl, rfl, rfl⟩⟩

theorem sameElement_plain {name raw rest : Text} {attributes : List (Text × Text)}
    (hname : name ≠ "script".toList) (hP : P name rest)
    (hattrs : StaticExport.parseAttributes sourcePath rest = .ok attributes) :
    SameElement K sourcePath P (⟨name, false, attributes, none, false⟩, raw)
      ⟨name, false, ChangeSet.parseAttributes rest, none⟩ :=
  ⟨rfl, rfl, by simp only [hname, and_false, ↓reduceIte], .inr ⟨rfl, rest, hP, hattrs, rfl⟩⟩

theorem sameElement_raw {name raw rest : Text} {attributes : List (Text × Text)} (hP : P name rest)
    (hattrs : StaticExport.parseAttributes sourcePath rest = .ok attributes) :
    SameElement K sourcePath P (StaticExport.withBody ⟨name, false, attributes, none, false⟩ raw, raw)
      (ChangeSet.withBody K ⟨name, false, ChangeSet.parseAttributes rest, none⟩ raw) := by
  have hstrict : ∀ tag : StaticExport.MarkupTag, (StaticExport.withBody tag raw).name = tag.name ∧
      (StaticExport.withBody tag raw).closing = tag.closing ∧
      (StaticExport.withBody tag raw).attributes = tag.attributes := by
    intro tag
    simp only [StaticExport.withBody]
    split
    · exact ⟨rfl, rfl, rfl⟩
    · split <;> exact ⟨rfl, rfl, rfl⟩
  obtain ⟨hn, hc, ha⟩ := hstrict ⟨name, false, attributes, none, false⟩
  simp only [SameElement, hn, hc, ha, ChangeSet.withBody, ChangeSet.isScript, beq_iff_eq]
  by_cases hscript : name = "script".toList
  · rw [if_pos hscript, if_pos ⟨trivial, hscript⟩]
    exact ⟨rfl, rfl, rfl, .inr ⟨trivial, rest, hP, hattrs, rfl⟩⟩
  · rw [if_neg hscript, if_neg fun h => hscript h.2]
    exact ⟨rfl, rfl, rfl, .inr ⟨trivial, rest, hP, hattrs, rfl⟩⟩

theorem step_inStep {u : Text} (hsections : sectionInStep (htmlMode sourcePath) u = true)
    (hstray : stray u = false)
    (hP : ∀ name attributes, tagAt u = some (name, false, attributes) → P name attributes) :
    InStep (SameElement K sourcePath P) (noted rawBody (StaticExport.scanStep sourcePath) u)
      (ChangeSet.scanStep K (htmlMode sourcePath) u) := by
  cases hu : u.dropWhile (· != '<') with
  | nil =>
    simp only [noted, StaticExport.scanStep, ChangeSet.scanStep, hu, List.map_nil]
    exact .halt .nil
  | cons c tail =>
  have hsection : ∀ rest, sectionEnd (htmlMode sourcePath) tail = some rest →
      ∃ inner, markupTagEnd none tail = some (inner, rest) := by
    intro rest hrest
    simp only [sectionInStep, hu, hrest, beq_iff_eq, Option.map_eq_some_iff, Prod.exists] at hsections
    obtain ⟨inner, _, hend, rfl⟩ := hsections
    exact ⟨inner, hend⟩
  have hmode : (StaticExport.textMediaTypeForPath sourcePath = some .html) = (htmlMode sourcePath = true) := by
    simp [htmlMode]
  simp only [noted, StaticExport.scanStep, ChangeSet.scanStep, hu, hmode]
  by_cases hcomment : "!--".toList.isPrefixOf tail = true
  · -- both scanners skip a comment
    simp only [hcomment, ↓reduceIte, StaticExport.skipSection]
    have hlen : "!--".toList.length = 3 := rfl
    rw [hlen]
    cases splitOnce "-->".toList (tail.drop 3) with
    | none => exact .fail
    | some p => exact .next .nil
  simp only [hcomment]
  by_cases hcdata : "![CDATA[".toList.isPrefixOf tail = true
  · simp only [hcdata, ↓reduceIte, StaticExport.skipSection]
    cases hsplit : splitOnce "]]>".toList (tail.drop "![CDATA[".toList.length) with
    | none => exact .fail
    | some p =>
      obtain ⟨body, rest⟩ := p
      have hsplit' : splitOnce "]]>".toList (tail.drop 8) = some (body, rest) := hsplit
      obtain ⟨inner, hend⟩ := hsection rest (by
        simp only [sectionEnd, hcdata, ↓reduceIte, hsplit', Option.map_some])
      have hnone := tagName_declaration (.inl rfl) (prefix_head rfl hcdata) hend
      simp only [hend, ChangeSet.parseTagBody, hnone, Option.map_none]
      exact .next .nil
  simp only [hcdata]
  by_cases hpi : ¬ (htmlMode sourcePath = true) ∧ "?".toList.isPrefixOf tail = true
  · simp only [hpi, StaticExport.skipSection]
    cases hsplit : splitOnce "?>".toList (tail.drop "?".toList.length) with
    | none => exact .fail
    | some p =>
      obtain ⟨body, rest⟩ := p
      have hsplit' : splitOnce "?>".toList (tail.drop 1) = some (body, rest) := hsplit
      have hhtml : htmlMode sourcePath = false := Bool.not_eq_true _ ▸ hpi.1
      obtain ⟨inner, hend⟩ := hsection rest (by
        simp only [sectionEnd, hcdata, hhtml, hpi.2, Bool.not_false, Bool.and_self, ↓reduceIte,
          hsplit', Option.map_some, Bool.false_eq_true])
      have hnone := tagName_declaration (.inr rfl) (prefix_head rfl hpi.2) hend
      simp only [hend, ChangeSet.parseTagBody, hnone, Option.map_none]
      exact .next .nil
  simp only [hpi]
  cases hend : markupTagEnd none tail with
  | none =>
    simp only [stray, hu, hend, Option.isNone_none, Bool.and_true, Bool.not_eq_false'] at hstray
    exact absurd hstray hcomment
  | some p =>
  obtain ⟨inner, rest⟩ := p
  cases hname : tagName (trim inner) with
  | none =>
    simp only [StaticExport.parseTagBody, ChangeSet.parseTagBody, hname, Option.map_none]
    exact .next .nil
  | some q =>
  obtain ⟨name, closing, attributes⟩ := q
  have hbody : rawBody u = ((rawTextElementBounds rest name).map Prod.fst).getD [] := by
    simp only [rawBody, hu, hend, hname]
  simp only [ChangeSet.parseTagBody, hname, Option.map_some]
  cases closing with
  | true =>
    simp only [StaticExport.parseTagBody_closing hname, ↓reduceIte, Bool.not_true, Bool.false_and]
    exact .next (.cons sameElement_closing .nil)
  | false =>
  have hPname := hP name attributes (by simp only [tagAt, hu, hend, Option.bind_some, hname])
  rw [StaticExport.parseTagBody_start hname]
  cases hattrs : StaticExport.parseAttributes sourcePath attributes with
  | error error => exact .fail
  | ok list =>
  simp only [Except.map, Bool.not_false, Bool.true_and, Bool.decide_eq_true, Bool.false_eq_true,
    ↓reduceIte, Bool.and_eq_true, beq_iff_eq]
  by_cases hplain : htmlMode sourcePath = true ∧ name = "plaintext".toList
  · simp only [hplain, and_self, ↓reduceIte]
    rw [hplain.2] at hPname
    exact .halt (.cons (sameElement_plain (by decide) hPname hattrs) .nil)
  simp only [hplain, ↓reduceIte]
  by_cases hraw : rawTextElement name (htmlMode sourcePath) = true
  · simp only [hraw, ↓reduceIte, StaticExport.scanRawTextElement]
    cases hbounds : rawTextElementBounds rest name with
    | none => exact .fail
    | some p =>
      have hbody' : rawBody u = p.1 := by simp [hbody, hbounds]
      simp only [List.map_cons, List.map_nil, hbody']
      exact .next (.cons (sameElement_raw hPname hattrs) .nil)
  · simp only [hraw]
    have hscript : name ≠ "script".toList := by
      rintro rfl
      exact hraw rfl
    exact .next (.cons (sameElement_plain hscript hPname hattrs) .nil)

/-! ## Whole texts -/

theorem scanStep_stray {htmlMode : Bool} {u : Text} (h : stray u = true) :
    ChangeSet.scanStep K htmlMode u = .halt [] := by
  simp only [stray] at h
  split at h
  · cases h
  rename_i c tail hu
  simp only [Bool.and_eq_true, Bool.not_eq_true', Option.isNone_iff_eq_none] at h
  simp only [ChangeSet.scanStep, hu, h.1, h.2, Bool.false_eq_true, ↓reduceIte]

theorem skipSection_silent {opener closer tail : Text} :
    Silent (StaticExport.skipSection sourcePath opener closer tail) := by
  simp only [StaticExport.skipSection]
  split
  · exact .next _
  · exact .fail _

theorem scanStep_silent {u : Text} (h : tagAt u = none) : Silent (StaticExport.scanStep sourcePath u) := by
  simp only [StaticExport.scanStep]
  split
  · exact .halt
  rename_i c tail hu
  split
  · exact skipSection_silent
  split
  · exact skipSection_silent
  split
  · exact skipSection_silent
  split
  · split
    · exact .fail _
    · exact .next _
  rename_i inner rest hend
  simp only [tagAt, hu, hend, Option.bind_some] at h
  simp only [StaticExport.parseTagBody, h]
  exact .next _

theorem scanStep_not_silent {u : Text} (h : tagAt u ≠ none)
    (hok : ∀ error, StaticExport.scanStep sourcePath u ≠ .fail error) :
    ¬ Silent (StaticExport.scanStep sourcePath u) := by
  obtain ⟨⟨name, closing, attributes⟩, hname⟩ := Option.ne_none_iff_exists'.mp h
  simp only [tagAt] at hname
  split at hname
  · cases hname
  rename_i c tail hat
  obtain ⟨⟨inner, rest⟩, hend, hname⟩ := Option.bind_eq_some_iff.mp hname
  have notDeclaration : ∀ {c : Char} {p : Text}, c = '!' ∨ c = '?' → p.head? = some c → ¬ p.isPrefixOf tail = true := by
    intro c p hc hp hprefix
    rw [tagName_declaration hc (prefix_head hp hprefix) hend] at hname
    cases hname
  have hcomment := notDeclaration (.inl rfl) (rfl : "!--".toList.head? = _)
  have hcdata := notDeclaration (.inl rfl) (rfl : "![CDATA[".toList.head? = _)
  have hpi := notDeclaration (.inr rfl) (rfl : "?".toList.head? = _)
  intro hsilent
  simp only [StaticExport.scanStep, hat, hcomment, hcdata, hpi, hend, Bool.false_eq_true, and_false,
    ↓reduceIte] at hok hsilent
  cases closing with
  | true =>
    simp only [StaticExport.parseTagBody_closing hname, Bool.not_true, Bool.false_and] at hsilent
    cases hsilent
  | false =>
  rw [StaticExport.parseTagBody_start hname] at hok hsilent
  cases hattrs : StaticExport.parseAttributes sourcePath attributes with
  | error error =>
    rw [hattrs] at hok
    exact hok error rfl
  | ok list =>
  simp only [hattrs, Except.map] at hok hsilent
  split at hsilent
  · cases hsilent
  rename_i hplain
  simp only [hplain] at hok
  split at hsilent
  · rename_i hraw
    simp only [hraw, ↓reduceIte] at hok
    cases hbounds : StaticExport.scanRawTextElement sourcePath rest name with
    | error error =>
      simp only [hbounds] at hok
      exact hok error rfl
    | ok p =>
      simp only [hbounds] at hsilent
      cases hsilent
  · cases hsilent

theorem stray_quiet {text : Text} (hstrays : NoTagAfterStray sourcePath text) {u : Text}
    (hu : Visits (StaticExport.scanStep sourcePath) text u) (hstray : stray u = true) :
    Quiet (StaticExport.scanStep sourcePath) u :=
  fun v hv => scanStep_silent (hstrays u hu hstray v hv)

/-- In step, the scanners read the same elements. -/
theorem same_elements {text : Text} (hsections : SectionsInStep sourcePath text)
    (hstrays : NoTagAfterStray sourcePath text)
    (hP : ∀ u name attributes, Visits (StaticExport.scanStep sourcePath) text u →
      tagAt u = some (name, false, attributes) → P name attributes)
    {all : List (StaticExport.MarkupTag × Text)} (hok : elements sourcePath text = .ok all) :
    List.Forall₂ (SameElement K sourcePath P) all
      (ChangeSet.scanMarkupTags K text (htmlMode sourcePath)) := by
  refine run_inStep (noted_productive (StaticExport.scanStep_productive sourcePath))
    (ChangeSet.scanStep_productive K _) text ?_ hok
  intro u hu
  have hvisit := noted_visits hu
  by_cases hstray : stray u = true
  · refine .inr ⟨scanStep_stray hstray, ?_⟩
    intro v hv
    have := stray_quiet hstrays hvisit hstray v (noted_visits hv)
    simp only [noted]
    generalize StaticExport.scanStep sourcePath v = s at this
    cases this with
    | halt => exact .halt
    | fail error => exact .fail error
    | next rest => exact .next rest
  · exact .inl (step_inStep (hsections u hvisit) (Bool.eq_false_of_not_eq_true hstray)
      fun name attributes => hP u name attributes hvisit)

end

theorem elements_ok {sourcePath text : Text} {tags : List StaticExport.MarkupTag}
    (h : StaticExport.scanMarkupTags sourcePath text = .ok tags) :
    ∃ all, elements sourcePath text = .ok all ∧ all.map Prod.fst = tags := by
  have hmap := elements_tags sourcePath text
  rw [h] at hmap
  obtain ⟨all, hall, rfl⟩ := Outcome.map_ok.mp hmap
  exact ⟨all, hall, rfl⟩

/-- `static_export.rs` reads `text`, `change_set.rs` reads it in step, and every start tag satisfies `P`. -/
structure ReadAlike (P : Text → Text → Prop) (sourcePath text : Text) : Prop where
  scans : ∃ tags, StaticExport.scanMarkupTags sourcePath text = .ok tags
  sections : SectionsInStep sourcePath text
  strays : NoTagAfterStray sourcePath text
  starts : ∀ u, Visits (StaticExport.scanStep sourcePath) text u →
    ∀ name attributes, tagAt u = some (name, false, attributes) → P name attributes

instance {P : Text → Text → Prop} [∀ name attributes, Decidable (P name attributes)]
    (sourcePath text : Text) : Decidable (ReadAlike P sourcePath text) :=
  decidable_of_iff
    ((StaticExport.scanMarkupTags sourcePath text).toBool = true ∧ SectionsInStep sourcePath text ∧
      NoTagAfterStray sourcePath text ∧
      ∀ u ∈ trail (StaticExport.scanStep sourcePath) text, (tagAt u).all fun (name, closing, attributes) =>
        closing || decide (P name attributes))
    (by
      have hscan : (StaticExport.scanMarkupTags sourcePath text).toBool = true ↔
          ∃ tags, StaticExport.scanMarkupTags sourcePath text = .ok tags := by
        cases StaticExport.scanMarkupTags sourcePath text <;> simp [Except.toBool]
      simp only [hscan, mem_trail (StaticExport.scanStep_productive sourcePath)]
      constructor
      · rintro ⟨hscans, hsections, hstrays, hstarts⟩
        refine ⟨hscans, hsections, hstrays, fun u hu name attributes htag => ?_⟩
        simpa [htag] using hstarts u hu
      · intro h
        refine ⟨h.scans, h.sections, h.strays, fun u hu => ?_⟩
        cases htag : tagAt u with
        | none => rfl
        | some tag =>
          obtain ⟨name, closing, attributes⟩ := tag
          cases closing with
          | true => rfl
          | false => simpa using h.starts u hu name attributes htag)

theorem ReadAlike.same {K : Crates} {P : Text → Text → Prop} {sourcePath text : Text}
    (h : ReadAlike P sourcePath text) :
    ∃ all, elements sourcePath text = .ok all ∧
      List.Forall₂ (SameElement K sourcePath P) all
        (ChangeSet.scanMarkupTags K text (htmlMode sourcePath)) := by
  obtain ⟨tags, htags⟩ := h.scans
  obtain ⟨all, hall, -⟩ := elements_ok htags
  exact ⟨all, hall, same_elements h.sections h.strays (fun u name attributes hu => h.starts u hu name attributes) hall⟩

/-- The (tag name, closing) pairs each scanner yields. -/
def namesRead (tags : List StaticExport.MarkupTag) : List (Text × Bool) :=
  tags.map fun tag => (tag.name, tag.closing)

def namesSeen (tags : List ChangeSet.MarkupTag) : List (Text × Bool) :=
  tags.map fun tag => (tag.name, tag.closing)

theorem forall₂_names {K sourcePath P} {all : List (StaticExport.MarkupTag × Text)}
    {tags : List ChangeSet.MarkupTag} (h : List.Forall₂ (SameElement K sourcePath P) all tags) :
    namesSeen tags = namesRead (all.map Prod.fst) := by
  induction h with
  | nil => rfl
  | cons hhead _ ih =>
    obtain ⟨hname, hclosing, -⟩ := hhead
    simp only [namesSeen, namesRead, List.map_cons] at ih ⊢
    rw [hname, hclosing, ih]

/-- Whenever the reference scanner succeeds and its sections are in step, the behaviour scanner yields
the same tags if and only if no tag follows a stray `<`. -/
theorem scanners_agree_iff (K : Crates) (sourcePath text : Text) (tags : List StaticExport.MarkupTag)
    (hok : StaticExport.scanMarkupTags sourcePath text = .ok tags)
    (hsections : SectionsInStep sourcePath text) :
    namesSeen (ChangeSet.scanMarkupTags K text (htmlMode sourcePath)) = namesRead tags ↔
      NoTagAfterStray sourcePath text := by
  have hp := StaticExport.scanStep_productive sourcePath
  obtain ⟨all, hall, rfl⟩ := elements_ok hok
  constructor
  · intro hnames u hu hstray v hv
    by_contra hopens
    have hlen : all.length = (ChangeSet.scanMarkupTags K text (htmlMode sourcePath)).length := by
      simpa [namesSeen, namesRead] using (congrArg List.length hnames).symm
    have hagree : ∀ w, Visits (StaticExport.scanStep sourcePath) text w →
        InStep (fun _ _ => True) (StaticExport.scanStep sourcePath w)
          (ChangeSet.scanStep K (htmlMode sourcePath) w) ∨
        ChangeSet.scanStep K (htmlMode sourcePath) w = .halt [] := by
      intro w hw
      by_cases hstray : stray w = true
      · exact .inr (scanStep_stray hstray)
      · exact .inl (step_inStep (P := fun _ _ => True) (hsections w hw)
          (Bool.eq_false_of_not_eq_true hstray) fun _ _ _ => trivial).of_noted
    have hnil : run (StaticExport.scanStep sourcePath) u = .ok [] :=
      run_nil_of_stop hp (ChangeSet.scanStep_productive K _) hagree hok
        (by rw [List.length_map, hlen]; rfl) hu
        (scanStep_stray hstray)
    exact scanStep_not_silent hopens (run_ok_visits hp hok (hu.trans hv))
      (quiet_of_run_nil hp hnil v hv)
  · intro hstrays
    exact forall₂_names (same_elements hsections hstrays (fun _ _ _ _ _ => trivial) hall)

theorem scanners_agree_iff_svg :
    namesSeen (ChangeSet.scanMarkupTags sampleCrates "<![CDATA[x]]><g/>1 < 2".toList
      (htmlMode "icon.svg".toList)) = [("g".toList, false)] := by
  refine Eq.trans ((scanners_agree_iff sampleCrates "icon.svg".toList "<![CDATA[x]]><g/>1 < 2".toList
    [⟨"g".toList, false, [], none, false⟩] (by decide) (by decide)).mpr (by decide)) (by decide)

/-- A stray `<` in front of an apostrophe hides the rest of an HTML page, and a quote in a CDATA section
or in a processing instruction hides the rest of an SVG image. -/
theorem scanners_disagree :
    (StaticExport.scanMarkupTags "index.html".toList "1 < 2, isn't it <b onclick=f()>".toList =
        .ok [⟨"b".toList, false, [("onclick".toList, "f()".toList)], none, false⟩] ∧
      ChangeSet.scanMarkupTags sampleCrates "1 < 2, isn't it <b onclick=f()>".toList true = []) ∧
    (StaticExport.scanMarkupTags "icon.svg".toList "<![CDATA[']]><script></script>".toList =
        .ok [⟨"script".toList, false, [], none, false⟩] ∧
      ChangeSet.scanMarkupTags sampleCrates "<![CDATA[']]><script></script>".toList false = []) ∧
    (StaticExport.scanMarkupTags "icon.svg".toList "<?x '?><script></script>".toList =
        .ok [⟨"script".toList, false, [], none, false⟩] ∧
      ChangeSet.scanMarkupTags sampleCrates "<?x '?><script></script>".toList false = []) := by
  decide

/-- A section out of step may go unnoticed: here both scanners read one `b`, not the same one. -/
example : let text := "<![CDATA[><b> <'] ]]><b>".toList
    sectionInStep false text = false ∧
    (StaticExport.scanMarkupTags "icon.svg".toList text).map namesRead = .ok [("b".toList, false)] ∧
    namesSeen (ChangeSet.scanMarkupTags sampleCrates text false) = [("b".toList, false)] := by
  decide

end LpStudio.Markup
