import LpStudio.ChangeSet.Lemmas.MediaType
import LpStudio.ChangeSet.Syntax
import LpStudio.Markup.Attributes
import LpStudio.Server.Targets

/-! # The resolution of Targets
`resolve_target_against_files` looks for the element of a Target by the tags that `change_set.rs` reads, and when the
element it finds is the only one that `static_export.rs` reads.
-/
namespace LpStudio.Server.Targets
open Str Scanning Markup

def targetSchemaVersion : ℕ := 1
def targetResolverVersion : ℕ := 1

/-! ## Counting -/

def identifierNames : List Text := ["id".toList, "data-lp-id".toList, "data-studio-block".toList]

/-- An attribute that gives the element the identifier. -/
def names (identifier : Text) (a : Text × Text) : Bool := a.1 ∈ identifierNames && a.2 == identifier

def hasIdentifier (identifier : Text) (tag : ChangeSet.MarkupTag) : Bool :=
  !tag.closing && tag.attributes.any (names identifier)

/-- The loop of `count_matching_start_tags`. -/
def countTag (tagName identifier : Text) (counts : ℕ × ℕ) (tag : ChangeSet.MarkupTag) : ℕ × ℕ :=
  if hasIdentifier identifier tag then
    (counts.1 + 1, if eqIgnoreCase tag.name tagName then counts.2 + 1 else counts.2)
  else counts

def countMatchingStartTags (K : Crates) (html tagName identifier : Text) : ℕ × ℕ :=
  (ChangeSet.scanMarkupTags K html true).foldl (countTag tagName identifier) (0, 0)

def countAnchorOccurrences (K : Crates) (html : Text) (anchor : ElementAnchor) : ℕ × Bool :=
  match anchor.uniqueElementId with
  | none => (0, false)
  | some identifier =>
    let (identifierCount, matchingTagCount) := countMatchingStartTags K html anchor.tagName identifier
    (identifierCount, matchingTagCount == 1)

/-! ## The resolver -/

/-- `str::matches(pat).count()` -/
def matchCount (pat t : Text) : ℕ := if pat = [] then t.length + 1 else (afterMatches pat 0 t).length

def resolvedCandidate (score : ℚ) (reasons : List String) (target : TargetRecord) : TargetResolutionCandidate :=
  ⟨"candidate-1".toList, score, reasons.map String.toList, target.label⟩

/-- What the occurrences of its anchor make of a Target. -/
def resolveAnchor (html : Text) (target : TargetRecord) (anchor : ElementAnchor) (occurrences : ℕ × Bool) :
    TargetResolutionStatus × List TargetResolutionCandidate :=
  let (identifierCount, tagMatch) := occurrences
  if identifierCount = 1 ∧ tagMatch then
    if target.textAnchor.any fun text => contains text.exact html then
      (.resolved, [resolvedCandidate (98 / 100) ["unique_id", "semantic_fingerprint", "text_quote"] target])
    else (.resolved, [resolvedCandidate (92 / 100) ["unique_id", "semantic_fingerprint"] target])
  else if 1 < identifierCount then
    (.ambiguous, (List.range (min identifierCount 5)).map fun index =>
      ⟨"candidate-".toList ++ Nat.toDigits 10 (index + 1), 72 / 100, ["unique_id".toList, "geometry".toList], target.label⟩)
  else
    let quoteMatches := (target.textAnchor.map fun text => matchCount text.exact html).getD 0
    let nameMatches := (anchor.accessibleName.map fun name => matchCount name html).getD 0
    if 0 < quoteMatches ∨ 0 < nameMatches then (.ambiguous, [resolvedCandidate (65 / 100) ["text_quote"] target])
    else (.detached, [])

/-- The page of a Target, as UTF-8. -/
def targetPage (files : Files) (target : TargetRecord) : Option Text := files[target.pagePath]?.bind decode

def isResolved : TargetResolutionStatus → Bool
  | .resolved => true
  | _ => false

def resolution (target : TargetRecord) (resolvedRevisionId : Text)
    (found : TargetResolutionStatus × List TargetResolutionCandidate) : TargetResolution where
  schemaVersion := targetSchemaVersion
  resolverVersion := targetResolverVersion
  targetId := target.targetId
  captureRevisionId := target.captureRevisionId
  resolvedRevisionId
  status := found.1
  selectedCandidateId := if isResolved found.1 then some "candidate-1".toList else none
  candidates := found.2

def isPageKind : TargetKind → Bool
  | .page => true
  | _ => false

def resolveTargetAgainstFiles (K : Crates) (target : TargetRecord) (files : Files) (resolvedRevisionId : Text) :
    Except ApiError TargetResolution :=
  match targetPage files target with
  | none => .ok (resolution target resolvedRevisionId (.detached, []))
  | some html =>
    if isPageKind target.kind then
      .ok (resolution target resolvedRevisionId
        (.resolved, [resolvedCandidate 1 ["semantic_fingerprint", "dom_path"] target]))
    else match targetAnchor target with
    | none => .error .invalid
    | some anchor =>
      .ok (resolution target resolvedRevisionId
        (resolveAnchor html target anchor (countAnchorOccurrences K html anchor)))

/-! ## What is counted -/

section
variable {K : Crates} {html tagName identifier : Text}

theorem countTag_foldl (tags : List ChangeSet.MarkupTag) (counts : ℕ × ℕ) :
    tags.foldl (countTag tagName identifier) counts =
      (counts.1 + (tags.filter (hasIdentifier identifier)).length,
        counts.2 + (tags.filter (hasIdentifier identifier)).countP fun tag => eqIgnoreCase tag.name tagName) := by
  induction tags generalizing counts with
  | nil => rfl
  | cons tag tags ih =>
    rw [List.foldl_cons, ih]
    cases hhas : hasIdentifier identifier tag with
    | false =>
      rw [countTag, hhas, if_neg Bool.false_ne_true, List.filter_cons_of_neg (by rw [hhas]; exact Bool.false_ne_true)]
    | true =>
      rw [countTag, hhas, if_pos rfl, List.filter_cons_of_pos hhas, List.length_cons, List.countP_cons]
      refine Prod.ext (by dsimp only; omega) ?_
      dsimp only
      split <;> omega

/-- A Target is resolved only if one start tag that `change_set.rs` reads has the identifier, and that of the anchor. -/
theorem countMatchingStartTags_one (h : countMatchingStartTags K html tagName identifier = (1, 1)) :
    ∃ tag, (ChangeSet.scanMarkupTags K html true).filter (hasIdentifier identifier) = [tag] ∧
      eqIgnoreCase tag.name tagName = true := by
  rw [countMatchingStartTags, countTag_foldl, Nat.zero_add, Nat.zero_add, Prod.mk.injEq, List.length_eq_one_iff] at h
  obtain ⟨⟨tag, htag⟩, hcount⟩ := h
  refine ⟨tag, htag, ?_⟩
  rw [htag, List.countP_singleton] at hcount
  split at hcount
  · assumption
  · cases hcount

end

theorem resolveAnchor_resolved {html : Text} {target : TargetRecord} {anchor : ElementAnchor} {occurrences : ℕ × Bool}
    (h : (resolveAnchor html target anchor occurrences).1 = .resolved) : occurrences = (1, true) := by
  obtain ⟨identifierCount, tagMatch⟩ := occurrences
  dsimp only [resolveAnchor] at h
  split at h
  · rename_i hone
    exact Prod.ext hone.1 hone.2
  split at h
  · cases h
  split at h
  · cases h
  · cases h

/-- A Target with an anchor is resolved only by an identifier that is counted once, at a tag of its name. -/
theorem resolve_resolved {K : Crates} {target : TargetRecord} {files : Files} {revisionId text : Text}
    {anchor : ElementAnchor} {found : TargetResolution} (hpage : targetPage files target = some text)
    (hanchor : targetAnchor target = some anchor)
    (h : resolveTargetAgainstFiles K target files revisionId = .ok found) (hresolved : found.status = .resolved) :
    ∃ identifier, anchor.uniqueElementId = some identifier ∧
      countMatchingStartTags K text anchor.tagName identifier = (1, 1) := by
  have hkind : isPageKind target.kind = false := by
    unfold targetAnchor at hanchor
    cases hk : target.kind with
    | page =>
      rw [hk] at hanchor
      cases hanchor
    | _ => rfl
  simp only [resolveTargetAgainstFiles, hpage, hkind, hanchor, Bool.false_eq_true, ↓reduceIte] at h
  cases h
  have hcounts := resolveAnchor_resolved hresolved
  unfold countAnchorOccurrences at hcounts
  cases hid : anchor.uniqueElementId with
  | none =>
    rw [hid] at hcounts
    cases hcounts
  | some identifier =>
    rw [hid] at hcounts
    obtain ⟨hone, hmatch⟩ := Prod.mk.inj hcounts
    exact ⟨identifier, rfl, Prod.ext hone (of_decide_eq_true hmatch)⟩

/-! ## The tags of the strict scanner -/

/-- A start tag that `static_export.rs` reads gives its element the identifier. -/
def bears (identifier : Text) (tag : StaticExport.MarkupTag) : Bool :=
  !tag.closing && tag.attributes.any (names identifier)

/-- One start tag of the page bears the identifier, and it has the name. -/
def OnlyOne (path text tagName identifier : Text) : Prop :=
  ∃ tags tag, StaticExport.scanMarkupTags path text = .ok tags ∧ tags.filter (bears identifier) = [tag] ∧
    eqIgnoreCase tag.name tagName = true

/-- No unquoted value with a `/` in it stands for the identifier, whole or up to its `/`. -/
def Unmistaken (identifier sourcePath attributes : Text) : Prop :=
  ∀ u, Visits (StaticExport.attributeStep sourcePath) attributes u → unquotedSlash u = true →
    attributeName u ∈ identifierNames → ∀ value ∈ valueAt sourcePath u,
      value ≠ identifier ∧ value.takeWhile (· != '/') ≠ identifier

instance (identifier sourcePath attributes : Text) : Decidable (Unmistaken identifier sourcePath attributes) :=
  decidable_of_iff (∀ u ∈ trail (StaticExport.attributeStep sourcePath) attributes, unquotedSlash u = true →
      attributeName u ∈ identifierNames → ∀ value ∈ valueAt sourcePath u,
        value ≠ identifier ∧ value.takeWhile (· != '/') ≠ identifier)
    (by simp only [mem_trail (StaticExport.attributeStep_productive sourcePath)]; rfl)

/-- Both scanners read the same tags of the page, and the same of them with the identifier. -/
abbrev IdentifierReadable (identifier sourcePath text : Text) : Prop :=
  ReadAlike (fun _ => Unmistaken identifier sourcePath) sourcePath text

section
variable {K : Crates} {identifier sourcePath : Text}

theorem hasIdentifier_same (hne : identifier ≠ []) {e : StaticExport.MarkupTag × Text} {tag : ChangeSet.MarkupTag}
    (h : SameElement K sourcePath (fun _ => Unmistaken identifier sourcePath) e tag) :
    hasIdentifier identifier tag = bears identifier e.1 := by
  obtain ⟨-, hclosing, -, ⟨hc, ha, hl⟩ | ⟨hc, rest, hunmistaken, hstrict, hlenient⟩⟩ := h
  · rw [hasIdentifier, bears, hclosing, hc, ha, hl]
  · have hblank : ∀ name, names identifier (name, []) = false := by
      intro name
      simp [names, hne]
    have hfilter : tag.attributes.filter (names identifier) = e.1.attributes.filter (names identifier) := by
      rw [hlenient]
      refine parseAttributes_filter hblank hstrict fun u hu hslash value hvalue => ?_
      by_cases hname : attributeName u ∈ identifierNames
      · obtain ⟨hwhole, hcut⟩ := hunmistaken u hu hslash hname value hvalue
        simp [names, hwhole, hcut]
      · simp [names, hname]
    have hany : ∀ l : List (Text × Text), l.any (names identifier) = !(l.filter (names identifier)).isEmpty := by
      intro l
      rw [Bool.eq_iff_iff, Bool.not_eq_true', List.isEmpty_eq_false_iff, ne_eq, List.filter_eq_nil_iff, List.any_eq_true]
      push Not
      rfl
    rw [hasIdentifier, bears, hclosing, hc, hany, hany, hfilter]

theorem filter_same (hne : identifier ≠ []) {all : List (StaticExport.MarkupTag × Text)}
    {tags : List ChangeSet.MarkupTag}
    (h : List.Forall₂ (SameElement K sourcePath fun _ => Unmistaken identifier sourcePath) all tags) :
    List.Forall₂ (fun tag strict => tag.name = strict.name) (tags.filter (hasIdentifier identifier))
      ((all.map Prod.fst).filter (bears identifier)) := by
  induction h with
  | nil => exact .nil
  | @cons e tag all tags hhead _ ih =>
    have hsame := hasIdentifier_same hne hhead
    rw [List.map_cons]
    cases hhas : bears identifier e.1 with
    | false =>
      rw [hhas] at hsame
      rw [List.filter_cons_of_neg (by rw [hsame]; exact Bool.false_ne_true),
        List.filter_cons_of_neg (by rw [hhas]; exact Bool.false_ne_true)]
      exact ih
    | true =>
      rw [hhas] at hsame
      rw [List.filter_cons_of_pos hsame, List.filter_cons_of_pos hhas]
      exact .cons hhead.1 ih

end

/-! ## Valid Targets -/

theorem accept_ok {condition : Bool} : accept condition = .ok () ↔ condition = true := by
  cases condition with
  | false => exact ⟨fun h => (by cases h), fun h => (by cases h)⟩
  | true => exact ⟨fun _ => rfl, fun _ => rfl⟩

theorem getLast_segments_suffix {path last : Text} (h : (Paths.segments path).getLast? = some last) :
    last.isSuffixOf path = true := by
  have hjoin : ∀ l : List Text, l.getLast? = some last → last <:+ ['/'].intercalate l := by
    intro l hl
    induction l with
    | nil => cases hl
    | cons name l ih =>
      cases l with
      | nil =>
        cases hl
        rw [List.intercalate_singleton]
        exact List.suffix_rfl
      | cons next l =>
        rw [List.getLast?_cons_cons] at hl
        rw [List.intercalate_cons_cons]
        exact (ih hl).trans (List.suffix_append _ _)
  have hpath : ['/'].intercalate (Paths.segments path) = path := List.intercalate_splitOn '/'
  rw [List.isSuffixOf_iff_suffix, ← hpath]
  exact hjoin _ h

/-- The page of a Target is HTML for the strict scanner too. -/
theorem htmlMode_of_safe {K : Crates} {path : Text} (h : isSafePagePath K path = true) : htmlMode path = true := by
  rw [isSafePagePath, Bool.and_eq_true, Option.any_eq_true] at h
  obtain ⟨-, ⟨stem, extension⟩, hsplit, h⟩ := h
  rw [Bool.and_eq_true, Bool.or_eq_true] at h
  obtain ⟨-, hextension⟩ := h
  obtain ⟨hlast, -⟩ := rsplitOnce_eq_some.mp hsplit
  have hsuffix : ('.' :: lower extension) <:+ lower path := by
    cases hget : (Paths.segments path).getLast? with
    | none =>
      rw [hget] at hlast
      simp at hlast
    | some last =>
      rw [hget, Option.getD_some] at hlast
      obtain ⟨before, rfl⟩ := List.isSuffixOf_iff_suffix.mp (getLast_segments_suffix hget)
      rw [hlast]
      exact ⟨lower before ++ lower stem, by simp [lower]⟩
  have hhtml : StaticExport.textMediaTypeForPath path = some .html := by
    unfold StaticExport.textMediaTypeForPath
    refine if_pos ?_
    rw [Bool.or_eq_true, List.isSuffixOf_iff_suffix, List.isSuffixOf_iff_suffix]
    refine hextension.imp (fun he => ?_) fun he => ?_
    · rw [show lower extension = "html".toList from (beq_iff_eq.mp he).trans (by decide)] at hsuffix
      exact hsuffix
    · rw [show lower extension = "htm".toList from (beq_iff_eq.mp he).trans (by decide)] at hsuffix
      exact hsuffix
  exact decide_eq_true hhtml

section
variable {K : Crates} {target : TargetRecord} {anchor : ElementAnchor}

theorem validateTargetShape_ok (h : validateTargetShape K target = .ok ()) :
    isSafePagePath K target.pagePath = true ∧
      (∀ anchor ∈ target.elementAnchor, validateElementAnchor anchor = .ok ()) ∧
      ∀ region ∈ target.regionAnchor, validateRegionAnchor region = .ok () := by
  obtain ⟨hids, h⟩ := Outcome.check_ok.mp h
  obtain ⟨-, h⟩ := Outcome.check_ok.mp h
  obtain ⟨-, h⟩ := Outcome.check_ok.mp h
  obtain ⟨-, h⟩ := Outcome.check_ok.mp h
  obtain ⟨-, h⟩ := Outcome.check_ok.mp h
  obtain ⟨-, h⟩ := Outcome.check_ok.mp h
  obtain ⟨-, h⟩ := Outcome.check_ok.mp h
  obtain ⟨helement, h⟩ := Outcome.check_ok.mp h
  obtain ⟨-, h⟩ := Outcome.check_ok.mp h
  obtain ⟨hregion, -⟩ := Outcome.check_ok.mp h
  have hsafe := accept_ok.mp hids
  rw [Bool.and_eq_true] at hsafe
  exact ⟨hsafe.2, fun anchor hmem => Outcome.forM_ok.mp helement anchor (Option.mem_toList.mpr hmem),
    fun region hmem => Outcome.forM_ok.mp hregion region (Option.mem_toList.mpr hmem)⟩

theorem validateElementAnchor_of_target (h : validateTargetShape K target = .ok ())
    (hanchor : targetAnchor target = some anchor) : validateElementAnchor anchor = .ok () := by
  obtain ⟨-, helement, hregion⟩ := validateTargetShape_ok h
  have hcontaining : ∀ anchor ∈ target.regionAnchor.bind (·.containingBlock), validateElementAnchor anchor = .ok () := by
    intro anchor hmem
    obtain ⟨region, hr, hblock⟩ := Option.bind_eq_some_iff.mp hmem
    refine Outcome.forM_ok.mp (hregion region hr) anchor ?_
    rw [List.reduceOption_mem_iff, hblock]
    exact List.mem_cons_self
  unfold targetAnchor at hanchor
  cases hk : target.kind with
  | page =>
    rw [hk] at hanchor
    cases hanchor
  | block | element | text =>
    rw [hk] at hanchor
    exact helement anchor hanchor
  | point | region =>
    rw [hk] at hanchor
    exact hcontaining anchor hanchor

theorem identifier_ne_nil {identifier : Text} (h : validateElementAnchor anchor = .ok ())
    (hid : anchor.uniqueElementId = some identifier) : identifier ≠ [] := by
  rintro rfl
  obtain ⟨-, h⟩ := Outcome.check_ok.mp h
  obtain ⟨hids, -⟩ := Outcome.check_ok.mp h
  have hblank := Outcome.forM_ok.mp hids [] (List.reduceOption_mem_iff.mpr (by rw [hid]; exact List.mem_cons_self))
  cases hblank

end

/-! ## The element that is found -/

/-- Where both scanners read the identifier alike, a resolved Target has its element, and only that one. -/
theorem resolved_only_one (K : Crates) (target : TargetRecord) (files : Files) (revisionId text : Text)
    (anchor : ElementAnchor) (found : TargetResolution) (hvalid : validateTargetShape K target = .ok ())
    (hpage : targetPage files target = some text) (hanchor : targetAnchor target = some anchor)
    (hread : ∀ identifier ∈ anchor.uniqueElementId, IdentifierReadable identifier target.pagePath text)
    (h : resolveTargetAgainstFiles K target files revisionId = .ok found) (hresolved : found.status = .resolved) :
    ∃ identifier ∈ anchor.uniqueElementId, OnlyOne target.pagePath text anchor.tagName identifier := by
  obtain ⟨identifier, hid, hcounts⟩ := resolve_resolved hpage hanchor h hresolved
  have hne := identifier_ne_nil (validateElementAnchor_of_target hvalid hanchor) hid
  obtain ⟨tag, htag, hname⟩ := countMatchingStartTags_one hcounts
  obtain ⟨all, hall, hsame⟩ := (hread identifier hid).same (K := K)
  rw [htmlMode_of_safe (validateTargetShape_ok hvalid).1] at hsame
  have hfilter := filter_same hne hsame
  rw [htag] at hfilter
  obtain ⟨strict, rest, hstrict, hnil, hfilter⟩ := List.forall₂_cons_left_iff.mp hfilter
  rw [List.forall₂_nil_left_iff.mp hnil] at hfilter
  refine ⟨identifier, hid, all.map Prod.fst, strict, ?_, hfilter, hstrict ▸ hname⟩
  rw [← elements_tags, hall]
  rfl

/-- A Target on the element `p` with the identifier `a/b`. -/
def sampleElement : TargetRecord where
  schemaVersion := 1
  targetId := "tgt_0123456789abcdef0123456789abcdef".toList
  captureRevisionId := "rev_0123456789abcdef0123456789abcdef".toList
  captureSource := .accepted
  captureProposalId := none
  pagePath := "index.html".toList
  kind := .element
  label := "One".toList
  viewport := ⟨1280, 720, 0, 0, 1, 1, 1⟩
  document := ⟨1280, 2000, 1⟩
  geometry := none
  point := none
  elementAnchor := some ⟨"p".toList, some "a/b".toList, none, none, none, none, none, none⟩
  textAnchor := none
  regionAnchor := none
  block := none

def samplePage (html : String) : Files := (∅ : Files).insert "index.html".toList (encode html.toList)

theorem samplePage_text (html : String) : targetPage (samplePage html) sampleElement = some html.toList := by
  unfold targetPage samplePage sampleElement
  rw [Std.ExtTreeMap.getElem?_insert_self]
  exact decode_encode _

theorem samplePage_resolved {html : String}
    (h : countMatchingStartTags sampleCrates html.toList "p".toList "a/b".toList = (1, 1)) :
    ∃ found, resolveTargetAgainstFiles sampleCrates sampleElement (samplePage html) sampleElement.captureRevisionId =
      .ok found ∧ found.status = .resolved := by
  unfold resolveTargetAgainstFiles
  rw [samplePage_text]
  refine ⟨_, rfl, ?_⟩
  change (resolveAnchor html.toList sampleElement _ ((countMatchingStartTags sampleCrates html.toList "p".toList
    "a/b".toList).1, (countMatchingStartTags sampleCrates html.toList "p".toList "a/b".toList).2 == 1)).1 = .resolved
  rw [h]
  rfl

theorem sampleElement_valid : validateTargetShape sampleCrates sampleElement = .ok () := by decide +kernel

/-- Other values may be cut. -/
theorem resolved_only_one_quoted : ∃ identifier ∈ some "a/b".toList, OnlyOne "index.html".toList
    "<p id='a/b'>One</p><p id=a>Two</p><a href=a/b>Next</a>".toList "p".toList identifier := by
  obtain ⟨found, hfound, hresolved⟩ :=
    @samplePage_resolved "<p id='a/b'>One</p><p id=a>Two</p><a href=a/b>Next</a>" (by decide)
  refine resolved_only_one sampleCrates sampleElement _ _ _ _ found sampleElement_valid (samplePage_text _) rfl ?_ hfound
    hresolved
  rintro identifier hid
  cases hid
  decide

/-- An unquoted identifier is cut, and a second element with it goes unnoticed. -/
theorem resolved_not_only_one : ¬ ∀ (K : Crates) (target : TargetRecord) (files : Files) (revisionId text : Text)
    (anchor : ElementAnchor) (found : TargetResolution), validateTargetShape K target = .ok () →
    targetPage files target = some text → targetAnchor target = some anchor →
    (∃ tags, StaticExport.scanMarkupTags target.pagePath text = .ok tags) →
    resolveTargetAgainstFiles K target files revisionId = .ok found → found.status = .resolved →
    ∃ identifier ∈ anchor.uniqueElementId, OnlyOne target.pagePath text anchor.tagName identifier := by
  intro h
  obtain ⟨found, hfound, hresolved⟩ :=
    @samplePage_resolved "<p id='a/b'>One</p><p id=a/b>Two</p>" (by decide)
  have hscan : StaticExport.scanMarkupTags "index.html".toList "<p id='a/b'>One</p><p id=a/b>Two</p>".toList = .ok
      [⟨"p".toList, false, [("id".toList, "a/b".toList)], none, false⟩, ⟨"p".toList, true, [], none, false⟩,
        ⟨"p".toList, false, [("id".toList, "a/b".toList)], none, false⟩, ⟨"p".toList, true, [], none, false⟩] := by
    decide
  obtain ⟨identifier, hid, tags, tag, htags, hone, -⟩ := h sampleCrates sampleElement _ _ _ _ found sampleElement_valid
    (samplePage_text _) rfl ⟨_, hscan⟩ hfound hresolved
  cases hid
  rw [show sampleElement.pagePath = "index.html".toList from rfl, hscan] at htags
  cases htags
  have hlength := congrArg List.length hone
  rw [List.length_singleton] at hlength
  revert hlength
  decide

end LpStudio.Server.Targets
