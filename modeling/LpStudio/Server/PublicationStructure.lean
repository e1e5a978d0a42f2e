import LpStudio.Server.Publication

/-! # What the texts of a publication can do to its views
A reader of the page recognises tags and attribute names, a reader of the story the block that each line opens. Both pass
over every text that the views escape. A reader of escapes reports the characters with a meaning that stand unescaped.
-/
namespace LpStudio.Server.Publication
open Str Interpolation

/-! ## Tags -/

inductive Markup where
  | tag (name : Text)
  | attribute (name : Text)
deriving DecidableEq

inductive HtmlState where
  | data
  | tagName (name : Text)
  | inTag
  | attributeName (name : Text)
  | beforeValue
  | quoted (quote : Char)
  | unquoted
deriving DecidableEq

def htmlStep : HtmlState → Char → HtmlState × List Markup
  | .data, c => if c = '<' then (.tagName [], []) else (.data, [])
  | .tagName name, c =>
    if c = '>' then (.data, [.tag name])
    else if isAsciiWhitespace c then (.inTag, [.tag name])
    else (.tagName (name ++ [c]), [])
  | .inTag, c =>
    if c = '>' then (.data, []) else if isAsciiWhitespace c then (.inTag, []) else (.attributeName [c], [])
  | .attributeName name, c =>
    if c = '>' then (.data, [.attribute name])
    else if isAsciiWhitespace c then (.inTag, [.attribute name])
    else if c = '=' then (.beforeValue, [.attribute name])
    else (.attributeName (name ++ [c]), [])
  | .beforeValue, c =>
    if c = '>' then (.data, [])
    else if isAsciiWhitespace c then (.beforeValue, [])
    else if c = '"' ∨ c = '\x27' then (.quoted c, [])
    else (.unquoted, [])
  | .quoted quote, c => if c = quote then (.inTag, []) else (.quoted quote, [])
  | .unquoted, c => if c = '>' then (.data, []) else if isAsciiWhitespace c then (.inTag, []) else (.unquoted, [])

/-- The tags of a page and the names of their attributes, in order. -/
def tags (page : Text) : List Markup := (scan htmlStep .data page).2

/-! ## Lines -/

inductive Block where
  | blank
  | heading (level : ℕ)
  | quote
  | item
  | other
deriving DecidableEq

/-- The beginnings of a line that open a block. -/
def markers : List (Text × Block) := [
  (['#', ' '], .heading 1), (['#', '#', ' '], .heading 2), (['#', '#', '#', ' '], .heading 3),
  (['#', '#', '#', '#', ' '], .heading 4), (['#', '#', '#', '#', '#', ' '], .heading 5),
  (['#', '#', '#', '#', '#', '#', ' '], .heading 6), (['>', ' '], .quote), (['-', ' '], .item), (['*', ' '], .item),
  (['+', ' '], .item)]

inductive LineState where
  | start (seen : Text)
  | inside
deriving DecidableEq

def endsLine (c : Char) : Bool := c == '\n' || c == '\r'

def lineStep : LineState → Char → LineState × List Block
  | .start seen, c =>
    if endsLine c then (.start [], [if seen.isEmpty then .blank else .other])
    else match markers.find? (·.1 == seen ++ [c]) with
      | some marker => (.inside, [marker.2])
      | none =>
        if markers.any ((seen ++ [c]).isPrefixOf ·.1) then (.start (seen ++ [c]), []) else (.inside, [.other])
  | .inside, c => if endsLine c then (.start [], []) else (.inside, [])

/-- The blocks that the lines of a story open, in order. -/
def blocks (story : Text) : List Block := (scan lineStep (.start []) story).2

/-! ## Escapes -/

inductive EscapeState where
  | plain
  | escaped
  | entity (name : Text)
deriving DecidableEq

def entities : List Text := ["amp".toList, "lt".toList, "gt".toList, "quot".toList, "#39".toList]

/-- The characters that a backslash takes the meaning from. -/
def punctuation : Text := "!\"#$%&\x27()*+,-./:;<=>?@[\\]^_\x60\x7b|\x7d~".toList

def escapeStep (backslash : Bool) (active : Text) : EscapeState → Char → EscapeState × List Char
  | .plain, c =>
    if c = '&' then (.entity [], [])
    else if backslash && c == '\\' then (.escaped, [])
    else (.plain, if c ∈ active then [c] else [])
  | .escaped, c => (.plain, if c ∈ punctuation then [] else ['\\'])
  | .entity name, c =>
    if c = ';' then (.plain, if name ∈ entities then [] else ['&']) else (.entity (name ++ [c]), [])

/-- No character of the text has its meaning: it is escaped, or it begins an entity. -/
def Inert (backslash : Bool) (active t : Text) : Prop := scan (escapeStep backslash active) .plain t = (.plain, [])

instance (backslash : Bool) (active t : Text) : Decidable (Inert backslash active t) :=
  inferInstanceAs (Decidable (_ = _))

def htmlActive : Text := "<>\"\x27".toList

/-- The characters of the inline syntax of GitHub Flavored Markdown. -/
def markdownActive : Text := "\\\x60*_\x7b\x7d[]()#+-.!|<>~".toList

/-! ## Escaped texts -/

theorem htmlChar_data (c : Char) : scan htmlStep .data (htmlChar c) = (.data, []) := by
  unfold htmlChar
  split_ifs with hamp hlt hgt hquot hapos
  · rfl
  · rfl
  · rfl
  · rfl
  · rfl
  · simp [scan, htmlStep, hlt]

theorem html_data (value : Text) : scan htmlStep .data (html value) = (.data, []) := by
  rw [html, scan_flatMap htmlChar_data]
  simp

theorem htmlChar_inert (c : Char) : scan (escapeStep false htmlActive) .plain (htmlChar c) = (.plain, []) := by
  unfold htmlChar
  split_ifs with hamp hlt hgt hquot hapos
  · decide
  · decide
  · decide
  · decide
  · decide
  · simp [scan, escapeStep, htmlActive, hamp, hlt, hgt, hquot, hapos]

theorem html_inert (value : Text) : Inert false htmlActive (html value) := by
  rw [Inert, html, scan_flatMap htmlChar_inert]
  simp

/-- The character whose escape a text begins with. -/
def firstOfHtml (t : Text) : Option Char :=
  if "&amp;".toList.isPrefixOf t then some '&'
  else if "&lt;".toList.isPrefixOf t then some '<'
  else if "&gt;".toList.isPrefixOf t then some '>'
  else if "&quot;".toList.isPrefixOf t then some '"'
  else if "&#39;".toList.isPrefixOf t then some '\x27'
  else t.head?

theorem firstOfHtml_append (c : Char) (t : Text) : firstOfHtml (htmlChar c ++ t) = some c := by
  unfold htmlChar
  split_ifs with hamp hlt hgt hquot hapos
  · simp [firstOfHtml, hamp]
  · simp [firstOfHtml, hlt]
  · simp [firstOfHtml, hgt]
  · simp [firstOfHtml, hquot]
  · simp [firstOfHtml, hapos]
  · simp [firstOfHtml, Ne.symm hamp]

theorem html_injective : Function.Injective html := flatMap_injective rfl firstOfHtml_append

theorem markdownChar_line (c : Char) : (markdownChar c).all (!endsLine ·) = true := by
  unfold markdownChar
  split_ifs with hamp hlt hgt hline hmark
  · decide
  · decide
  · decide
  · decide
  all_goals
    simp only [List.mem_cons, List.not_mem_nil, or_false, not_or] at hline
    simp [endsLine, hline]

theorem markdownInline_line (value : Text) : (markdownInline value).all (!endsLine ·) = true := by
  rw [markdownInline, List.all_flatMap, List.all_eq_true]
  exact fun c _ => markdownChar_line c

theorem line_stay {t : Text} (h : t.all (!endsLine ·) = true) : scan lineStep .inside t = (.inside, []) := by
  refine scan_stay fun c hc => ?_
  have hc' := List.all_eq_true.mp h c hc
  rw [lineStep, if_neg (by simpa using hc')]

theorem markdownInline_inside (value : Text) : scan lineStep .inside (markdownInline value) = (.inside, []) :=
  line_stay (markdownInline_line value)

theorem markdownActive_cases {c : Char} (h : c ∈ markdownActive) :
    c = '<' ∨ c = '>' ∨ c = '~' ∨ c ∈ backslashed := by
  have hall : markdownActive.all (fun c => c == '<' || c == '>' || c == '~' || backslashed.contains c) = true := by
    decide
  have hc := List.all_eq_true.mp hall c h
  simp only [Bool.or_eq_true, beq_iff_eq, List.contains_iff_mem] at hc
  tauto

theorem backslashed_escape {c : Char} (h : c ∈ backslashed) :
    scan (escapeStep true markdownActive) .plain ['\\', c] = (.plain, [c].filter (· == '~')) := by
  have hall : backslashed.all (fun c =>
      decide (scan (escapeStep true markdownActive) .plain ['\\', c] = (.plain, [c].filter (· == '~')))) = true := by
    decide
  exact of_decide_eq_true (List.all_eq_true.mp hall c h)

theorem markdownChar_escape (c : Char) : scan (escapeStep true markdownActive) .plain (markdownChar c) =
    (.plain, [c].filter (· == '~')) := by
  unfold markdownChar
  split_ifs with hamp hlt hgt hline hmark
  · subst hamp
    decide
  · subst hlt
    decide
  · subst hgt
    decide
  · simp only [List.mem_cons, List.not_mem_nil, or_false] at hline
    rcases hline with rfl | rfl | rfl <;> decide
  · exact backslashed_escape hmark
  · have hback : c ≠ '\\' := by
      rintro rfl
      exact hmark (by decide)
    by_cases htilde : c = '~'
    · subst htilde
      decide
    · have hactive : c ∉ markdownActive := fun h => by
        rcases markdownActive_cases h with rfl | rfl | rfl | h
        · exact hlt rfl
        · exact hgt rfl
        · exact htilde rfl
        · exact hmark h
      simp [scan, escapeStep, hamp, hback, hactive, htilde]

/-- The tilde is all that Markdown keeps its meaning of. -/
theorem markdownInline_inert (value : Text) : Inert true markdownActive (markdownInline value) ↔ '~' ∉ value := by
  have hscan : value.flatMap (fun c => [c].filter (· == '~')) = [] ↔ '~' ∉ value := by
    rw [List.flatMap_eq_nil_iff]
    constructor
    · exact fun h hmem => absurd (h _ hmem) (by decide)
    · intro h c hc
      have hne : (c == '~') = false := beq_eq_false_iff_ne.mpr fun heq => h (heq ▸ hc)
      rw [List.filter_cons_of_neg (by rw [hne]; exact Bool.false_ne_true), List.filter_nil]
  rw [Inert, markdownInline, scan_flatMap markdownChar_escape, Prod.mk.injEq, hscan]
  exact and_iff_right rfl

/-! ## Two publications -/

/-- The enumerations of a session, and whether it has a note. -/
def PublicSessionInput.shape : PublicSessionInput → (PublicDisposition × Bool) ⊕ IncompleteReason
  | .complete _ _ _ disposition publicDecisionNote => .inl (disposition, publicDecisionNote.isSome)
  | .incomplete _ _ reason => .inr reason

structure SameShape (p q : PublicationInput) : Prop where
  binding : p.accepted.synapseArtifactManifestSha256.isSome = q.accepted.synapseArtifactManifestSha256.isSome
  session : p.session.shape = q.session.shape

def PublicSessionInput.texts : PublicSessionInput → List Text
  | .complete proposal receipt attribution _ note =>
    [proposal, receipt, attribution.providerLabel, attribution.modelLabel] ++ note.toList
  | .incomplete proposal attribution _ => [proposal, attribution.providerLabel, attribution.modelLabel]

/-- The texts of an input. -/
def PublicationInput.texts (p : PublicationInput) : List Text :=
  [p.project.label, p.project.title, p.project.summary, p.accepted.revisionId, p.accepted.siteManifestSha256] ++
  p.accepted.synapseArtifactManifestSha256.toList ++ p.session.texts

/-- The input without its texts. -/
def PublicSessionInput.blank : PublicSessionInput → PublicSessionInput
  | .complete _ _ _ _ publicDecisionNote =>
    .complete [] [] ⟨[], []⟩ .adoptedUnchanged (publicDecisionNote.map fun _ => [])
  | .incomplete _ _ reason => .incomplete [] ⟨[], []⟩ reason

def PublicationInput.blank (p : PublicationInput) : PublicationInput where
  project := ⟨[], [], []⟩
  accepted := ⟨[], [], p.accepted.synapseArtifactManifestSha256.map fun _ => []⟩
  session := p.session.blank

section
variable {p q : PublicationInput}

theorem option_blank {note note' : Option Text} (h : note.isSome = note'.isSome) :
    (note.map fun _ => ([] : Text)) = note'.map fun _ => [] := by
  cases note with
  | none =>
    cases note' with
    | none => rfl
    | some _ => cases h
  | some _ =>
    cases note' with
    | none => cases h
    | some _ => rfl

theorem session_blank {session session' : PublicSessionInput} (h : session.shape = session'.shape) :
    session.blank = session'.blank := by
  cases session with
  | complete _ _ _ _ note =>
    cases session' with
    | complete _ _ _ _ note' =>
      rw [PublicSessionInput.blank, PublicSessionInput.blank, option_blank (Prod.mk.inj (Sum.inl.inj h)).2]
    | incomplete _ _ _ => cases h
  | incomplete _ _ reason =>
    cases session' with
    | complete _ _ _ _ _ => cases h
    | incomplete _ _ reason' => rw [PublicSessionInput.blank, PublicSessionInput.blank, Sum.inr.inj h]

theorem SameShape.blank_eq (h : SameShape p q) : p.blank = q.blank := by
  rw [PublicationInput.blank, PublicationInput.blank, option_blank h.binding, session_blank h.session]

/-- Two projections that differ in their texts alone. -/
structure Alike (a b : PublicProjection) : Prop where
  label : a.project.label.origin = b.project.label.origin
  summary : a.project.summary.origin = b.project.summary.origin
  revision : a.accepted.revisionId.origin = b.accepted.revisionId.origin
  site : a.accepted.siteManifestSha256.origin = b.accepted.siteManifestSha256.origin
  binding : a.accepted.synapseArtifactManifestSha256.map (·.origin) =
    b.accepted.synapseArtifactManifestSha256.map (·.origin)
  completeness : a.session.completeness = b.session.completeness
  manifest : a.session.proposal.manifestSha256.origin = b.session.proposal.manifestSha256.origin
  source : a.session.proposal.attribution.source.origin = b.session.proposal.attribution.source.origin
  provider : a.session.proposal.attribution.providerLabel.origin = b.session.proposal.attribution.providerLabel.origin
  model : a.session.proposal.attribution.modelLabel.origin = b.session.proposal.attribution.modelLabel.origin
  decision : a.session.humanDecision.map (fun d => (d.disposition.origin, d.receiptSha256.origin,
      d.publicNote.map (·.origin))) =
    b.session.humanDecision.map fun d => (d.disposition.origin, d.receiptSha256.origin, d.publicNote.map (·.origin))
  limitations : a.limitations = b.limitations

theorem blank_alike (p : PublicationInput) : Alike (buildProjection p) (buildProjection p.blank) := by
  obtain ⟨project, ⟨revision, site, binding⟩, session⟩ := p
  cases binding <;> cases session with
  | complete _ _ _ _ note => cases note <;> constructor <;> rfl
  | incomplete _ _ reason => constructor <;> rfl

theorem field_skeleton (label : String) {v v' : OriginValue} (h : v.origin = v'.origin) :
    skeleton (markdownField label v) = skeleton (markdownField label v') := by
  rw [markdownField, markdownField, h]
  rfl

theorem storyBinding_skeleton {binding binding' : Option OriginValue}
    (h : binding.map (·.origin) = binding'.map (·.origin)) :
    skeleton (storyBinding binding) = skeleton (storyBinding binding') := by
  cases binding with
  | none =>
    cases binding' with
    | none => rfl
    | some _ => cases h
  | some _ =>
    cases binding' with
    | none => cases h
    | some _ => exact field_skeleton _ (Option.some.inj h)

theorem storyDecision_skeleton {decision decision' : Option HumanDecisionProjection}
    (h : decision.map (fun d => (d.disposition.origin, d.receiptSha256.origin, d.publicNote.map (·.origin))) =
      decision'.map fun d => (d.disposition.origin, d.receiptSha256.origin, d.publicNote.map (·.origin))) :
    skeleton (storyDecision decision) = skeleton (storyDecision decision') := by
  cases decision with
  | none =>
    cases decision' with
    | none => rfl
    | some _ => cases h
  | some d =>
    cases decision' with
    | none => cases h
    | some d' =>
      obtain ⟨hdisposition, hrest⟩ := Prod.mk.inj (Option.some.inj h)
      obtain ⟨hreceipt, hnote⟩ := Prod.mk.inj hrest
      rw [storyDecision, storyDecision]
      refine skeleton_congr (skeleton_congr (field_skeleton _ hdisposition) (field_skeleton _ hreceipt)) ?_
      cases hd : d.publicNote with
      | none =>
        rw [hd] at hnote
        rw [Option.map_eq_none_iff.mp hnote.symm]
      | some note =>
        rw [hd] at hnote
        obtain ⟨note', hd', hnote'⟩ := Option.map_eq_some_iff.mp hnote.symm
        rw [hd', Option.toList_some, Option.toList_some, List.flatMap_singleton, List.flatMap_singleton]
        exact field_skeleton _ hnote'.symm

theorem storyPieces_skeleton {a b : PublicProjection} (h : Alike a b) :
    skeleton (storyPieces a) = skeleton (storyPieces b) := by
  unfold storyPieces
  rw [h.completeness, h.limitations]
  refine skeleton_congr (skeleton_congr (skeleton_congr (skeleton_congr (skeleton_congr (skeleton_congr (skeleton_congr
    (skeleton_congr (skeleton_congr (skeleton_congr (skeleton_congr (skeleton_congr (skeleton_congr (skeleton_congr
    (skeleton_congr (skeleton_congr ?_ ?_) ?_) ?_) ?_) ?_) ?_) ?_) ?_) ?_) ?_) ?_) ?_) ?_) ?_) ?_) rfl
  · rfl
  · exact field_skeleton _ h.label
  · exact field_skeleton _ h.summary
  · rfl
  · exact field_skeleton _ h.revision
  · exact field_skeleton _ h.site
  · exact storyBinding_skeleton h.binding
  · rfl
  · rfl
  · exact field_skeleton _ h.manifest
  · exact field_skeleton _ h.source
  · rfl
  · exact field_skeleton _ h.provider
  · exact field_skeleton _ h.model
  · exact storyDecision_skeleton h.decision
  · rfl

theorem htmlDecision_skeleton {decision decision' : Option HumanDecisionProjection}
    (h : decision.map (fun d => (d.disposition.origin, d.receiptSha256.origin, d.publicNote.map (·.origin))) =
      decision'.map fun d => (d.disposition.origin, d.receiptSha256.origin, d.publicNote.map (·.origin))) :
    skeleton (htmlDecision decision) = skeleton (htmlDecision decision') := by
  cases decision with
  | none =>
    cases decision' with
    | none => rfl
    | some _ => cases h
  | some d =>
    cases decision' with
    | none => cases h
    | some d' =>
      have hnote := (Prod.mk.inj (Prod.mk.inj (Option.some.inj h)).2).2
      rw [htmlDecision, htmlDecision]
      refine skeleton_congr rfl ?_
      cases hd : d.publicNote with
      | none =>
        rw [hd] at hnote
        rw [Option.map_eq_none_iff.mp hnote.symm]
      | some note =>
        rw [hd] at hnote
        obtain ⟨note', hd', -⟩ := Option.map_eq_some_iff.mp hnote.symm
        rw [hd']
        rfl

theorem htmlBinding_skeleton {binding binding' : Option OriginValue}
    (h : binding.map (·.origin) = binding'.map (·.origin)) :
    skeleton (htmlBinding binding) = skeleton (htmlBinding binding') := by
  cases binding with
  | none =>
    cases binding' with
    | none => rfl
    | some _ => cases h
  | some _ =>
    cases binding' with
    | none => cases h
    | some _ => rfl

theorem htmlPieces_skeleton {a b : PublicProjection} (h : Alike a b) :
    skeleton (htmlPieces a) = skeleton (htmlPieces b) := by
  unfold htmlPieces
  rw [h.completeness, h.limitations]
  refine skeleton_congr (skeleton_congr (skeleton_congr (skeleton_congr (skeleton_congr (skeleton_congr (skeleton_congr
    (skeleton_congr (skeleton_congr (skeleton_congr ?_ rfl) ?_) ?_) ?_) rfl) ?_) ?_) ?_) rfl) rfl
  · rfl
  · rfl
  · exact htmlBinding_skeleton h.binding
  · rfl
  · rfl
  · exact htmlDecision_skeleton h.decision
  · rfl

/-! ## Where the escaped texts stand -/

abbrev storyClosed (l : List (Piece Char Char)) : Bool :=
  closed (decide <| · = .inside) lineStep (.start []) (skeleton l)

abbrev pageClosed (l : List (Piece Char Char)) : Bool := closed (decide <| · = .data) htmlStep .data (skeleton l)

theorem origin_line (origin : ValueOrigin) : origin.asStr.all (!endsLine ·) = true := by
  cases origin
  all_goals
    unfold ValueOrigin.asStr
    rw [String.toList_ofList]
    decide

theorem field_closed (label : String) (value : OriginValue) (h : label.toList.all (!endsLine ·) = true) :
    storyClosed (markdownField label value) = true := by
  have hmarker : scan lineStep (.start []) "- **".toList = (.inside, [.item]) := by
    rw [String.toList_ofList]
    decide
  have hcolon : scan lineStep .inside ":** ".toList = (.inside, []) := by
    rw [String.toList_ofList]
    decide
  have hopen : scan lineStep .inside " (origin: \x60".toList = (.inside, []) := by
    rw [String.toList_ofList]
    decide
  have hclose : scan lineStep .inside "\x60)\n".toList = (.start [], []) := by
    rw [String.toList_ofList]
    decide
  rw [storyClosed, closed, Bool.and_eq_true_iff, decide_eq_true_iff]
  simp only [markdownField, skeleton, List.map_cons, List.map_nil, Piece.part, passable, scanParts, scan_append, hmarker,
    line_stay h, line_stay (origin_line _), hcolon, hopen, hclose, decide_true, Bool.and_true, and_self,
    -String.reduceToList]

theorem completeness_cases (p : PublicationInput) :
    (buildProjection p).session.completeness = ⟨"complete".toList, none⟩ ∨
      ∃ reason : IncompleteReason,
        (buildProjection p).session.completeness = ⟨"incomplete".toList, some reason.asStr⟩ := by
  obtain ⟨project, accepted, session⟩ := p
  cases session with
  | complete _ _ _ _ _ => exact .inl rfl
  | incomplete _ _ reason => exact .inr ⟨reason, rfl⟩

theorem storyCompleteness_closed (p : PublicationInput) :
    storyClosed (storyCompleteness (buildProjection p).session.completeness) = true := by
  obtain h | ⟨reason, h⟩ := completeness_cases p
  · rw [h]
    simp only [storyClosed, storyCompleteness, skeleton, List.map_cons, List.map_nil, Piece.part, -String.reduceToList]
    repeat rw [String.toList_ofList]
    decide
  · rw [h]
    cases reason
    all_goals
      unfold IncompleteReason.asStr
      simp only [storyClosed, storyCompleteness, skeleton, List.map_cons, List.map_nil, Piece.part,
        -String.reduceToList]
      repeat rw [String.toList_ofList]
      decide

theorem storyBinding_closed (binding : Option OriginValue) : storyClosed (storyBinding binding) = true := by
  cases binding with
  | none =>
    simp only [storyClosed, storyBinding, skeleton, List.map_cons, List.map_nil, Piece.part, -String.reduceToList]
    rw [String.toList_ofList]
    decide
  | some value =>
    refine field_closed _ value ?_
    rw [String.toList_ofList]
    decide

theorem storyDecision_closed (decision : Option HumanDecisionProjection) : storyClosed (storyDecision decision) = true := by
  cases decision with
  | none =>
    simp only [storyClosed, storyDecision, skeleton, List.map_cons, List.map_nil, Piece.part, -String.reduceToList]
    rw [String.toList_ofList]
    decide
  | some decision =>
    refine closed_append (closed_append (field_closed _ _ ?_) (field_closed _ _ ?_))
      (closed_flatMap fun note _ => field_closed _ note ?_)
    all_goals
      rw [String.toList_ofList]
      decide

set_option maxRecDepth 4000 in
theorem storyPieces_closed (p : PublicationInput) : storyClosed (storyPieces (buildProjection p)) = true := by
  unfold storyPieces
  refine closed_append (closed_append (closed_append (closed_append (closed_append (closed_append (closed_append
    (closed_append (closed_append (closed_append (closed_append (closed_append (closed_append (closed_append
    (closed_append (closed_append ?_ (field_closed _ _ ?label)) (field_closed _ _ ?summary)) ?_)
    (field_closed _ _ ?revision)) (field_closed _ _ ?site)) (storyBinding_closed _)) ?_) (storyCompleteness_closed p))
    (field_closed _ _ ?manifest)) (field_closed _ _ ?attribution)) ?_) (field_closed _ _ ?provider))
    (field_closed _ _ ?model)) (storyDecision_closed _)) ?_) (closed_flatMap fun limitation _ => ?_)
  case label | summary | revision | site | manifest | attribution | provider | model =>
    rw [String.toList_ofList]
    decide
  all_goals
    simp only [storyLimitation, skeleton, List.map_cons, List.map_nil, Piece.part, -String.reduceToList]
    repeat rw [String.toList_ofList]
    decide

set_option maxRecDepth 4000 in
theorem htmlNote_closed (note : Option OriginValue) : pageClosed (htmlNote note) = true := by
  cases note
  all_goals
    simp only [pageClosed, htmlNote, skeleton, List.map_cons, List.map_nil, Piece.part, -String.reduceToList]
    repeat rw [String.toList_ofList]
    decide

set_option maxRecDepth 4000 in
theorem htmlDecision_closed (decision : Option HumanDecisionProjection) : pageClosed (htmlDecision decision) = true := by
  cases decision with
  | none =>
    simp only [pageClosed, htmlDecision, skeleton, List.map_cons, List.map_nil, Piece.part, -String.reduceToList]
    rw [String.toList_ofList]
    decide
  | some decision =>
    refine closed_append ?_ (htmlNote_closed _)
    simp only [skeleton, List.map_cons, List.map_nil, Piece.part, -String.reduceToList]
    repeat rw [String.toList_ofList]
    decide

set_option maxRecDepth 4000 in
theorem htmlBinding_closed (binding : Option OriginValue) : pageClosed (htmlBinding binding) = true := by
  cases binding with
  | none =>
    simp only [pageClosed, htmlBinding, skeleton, List.map_cons, List.map_nil, Piece.part, -String.reduceToList]
    rw [String.toList_ofList]
    decide
  | some value => rfl

set_option maxRecDepth 4000 in
theorem htmlIncomplete_closed (reason : Option Text) : pageClosed (htmlIncomplete reason) = true := by
  cases reason with
  | none => rfl
  | some reason =>
    simp only [pageClosed, htmlIncomplete, skeleton, List.map_cons, List.map_nil, Piece.part, -String.reduceToList]
    repeat rw [String.toList_ofList]
    decide

set_option maxRecDepth 4000 in
theorem htmlPieces_closed (p : PublicationInput) : pageClosed (htmlPieces (buildProjection p)) = true := by
  have hstate : (buildProjection p).session.completeness.state = "complete".toList ∨
      (buildProjection p).session.completeness.state = "incomplete".toList := by
    obtain h | ⟨reason, h⟩ := completeness_cases p
    · exact .inl (by rw [h])
    · exact .inr (by rw [h])
  unfold htmlPieces
  refine closed_append (closed_append (closed_append (closed_append (closed_append (closed_append (closed_append
    (closed_append (closed_append (closed_append ?_ ?style) ?_) (htmlBinding_closed _)) ?state)
    (htmlIncomplete_closed _)) ?_) (htmlDecision_closed _)) ?_) (closed_flatMap fun limitation _ => ?_)) ?_
  case style =>
    simp only [style, skeleton, List.map_cons, List.map_nil, Piece.part, -String.reduceToList]
    repeat rw [String.toList_ofList]
    decide
  case state =>
    rcases hstate with h | h
    all_goals
      rw [h]
      simp only [skeleton, List.map_cons, List.map_nil, Piece.part, -String.reduceToList]
      repeat rw [String.toList_ofList]
      decide
  all_goals
    simp only [htmlLimitation, skeleton, List.map_cons, List.map_nil, Piece.part, -String.reduceToList]
    repeat rw [String.toList_ofList]
    decide

/-! ## Two publications of one shape -/

theorem tags_eq (h : SameShape p q) :
    tags (renderHtml (buildProjection p)) = tags (renderHtml (buildProjection q)) := by
  have heq : skeleton (htmlPieces (buildProjection p)) = skeleton (htmlPieces (buildProjection q)) := by
    rw [htmlPieces_skeleton (blank_alike p), h.blank_eq, ← htmlPieces_skeleton (blank_alike q)]
  rw [tags, tags, renderHtml, renderHtml, scan_skeleton (fun s value hs => ?_) (closed_passable (htmlPieces_closed p)) heq]
  rw [of_decide_eq_true hs]
  exact html_data value

theorem blocks_eq (h : SameShape p q) :
    blocks (renderStory (buildProjection p)) = blocks (renderStory (buildProjection q)) := by
  have heq : skeleton (storyPieces (buildProjection p)) = skeleton (storyPieces (buildProjection q)) := by
    rw [storyPieces_skeleton (blank_alike p), h.blank_eq, ← storyPieces_skeleton (blank_alike q)]
  rw [blocks, blocks, renderStory, renderStory, scan_skeleton (fun s value hs => ?_) (closed_passable (storyPieces_closed p)) heq]
  rw [of_decide_eq_true hs]
  exact markdownInline_inside value

/-- What the texts of two publications of one shape cannot do. -/
structure Contained (p q : PublicationInput) : Prop where
  tags : tags (renderHtml (buildProjection p)) = tags (renderHtml (buildProjection q))
  blocks : blocks (renderStory (buildProjection p)) = blocks (renderStory (buildProjection q))
  injective : Function.Injective html
  html : ∀ value ∈ p.texts ++ q.texts, Inert false htmlActive (html value)
  line : ∀ value ∈ p.texts ++ q.texts, '\n' ∉ markdownInline value
  markdown : ∀ value ∈ p.texts ++ q.texts, Inert true markdownActive (markdownInline value)

end

/-! ## A publication with a tilde -/

def sampleInput (title : String) : PublicationInput where
  project := ⟨"Label".toList, title.toList, "Summary".toList⟩
  accepted := ⟨"rev_1".toList, List.replicate 64 '0', none⟩
  session := .incomplete (List.replicate 64 '1') ⟨"Provider".toList, "model".toList⟩ .proposalPending

end LpStudio.Server.Publication
