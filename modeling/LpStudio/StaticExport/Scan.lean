import LpStudio.Markup.Tag

/-! # The markup scanner of `static_export.rs`
It feeds the reference analysis of the adoption gate and of the export. Input it cannot classify is an
error.
-/
namespace LpStudio.StaticExport
open Str Scanning Markup

inductive StaticExportError where
  | emptyAcceptedSite
  | invalidSourceRevisionId
  | invalidSourceManifest
  | invalidGeneratedAt
  | invalidEntryPoint
  | invalidFilePath (path : Text)
  | filePathCollision
  | invalidTextEncoding (sourcePath : Text)
  | malformedMarkup (sourcePath : Text)
  | unsupportedBaseElement (sourcePath : Text)
  | unsafeReference (sourcePath : Text)
  | missingLocalReference (sourcePath resolvedPath : Text)
  | archiveGeneration
  | serialization
  deriving DecidableEq, Repr

structure MarkupTag where
  name : Text
  closing : Bool
  attributes : List (Text × Text)
  inlineCss : Option Text
  rawTextAnalysisIncomplete : Bool
  deriving DecidableEq, Repr

inductive MediaType where
  | html | css | svg | xml | javascript
  deriving DecidableEq, Repr

/-- `text_media_type_for_path`. -/
def textMediaTypeForPath (path : Text) : Option MediaType :=
  let endsWith (suffix : String) := suffix.toList.isSuffixOf (lower path)
  if endsWith ".html" || endsWith ".htm" then some .html
  else if endsWith ".css" then some .css
  else if endsWith ".svg" then some .svg
  else if endsWith ".xml" then some .xml
  else if endsWith ".js" || endsWith ".mjs" || endsWith ".cjs" then some .javascript
  else none

def nameEnd (c : Char) : Bool := isWhitespace c || c == '='

/-- Characters no attribute name may hold. -/
def badNameChar (c : Char) : Bool :=
  isControl c || c ∈ ['/', '<', '>', '\'', '"', '\x60']

/-- Characters no unquoted value may hold. -/
def badValueChar (c : Char) : Bool := c ∈ ['<', '>', '\'', '"', '\x60', '=']

/-- The value that follows an attribute name, with the input after it. -/
def attributeValue (input : Text) : Option (Text × Text) :=
  match trimStart input with
  | '=' :: rest =>
    match trimStart rest with
    | [] => some ([], [])
    | c :: cs =>
      if c = '\'' ∨ c = '"' then splitOnce [c] cs
      else
        let value := (c :: cs).takeWhile (!isWhitespace ·)
        if value.any badValueChar then none
        else some (value, (c :: cs).dropWhile (!isWhitespace ·))
  | input => some ([], input)

/-- One turn of `parse_attributes`. -/
def attributeStep (sourcePath : Text) : Stepper StaticExportError (Text × Text) Char := fun input =>
  let input := trimStart input
  if input = [] ∨ input = ['/'] then .halt []
  else
    let name := input.takeWhile (!nameEnd ·)
    if name = [] ∨ name.any badNameChar then .fail (.malformedMarkup sourcePath)
    else match attributeValue (input.dropWhile (!nameEnd ·)) with
    | none => .fail (.malformedMarkup sourcePath)
    | some (value, rest) => .next [(lower name, value)] rest

def parseAttributes (sourcePath input : Text) : Except StaticExportError (List (Text × Text)) :=
  run (attributeStep sourcePath) input

def parseTagBody (sourcePath body : Text) : Except StaticExportError (Option MarkupTag) :=
  match tagName body with
  | none => .ok none
  | some (name, closing, rest) => do
    let attributes ← if closing then .ok [] else parseAttributes sourcePath rest
    return some { name, closing, attributes, inlineCss := none, rawTextAnalysisIncomplete := false }

theorem parseTagBody_closing {sourcePath body name rest : Text}
    (h : tagName body = some (name, true, rest)) :
    parseTagBody sourcePath body = .ok (some ⟨name, true, [], none, false⟩) := by
  simp [parseTagBody, h, bind, Except.bind, pure, Except.pure]

theorem parseTagBody_start {sourcePath body name rest : Text}
    (h : tagName body = some (name, false, rest)) :
    parseTagBody sourcePath body =
      (parseAttributes sourcePath rest).map fun attributes =>
        some ⟨name, false, attributes, none, false⟩ := by
  simp only [parseTagBody, h]
  cases parseAttributes sourcePath rest <;> rfl

/-- `scan_raw_text_element`: where `raw_text_element_bounds` of `change_set.rs` gives up, an error. -/
def scanRawTextElement (sourcePath text tagName : Text) : Except StaticExportError (Text × Text) :=
  match rawTextElementBounds text tagName with
  | some bounds => .ok bounds
  | none => .error (.malformedMarkup sourcePath)

/-- What a raw text element's tag records of its body. -/
def withBody (tag : MarkupTag) (rawBody : Text) : MarkupTag :=
  if tag.name = "style".toList then { tag with inlineCss := some rawBody }
  else if tag.name = "script".toList ∧ contains "<!--".toList rawBody then
    { tag with rawTextAnalysisIncomplete := true }
  else tag

def looksLikeMarkup : Text → Bool
  | [] => false
  | c :: _ => isAsciiAlphabetic c || c ∈ ['/', '!', '?']

/-- A section `<opener … closer` is skipped whole. -/
def skipSection (sourcePath opener closer tail : Text) : Step StaticExportError MarkupTag Char :=
  match splitOnce closer (tail.drop opener.length) with
  | some (_, rest) => .next [] rest
  | none => .fail (.malformedMarkup sourcePath)

/-- One turn of `scan_markup_tags`. -/
def scanStep (sourcePath : Text) : Stepper StaticExportError MarkupTag Char := fun text =>
  let htmlMode := textMediaTypeForPath sourcePath = some .html
  match text.dropWhile (· != '<') with
  | [] => .halt []
  | _ :: tail =>
    if "!--".toList.isPrefixOf tail then skipSection sourcePath "!--".toList "-->".toList tail
    else if "![CDATA[".toList.isPrefixOf tail then
      skipSection sourcePath "![CDATA[".toList "]]>".toList tail
    else if ¬ htmlMode ∧ "?".toList.isPrefixOf tail then
      skipSection sourcePath "?".toList "?>".toList tail
    else match markupTagEnd none tail with
    | none =>
      if looksLikeMarkup tail then .fail (.malformedMarkup sourcePath) else .next [] tail
    | some (inner, rest) =>
      match parseTagBody sourcePath (trim inner) with
      | .error error => .fail error
      | .ok none => .next [] rest
      | .ok (some tag) =>
        if !tag.closing && htmlMode && tag.name == "plaintext".toList then .halt [tag]
        else if !tag.closing && rawTextElement tag.name htmlMode then
          match scanRawTextElement sourcePath rest tag.name with
          | .error error => .fail error
          | .ok (rawBody, next) => .next [withBody tag rawBody] next
        else .next [tag] rest

def scanMarkupTags (sourcePath text : Text) : Except StaticExportError (List MarkupTag) :=
  run (scanStep sourcePath) text

/-! ## Progress -/

theorem attributeValue_length {input value rest : Text}
    (h : attributeValue input = some (value, rest)) : rest.length ≤ input.length := by
  have htrim := trimStart_length_le input
  simp only [attributeValue] at h
  split at h
  · rename_i tail heq
    have htail := trimStart_length_le tail
    have : tail.length < input.length := by rw [heq] at htrim; simpa using htrim
    split at h
    · cases h; simp
    · rename_i c cs hcs
      rw [hcs] at htail
      simp only [List.length_cons] at htail
      split at h
      · have := splitOnce_length (by simp) h
        omega
      · split at h
        · cases h
        · cases h
          have := (List.dropWhile_sublist (!isWhitespace ·) (l := c :: cs)).length_le
          simp only [List.length_cons] at this; omega
  · cases h; exact htrim

theorem attributeStep_productive (sourcePath : Text) : Productive (attributeStep sourcePath) := by
  intro input out rest h
  have htrim := trimStart_length_le input
  simp only [attributeStep] at h
  generalize trimStart input = trimmed at h htrim
  split at h
  · cases h
  split at h
  · cases h
  rename_i hname
  split at h
  · cases h
  · rename_i hvalue
    cases h
    have hlen := attributeValue_length hvalue
    have hsplit := congrArg List.length
      (List.takeWhile_append_dropWhile (p := (!nameEnd ·)) (l := trimmed))
    have hpos := List.length_pos_iff.mpr (not_or.mp hname).1
    simp only [List.length_append] at hsplit
    omega

theorem skipSection_length {sourcePath opener closer tail rest : Text} {out : List MarkupTag}
    (hc : closer ≠ []) (h : skipSection sourcePath opener closer tail = .next out rest) :
    rest.length < tail.length := by
  simp only [skipSection] at h
  split at h
  · rename_i hsplit
    cases h
    have := splitOnce_length hc hsplit
    simp only [List.length_drop] at this; omega
  · cases h

theorem scanStep_productive (sourcePath : Text) : Productive (scanStep sourcePath) := by
  intro text out rest h
  have hdrop := (List.dropWhile_sublist (· != '<') (l := text)).length_le
  simp only [scanStep] at h
  split at h
  · cases h
  rename_i c tail htail
  rw [htail] at hdrop
  simp only [List.length_cons] at hdrop
  split at h
  · have := skipSection_length (by decide) h; omega
  split at h
  · have := skipSection_length (by decide) h; omega
  split at h
  · have := skipSection_length (by decide) h; omega
  split at h
  · split at h
    · cases h
    · cases h; omega
  rename_i hend
  have hlt := markupTagEnd_length hend
  split at h
  · cases h
  · cases h; omega
  · split at h
    · cases h
    split at h
    · simp only [scanRawTextElement] at h
      split at h
      · cases h
      · rename_i hraw
        split at hraw
        · rename_i hbounds
          cases hraw; cases h
          have := rawTextSearch_length hbounds; omega
        · cases hraw
    · cases h; omega

end LpStudio.StaticExport
