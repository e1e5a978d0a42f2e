import LpStudio.StaticExport.Scan

/-! # The reference analysis of `static_export.rs`
`scan_references` lists the references of one file, says whether the file can build references at run
time, and whether the bounded analysis may have missed some.
-/
namespace LpStudio.StaticExport
open Str Scanning Markup

/-! ## Style sheets -/

inductive CssFinding where
  | reference (value : Text)
  | incomplete
  deriving DecidableEq, Repr

structure CssReferenceScan where
  references : List Text
  analysisIncomplete : Bool
  deriving DecidableEq, Repr

/-- `css_name_byte`: every byte of a character outside ASCII is a name byte. -/
def cssNameByte (c : Char) : Bool :=
  isAsciiAlphanumeric c || c == '_' || c == '-' || 0x80 ≤ c.toNat

def cssTokenBoundary (next : Option Char) : Bool := !next.any cssNameByte

def cssKeywordAt (text keyword : Text) : Bool := lower (text.take keyword.length) == keyword

def skipAsciiWhitespace (text : Text) : Text := text.dropWhile isAsciiWhitespace

def isQuote (c : Char) : Bool := c == '\'' || c == '"'

/-- `css_url_argument`: the value in the parentheses, whose content `argument` begins with, and the text
after them. -/
def cssUrlArgument (argument : Text) : Option (Text × Text) :=
  let argument := skipAsciiWhitespace argument
  match argument with
  | [] => none
  | c :: cs =>
    if isQuote c then
      match splitOnce [c] cs with
      | none => none
      | some (value, after) =>
        match skipAsciiWhitespace after with
        | ')' :: rest => some (value, rest)
        | _ => none
    else
      match splitOnce [')'] argument with
      | none => none
      | some (inside, rest) =>
        let raw := trim inside
        if raw.any (fun c => isAsciiWhitespace c || c ∈ ['(', '\'', '"', '\x60']) then none
        else some (raw, rest)

/-- A non-empty value is a reference. -/
def found (value : Text) : List CssFinding := if value.isEmpty then [] else [.reference value]

/-- One turn of the loop of `css_references` over `text`. -/
def cssStep (text : Text) : Stepper Empty CssFinding Char := fun suffix =>
  match suffix with
  | [] => .halt []
  | c :: cs =>
    let previousIsName := ((text.take (text.length - suffix.length)).getLast?).any cssNameByte
    if isQuote c then
      match splitOnce [c] cs with
      | some (_, rest) => .next [] rest
      | none => .halt [.incomplete]
    else if c == '@' && cssKeywordAt cs "import".toList &&
        cssTokenBoundary (cs.drop "import".toList.length).head? then
      match skipAsciiWhitespace (cs.drop "import".toList.length) with
      | [] => .halt [.incomplete]
      | q :: more =>
        if isQuote q then
          match splitOnce [q] more with
          | none => .halt [.incomplete]
          | some (value, rest) => .next (found value) rest
        else if cssKeywordAt (q :: more) "url".toList then .next [] (q :: more)
        else .halt [.incomplete]
    else if !previousIsName && cssKeywordAt suffix "url".toList then
      match skipAsciiWhitespace (suffix.drop "url".toList.length) with
      | '(' :: argument =>
        match cssUrlArgument argument with
        | some (value, rest) => .next (found value) rest
        | none => .halt [.incomplete]
      | _ => .next [] cs
    else .next [] cs

def cssReferences (text : Text) : CssReferenceScan :=
  if text.contains '\\' || contains "/*".toList text || contains "*/".toList text then
    { references := [], analysisIncomplete := true }
  else
    let findings := collect (cssStep text) text
    { references := findings.filterMap fun
        | .reference value => some value
        | .incomplete => none
      analysisIncomplete := contains "image-set(".toList (lower text) || .incomplete ∈ findings }

/-! ## Markup -/

structure ReferenceScan where
  references : List Text
  dynamicCapable : Bool
  analysisIncomplete : Bool
  deriving DecidableEq, Repr

def ReferenceScan.none : ReferenceScan := ⟨[], false, false⟩

def ReferenceScan.append (a b : ReferenceScan) : ReferenceScan :=
  ⟨a.references ++ b.references, a.dynamicCapable || b.dynamicCapable,
    a.analysisIncomplete || b.analysisIncomplete⟩

def srcsetReferences (value : Text) : List Text :=
  ((value.splitOn ',').map fun candidate => (trimStart candidate).takeWhile (!isWhitespace ·)).filter
    (!List.isEmpty ·)

/-- `split_ascii_whitespace`. -/
def splitAsciiWhitespace (value : Text) : List Text :=
  (value.splitOnP isAsciiWhitespace).filter (!List.isEmpty ·)

def validMetaRefreshDelay (value : Text) : Bool :=
  value.all (fun c => isAsciiDigit c || c == '.') && value.count '.' ≤ 1 && value.any isAsciiDigit

/-- `meta_refresh_reference`: `none` where the directive cannot be classified. -/
def metaRefreshReference (value : Text) : Option (Option Text) :=
  let value := trim value
  match splitOnce [';'] value with
  | none => if validMetaRefreshDelay value then some none else none
  | some (delay, directive) =>
    let directive := trim directive
    let afterKeyword := directive.drop 3
    if !validMetaRefreshDelay (trim delay) || lower (directive.take 3) != "url".toList ||
        afterKeyword.head?.any (fun c => !isAsciiWhitespace c && c != '=') then none
    else match trimStart afterKeyword with
    | '=' :: rest =>
      match trim rest with
      | [] => none
      | q :: quoted =>
        if isQuote q then
          match splitOnce [q] quoted with
          | none => none
          | some (reference, after) =>
            if !(trim after).isEmpty || reference.isEmpty then none else some (some reference)
        else if (q :: quoted).any isQuote then none
        else some (some (q :: quoted))
    | _ => none

def svgPresentationReferenceAttribute (name : Text) : Bool :=
  name ∈ ["clip-path".toList, "cursor".toList, "fill".toList, "filter".toList, "marker".toList,
    "marker-start".toList, "marker-mid".toList, "marker-end".toList, "mask".toList, "stroke".toList]

/-- Obsolete fetch and base surfaces. -/
def obsoleteUrlAttribute (name : Text) : Bool :=
  name ∈ ["archive".toList, "codebase".toList, "profile".toList]

def characterReferenceSensitiveAttribute (tagName name : Text) : Bool :=
  name ∈ ["src".toList, "href".toList, "xlink:href".toList, "poster".toList, "action".toList,
    "formaction".toList, "srcset".toList, "imagesrcset".toList, "ping".toList, "background".toList,
    "manifest".toList, "style".toList, "srcdoc".toList] ||
  svgPresentationReferenceAttribute name || obsoleteUrlAttribute name ||
  (tagName == "object".toList && name == "data".toList) ||
  (tagName == "meta".toList && name ∈ ["http-equiv".toList, "content".toList])

def urlAttribute (tagName name : Text) : Bool :=
  name ∈ ["src".toList, "href".toList, "xlink:href".toList, "poster".toList, "action".toList,
    "formaction".toList, "background".toList, "manifest".toList] ||
  (tagName == "object".toList && name == "data".toList)

def CssReferenceScan.toReferenceScan (css : CssReferenceScan) : ReferenceScan :=
  ⟨css.references, false, css.analysisIncomplete⟩

/-- What one attribute adds to the scan. -/
def attributeScan (mediaType : MediaType) (tagName : Text) : Text × Text → ReferenceScan
  | (name, value) =>
    let dynamicCapable := "on".toList.isPrefixOf name && 2 < name.length
    let analysisIncomplete := (tagName == "iframe".toList && name == "srcdoc".toList) ||
      (obsoleteUrlAttribute name && !(trim value).isEmpty)
    let found :=
      if urlAttribute tagName name then ⟨[value], false, false⟩
      else if name ∈ ["srcset".toList, "imagesrcset".toList] then ⟨srcsetReferences value, false, false⟩
      else if name == "ping".toList then ⟨splitAsciiWhitespace value, false, false⟩
      else if name == "style".toList || (mediaType != .html && svgPresentationReferenceAttribute name)
      then (cssReferences value).toReferenceScan
      else .none
    .append ⟨[], dynamicCapable, analysisIncomplete⟩ found

/-- `<meta http-equiv="refresh">`. -/
def metaRefreshScan (tag : MarkupTag) : ReferenceScan :=
  if tag.name == "meta".toList && tag.attributes.any (fun (name, value) =>
      name == "http-equiv".toList && eqIgnoreCase (trim value) "refresh".toList) then
    match (tag.attributes.find? (·.1 == "content".toList)).bind (metaRefreshReference ·.2) with
    | some (some reference) => ⟨[reference], true, false⟩
    | some none => ⟨[], true, false⟩
    | none => ⟨[], true, true⟩
  else .none

/-- What one tag adds to the scan. -/
def tagScan (sourcePath : Text) (mediaType : MediaType) (tag : MarkupTag) :
    Except StaticExportError ReferenceScan :=
  if tag.closing then .ok .none
  else if tag.name == "base".toList && tag.attributes.any (fun (name, value) =>
      name == "href".toList && !(trim value).isEmpty) then
    .error (.unsupportedBaseElement sourcePath)
  else
    let sensitive := tag.attributes.any fun (name, value) =>
      value.contains '&' && characterReferenceSensitiveAttribute tag.name name
    let own : ReferenceScan := ⟨[], tag.name == "script".toList,
      sensitive || tag.name == "noscript".toList || tag.rawTextAnalysisIncomplete⟩
    let inlineCss := (tag.inlineCss.map fun css => (cssReferences css).toReferenceScan).getD .none
    .ok (((own.append inlineCss).append (metaRefreshScan tag)).append
      ((tag.attributes.map (attributeScan mediaType tag.name)).foldl .append .none))

/-- One turn of `html_tokenizer_boundary_analysis_incomplete`; an item is the answer `true`. -/
def htmlBoundaryStep : Stepper Empty Unit Char := fun lower =>
  match lower.dropWhile (· != '<') with
  | [] => .halt []
  | _ :: tail =>
    if "?".toList.isPrefixOf tail || "![cdata[".toList.isPrefixOf tail then .halt [()]
    else if "!--".toList.isPrefixOf tail then
      match splitOnce "-->".toList (tail.drop 3) with
      | none => .halt [()]
      | some (_, rest) => .next [] rest
    else if "!".toList.isPrefixOf tail then
      match stripPrefix "!doctype html>".toList tail with
      | some rest => .next [] rest
      | none => .halt [()]
    else .next [] tail

def htmlTokenizerBoundaryAnalysisIncomplete (text : Text) : Bool :=
  !(collect htmlBoundaryStep (lower text)).isEmpty

def xmlExternalBoundaryAnalysisIncomplete (text : Text) : Bool :=
  let lower := lower text
  if contains "<!doctype".toList lower then true
  else
    let remainder := trimStart lower
    if "<?xml".toList.isPrefixOf remainder then
      match splitOnce "?>".toList remainder with
      | none => true
      | some (_, rest) => contains "<?".toList rest
    else contains "<?".toList remainder

/-- `scan_references`. -/
def scanReferences (sourcePath : Text) (bytes : Bytes) : Except StaticExportError ReferenceScan :=
  match textMediaTypeForPath sourcePath with
  | none => .ok .none
  | some mediaType =>
    match decode bytes with
    | none => .error (.invalidTextEncoding sourcePath)
    | some text =>
      match mediaType with
      | .css => .ok (cssReferences text).toReferenceScan
      | .javascript => .ok ⟨[], true, false⟩
      | .html | .svg | .xml => do
        let tags ← scanMarkupTags sourcePath text
        let boundary : ReferenceScan := ⟨[], false,
          if mediaType = .html then htmlTokenizerBoundaryAnalysisIncomplete text
          else xmlExternalBoundaryAnalysisIncomplete text⟩
        let scans ← tags.mapM (tagScan sourcePath mediaType)
        return scans.foldl .append boundary

end LpStudio.StaticExport
