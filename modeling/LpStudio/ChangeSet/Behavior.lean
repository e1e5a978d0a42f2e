import LpStudio.ChangeSet.References
import LpStudio.ChangeSet.Scan
import LpStudio.Lib.Framing
import LpStudio.Lib.Occurrence

/-! # Active behaviour
`behavior_features` of `change_set.rs` collects fingerprints of everything active in a site. What a
proposal adds to them blocks its automatic adoption. The sets are read by membership only, so they are
lists here.
-/
namespace LpStudio.ChangeSet
open Str Scanning Paths

structure BehaviorFeature where
  code : Text
  path : Text
  destination : Text
  fingerprint : Text
  deriving DecidableEq, Repr

/-- `n.to_string()`. -/
def decimal (n : ℕ) : Text := Nat.toDigits 10 n

/-! ## External origins -/

/-- `external_url_end`: the URL at the head of `tail`. -/
def externalUrl (tail : Text) : Text :=
  tail.takeWhile fun c => !(isWhitespace c || c ∈ ['"', '\'', '<', '>', ')', ']', '\x7d'])

def schemeStep (K : Crates) (scheme : Text) : Stepper Empty Text Char
  | [] => .halt []
  | c :: cs =>
    if scheme.isPrefixOf (lower (c :: cs)) then
      .next ((K.urlParse (externalUrl (c :: cs))).map (·.origin)).toList ((c :: cs).drop scheme.length)
    else .next [] cs

/-- Protocol-relative URLs in `text`. -/
def relativeStep (K : Crates) (text : Text) : Stepper Empty Text Char
  | [] => .halt []
  | c :: cs =>
    if "//".toList.isPrefixOf (c :: cs) then
      let preceding := (text.take (text.length - (c :: cs).length)).getLast?
      let hasUrlBoundary := preceding.all fun c =>
        !isAsciiAlphanumeric c && c ∉ [':', '/', '_', '-', '.']
      let origin := if hasUrlBoundary then
          ((K.urlParse ("https:".toList ++ externalUrl (c :: cs))).bind fun url =>
            stripPrefix "https:".toList url.origin).toList
        else []
      .next origin ((c :: cs).drop 2)
    else .next [] cs

def externalOrigins (K : Crates) (text : Text) : List Text :=
  collect (schemeStep K "http://".toList) text ++ collect (schemeStep K "https://".toList) text ++
    collect (relativeStep K text) text

def externalReferenceOrigin (K : Crates) (reference : Text) : Option Text :=
  let reference := trim reference
  let protocolRelative := "//".toList.isPrefixOf reference
  let parseValue :=
    if protocolRelative then some ("https:".toList ++ reference)
    else if "http:".toList.isPrefixOf (lower reference) || "https:".toList.isPrefixOf (lower reference)
    then some reference
    else none
  match parseValue.bind K.urlParse with
  | none => none
  | some url =>
    if url.scheme ∉ ["http".toList, "https".toList] ∨ url.hostStr.isNone then none
    else if protocolRelative then some ((stripPrefix "https:".toList url.origin).getD url.origin)
    else some url.origin

/-! ## Attributes -/

def isInlineEventHandlerAttribute (name : Text) : Bool :=
  2 < byteLength name && "on".toList.isPrefixOf name &&
    (name.drop 2).all fun c => isAsciiAlphanumeric c || c == '-'

/-- A string behind its length as a `u64`. -/
def framed (t : Text) : Bytes := Framing.frame (encode t)

/-- The order of `(String, String)`. -/
def attributeLe (a b : Text × Text) : Bool :=
  (compare a.1 b.1).then (compare a.2 b.2) != .gt

def canonicalAttributes (attributes : List (Text × Text)) : Bytes :=
  (attributes.insertionSort (attributeLe · ·)).flatMap fun (name, value) => framed name ++ framed value

def canonicalAttributesSha256 (K : Crates) (attributes : List (Text × Text)) : Text :=
  K.sha256 (canonicalAttributes attributes)

/-- `attributes.get(name)` of the map collected from the list: the last value of a name. -/
def getAttribute (attributes : List (Text × Text)) (name : Text) : Option Text :=
  (attributes.reverse.find? (·.1 == name)).map Prod.snd

/-! ## Tags -/

/-- The five counters of the loop over the tags. -/
inductive FeatureKind where
  | event | form | script | iframe | download
  deriving DecidableEq, Repr

def FeatureKind.code : FeatureKind → Text
  | event => "new_inline_event_handler".toList
  | form => "new_form_action".toList
  | script => "new_script".toList
  | iframe => "new_iframe".toList
  | download => "new_download".toList

/-- A feature of a tag before it is numbered: counter and key, then destination and the fingerprint
without its number. -/
abbrev Sighting := (FeatureKind × Text) × Text × Text

def eventSightings (K : Crates) (tag : MarkupTag) : List Sighting :=
  (tag.attributes.filter fun (name, value) =>
    isInlineEventHandlerAttribute name && !(trim value).isEmpty).map fun (name, value) =>
      ((.event, tag.name ++ ":".toList ++ name), tag.name ++ "[".toList ++ name ++ "]".toList,
        K.sha256 (encode value))

def elementSightings (K : Crates) (tag : MarkupTag) : List Sighting :=
  let attributesSha256 := canonicalAttributesSha256 K tag.attributes
  if tag.name = "form".toList then
    match getAttribute tag.attributes "action".toList with
    | some action => [((.form, action), action, attributesSha256)]
    | none => []
  else if tag.name = "script".toList then
    let destination := (getAttribute tag.attributes "src".toList).getD "inline-script".toList
    let fingerprint :=
      if destination = "inline-script".toList then
        attributesSha256 ++ ":".toList ++ tag.bodySha256.getD "missing-body".toList
      else attributesSha256
    [((.script, destination), destination, fingerprint)]
  else if tag.name = "iframe".toList then
    let destination := (getAttribute tag.attributes "src".toList).getD "inline-frame".toList
    [((.iframe, destination), destination, attributesSha256)]
  else []

def downloadSightings (K : Crates) (tag : MarkupTag) : List Sighting :=
  if (getAttribute tag.attributes "download".toList).isSome then
    let destination := (getAttribute tag.attributes "href".toList).getD "download-attribute".toList
    [((.download, destination), destination, canonicalAttributesSha256 K tag.attributes)]
  else []

def tagSightings (K : Crates) (tag : MarkupTag) : List Sighting :=
  if tag.closing then []
  else eventSightings K tag ++ elementSightings K tag ++ downloadSightings K tag

/-- `format!("{occurrence}:{…}")`. -/
def numberedFeature (path : Text) :
    (FeatureKind × Text) × ℕ × Text × Text → BehaviorFeature
  | ((kind, _), occurrence, destination, fingerprint) =>
    ⟨kind.code, path, destination, decimal occurrence ++ ":".toList ++ fingerprint⟩

/-- The numbered features of the tags of one page. -/
def markupFeatures (K : Crates) (path text : Text) (htmlMode : Bool) : List BehaviorFeature :=
  (Occurrence.number [] ((scanMarkupTags K text htmlMode).flatMap (tagSightings K))).map
    (numberedFeature path)

/-- The content of a local script that a page loads. -/
def scriptContentFeatures (K : Crates) (files : Files) (path : Text) (tag : MarkupTag) :
    List BehaviorFeature :=
  if tag.closing ∨ tag.name ≠ "script".toList then []
  else match getAttribute tag.attributes "src".toList with
  | none => []
  | some source =>
    match resolveLocalReference K path source with
    | .ok (some resolved) =>
      match files[resolved]? with
      | some scriptBytes =>
        [⟨"changed_script_content".toList, resolved, source, K.sha256 scriptBytes⟩]
      | none => []
    | _ => []

/-! ## Files -/

/-- `lower.matches(marker).count()`: occurrences that do not overlap. -/
def matchStep (marker : Text) : Stepper Empty Unit Char
  | [] => .halt []
  | c :: cs =>
    if marker.isPrefixOf (c :: cs) then .next [()] ((c :: cs).drop marker.length) else .next [] cs

def markerFeatures (code path lowerText : Text) (marker : String) : List BehaviorFeature :=
  (List.range (collect (matchStep marker.toList) lowerText).length).map fun i =>
    ⟨code, path, marker.toList, decimal (i + 1)⟩

def originFeatures (path label : Text) (origins : List Text) : List BehaviorFeature :=
  (Occurrence.number [] (origins.map fun origin => (origin, ()))).map fun (origin, occurrence, _) =>
    ⟨"new_external_origin".toList, path, origin, label ++ ":".toList ++ decimal occurrence⟩

/-- The features of one file of the site. -/
def fileFeatures (K : Crates) (files : Files) (path : Text) (bytes : Bytes) : List BehaviorFeature :=
  match decode bytes with
  | none => []
  | some text =>
    let mediaType := textMediaTypeForPath path
    let content := if mediaType = some .javascript then
        [⟨"changed_script_content".toList, path, path, K.sha256 bytes⟩] else []
    let rawOrigins := originFeatures path "raw".toList (externalOrigins K text)
    let staticOrigins := match StaticExport.scanReferences path bytes with
      | .ok scan => originFeatures path "static".toList
          (scan.references.filterMap (externalReferenceOrigin K))
      | .error _ => []
    let analytics := ["google-analytics", "googletagmanager", "gtag(", "analytics(", "plausible.io",
      "segment.com", "mixpanel", "matomo", "fbq("].flatMap
        (markerFeatures "new_analytics".toList path (lower text))
    let cookies := ["document.cookie", "cookie="].flatMap
      (markerFeatures "new_cookie_behavior".toList path (lower text))
    let markup := if isPage path then
        let htmlMode := mediaType = some .html
        markupFeatures K path text htmlMode ++
          (scanMarkupTags K text htmlMode).flatMap (scriptContentFeatures K files path)
      else []
    content ++ rawOrigins ++ staticOrigins ++ analytics ++ cookies ++ markup

/-- `behavior_features`. -/
def behaviorFeatures (K : Crates) (files : Files) : List BehaviorFeature :=
  files.toList.flatMap fun (path, bytes) => fileFeatures K files path bytes

def behaviorMessage (code : Text) : Text :=
  if code = "new_external_origin".toList then
    "The proposal introduces a new external network origin.".toList
  else if code = "new_form_action".toList then
    "The proposal introduces a form submission destination.".toList
  else if code = "new_script".toList then "The proposal introduces executable script content.".toList
  else if code = "changed_script_content".toList then
    "The proposal creates or changes JavaScript content that may become executable.".toList
  else if code = "new_inline_event_handler".toList then
    "The proposal introduces inline event-handler script behavior.".toList
  else if code = "new_iframe".toList then "The proposal introduces embedded frame content.".toList
  else if code = "new_download".toList then "The proposal introduces download behavior.".toList
  else if code = "new_analytics".toList then "The proposal introduces analytics-like behavior.".toList
  else if code = "new_cookie_behavior".toList then "The proposal introduces cookie behavior.".toList
  else "The proposal introduces active behavior.".toList

/-- `active_behavior_warnings`, up to the order and repetition that the caller's set removes. -/
def activeBehaviorWarnings (K : Crates) (accepted proposed : Files) : List BlockingWarning :=
  let before := behaviorFeatures K accepted
  ((behaviorFeatures K proposed).filter fun feature =>
    feature ∉ before ∧ feature.code ≠ "new_external_origin".toList).map fun feature =>
      ⟨feature.code, feature.path, feature.destination, behaviorMessage feature.code⟩

end LpStudio.ChangeSet
