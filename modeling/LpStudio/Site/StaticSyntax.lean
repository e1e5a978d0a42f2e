import LpStudio.Site.Paths

/-! # Static syntax checks of `static_syntax.rs`
The language parsers are crates; the walk over what they return is modelled.
-/
namespace LpStudio.StaticSyntax
open Str Paths

/-- A node of the `RcDom` that `html5ever` builds: attributes are local name and value. -/
inductive HtmlNode where
  | element (name : Text) (attributes : List (Text × Text)) (children : List HtmlNode)
  | text (contents : Text)
  | other (children : List HtmlNode)

/-- A node of a `roxmltree` document: attributes are namespace, local name and value. -/
inductive XmlNode where
  | element (xmlns : Option Text) (name : Text) (attributes : List (Option Text × Text × Text))
      (children : List XmlNode)
  | text (contents : Text)
  | comment (contents : Text)
  | other (children : List XmlNode)

/-- `SourceType` of `oxc`. -/
inductive SourceType where
  | script | mjs | cjs | unambiguous
  deriving DecidableEq, Repr

structure Parsers where
  /-- `html5ever`: the document and the number of parse errors. -/
  parseHtml : Text → HtmlNode × ℕ
  /-- `StyleSheet::parse` of `lightningcss`, by file name and text. -/
  styleSheet : Text → Text → Bool
  /-- `StyleAttribute::parse` of `lightningcss`. -/
  styleAttribute : Text → Bool
  /-- `oxc`: parsed and analysed without a diagnostic. -/
  javaScript : SourceType → Text → Bool
  /-- `serde_json::from_str::<Value>`. -/
  json : Text → Bool
  /-- `roxmltree`, without DTD and with at most 100000 nodes. -/
  parseXml : Text → Option XmlNode

def maxHtmlRecoveryWarningCount : ℕ := 1000

/-- State of `css_delimiters_are_closed`. -/
structure DelimiterState where
  delimiters : List Char
  quote : Option Char
  escaped : Bool
  inComment : Bool

/-- The loop of `css_delimiters_are_closed`; `skip` drops the second character of `/*` and `*/`. -/
def delimitersClosed (s : DelimiterState) : Text → Bool → Bool
  | [], _ => s.delimiters.isEmpty && s.quote.isNone && !s.inComment && !s.escaped
  | _ :: cs, true => delimitersClosed s cs false
  | c :: cs, false =>
    if s.inComment then
      if c = '*' ∧ cs.head? = some '/' then delimitersClosed { s with inComment := false } cs true
      else delimitersClosed s cs false
    else match s.quote with
    | some quote =>
      if s.escaped then delimitersClosed { s with escaped := false } cs false
      else if c = '\\' then delimitersClosed { s with escaped := true } cs false
      else if c = quote then delimitersClosed { s with quote := none } cs false
      else delimitersClosed s cs false
    | none =>
      if s.escaped then delimitersClosed { s with escaped := false } cs false
      else if c = '\\' then delimitersClosed { s with escaped := true } cs false
      else if c = '/' ∧ cs.head? = some '*' then
        delimitersClosed { s with inComment := true } cs true
      else if c = '\'' ∨ c = '"' then delimitersClosed { s with quote := some c } cs false
      else if c ∈ ['\x7b', '[', '('] then
        delimitersClosed { s with delimiters := c :: s.delimiters } cs false
      else if c ∈ ['\x7d', ']', ')'] then
        let expected := if c = '\x7d' then '\x7b' else if c = ']' then '[' else '('
        match s.delimiters with
        | d :: ds =>
          if d = expected then delimitersClosed { s with delimiters := ds } cs false else false
        | [] => false
      else delimitersClosed s cs false

def cssDelimitersAreClosed (text : Text) : Bool := delimitersClosed ⟨[], none, false, false⟩ text false

section
variable (S : Parsers)

def validateCss (path text : Text) : Bool := cssDelimitersAreClosed text && S.styleSheet path text

def validateStyleAttribute (text : Text) : Bool := cssDelimitersAreClosed text && S.styleAttribute text

inductive InlineScriptKind where
  | classic | module | inert
  deriving DecidableEq, Repr

def javascriptMimeType (value : Text) : Bool :=
  let essence := trim (value.takeWhile (· != ';'))
  ["application/ecmascript", "application/javascript", "application/x-ecmascript",
    "application/x-javascript", "text/ecmascript", "text/javascript", "text/javascript1.0",
    "text/javascript1.1", "text/javascript1.2", "text/javascript1.3", "text/javascript1.4",
    "text/javascript1.5", "text/jscript", "text/livescript", "text/x-ecmascript",
    "text/x-javascript"].any fun mimeType => eqIgnoreCase essence mimeType.toList

/-- `inline_script_kind_from_values`. -/
def inlineScriptKind (scriptType language : Option Text) : InlineScriptKind :=
  match scriptType, language with
  | some scriptType, _ =>
    let scriptType := trim scriptType
    if scriptType.isEmpty || javascriptMimeType scriptType then .classic
    else if eqIgnoreCase scriptType "module".toList then .module
    else .inert
  | none, some language =>
    let language := trim language
    if language.isEmpty || javascriptMimeType ("text/".toList ++ language) then .classic else .inert
  | none, none => .classic

def validateInlineScript (kind : InlineScriptKind) (text : Text) : Bool :=
  match kind with
  | .classic => S.javaScript .script text
  | .module => S.javaScript .mjs text
  | .inert => true

def attributeValue (attributes : List (Text × Text)) (localName : String) : Option Text :=
  (attributes.find? fun (name, _) => eqIgnoreCase name localName.toList).map Prod.snd

/-- `text_content`: the text of the direct children. -/
def textContent (children : List HtmlNode) : Text :=
  children.flatMap fun
    | .text contents => contents
    | _ => []

mutual
def validateHtmlNode : HtmlNode → Bool
  | .element name attributes children =>
    (match attributeValue attributes "style" with
      | some style => validateStyleAttribute S style
      | none => true) &&
    (if eqIgnoreCase name "style".toList then
        validateCss S "<inline-style>".toList (textContent children)
      else if eqIgnoreCase name "script".toList && (attributeValue attributes "src").isNone then
        validateInlineScript S (inlineScriptKind (attributeValue attributes "type")
          (attributeValue attributes "language")) (textContent children)
      else true) &&
    validateHtmlNodes children
  | .text _ => true
  | .other children => validateHtmlNodes children

def validateHtmlNodes : List HtmlNode → Bool
  | [] => true
  | node :: nodes => validateHtmlNode node && validateHtmlNodes nodes
end

/-- `validate_html`: the number of recovered parse errors, at most 1000. -/
def validateHtml (text : Text) : Option ℕ :=
  let (document, errors) := S.parseHtml text
  if validateHtmlNode S document then some (min errors maxHtmlRecoveryWarningCount) else none

/-- `Node::text` of `roxmltree`: of an element, the text it begins with. -/
def XmlNode.nodeText : XmlNode → Option Text
  | .element _ _ _ (.text contents :: _) => some contents
  | .element .. => none
  | .text contents => some contents
  | .comment contents => some contents
  | .other _ => none

def XmlNode.isElement : XmlNode → Bool
  | .element .. => true
  | _ => false

/-- `xml_text_content`. -/
def xmlTextContent : List XmlNode → Option Text
  | [] => some []
  | child :: children =>
    match child.nodeText with
    | some value => (xmlTextContent children).map (value ++ ·)
    | none => if child.isElement then none else xmlTextContent children

def xmlAttributeValue (attributes : List (Option Text × Text × Text)) (localName : String) :
    Option Text :=
  (attributes.find? fun (xmlns, name, _) => xmlns.isNone && name == localName.toList).map (·.2.2)

def svgNamespace : Text := "http://www.w3.org/2000/svg".toList
def xhtmlNamespace : Text := "http://www.w3.org/1999/xhtml".toList
def xlinkNamespace : Text := "http://www.w3.org/1999/xlink".toList

/-- The checks of `validate_xml_embedded_languages` on one element. -/
def validateXmlElement (xmlns : Option Text) (name : Text)
    (attributes : List (Option Text × Text × Text)) (children : List XmlNode) : Bool :=
  if xmlns ≠ some svgNamespace ∧ xmlns ≠ some xhtmlNamespace then true
  else
    (match xmlAttributeValue attributes "style" with
      | some style => validateStyleAttribute S style
      | none => true) &&
    (if eqIgnoreCase name "style".toList then
        ((xmlTextContent children).map (validateCss S "<inline-xml-style>".toList)).getD false
      else if eqIgnoreCase name "script".toList then
        let external :=
          if xmlns = some svgNamespace then
            (xmlAttributeValue attributes "href").isSome ||
              attributes.any fun (xmlns, name, _) =>
                xmlns == some xlinkNamespace && name == "href".toList
          else (xmlAttributeValue attributes "src").isSome
        external || match inlineScriptKind (xmlAttributeValue attributes "type")
            (xmlAttributeValue attributes "language") with
          | .inert => true
          | kind => ((xmlTextContent children).map (validateInlineScript S kind)).getD false
      else true)

mutual
def validateXmlEmbeddedLanguages : XmlNode → Bool
  | .element xmlns name attributes children =>
    validateXmlElement S xmlns name attributes children && validateXmlNodes children
  | .text _ => true
  | .comment _ => true
  | .other children => validateXmlNodes children

def validateXmlNodes : List XmlNode → Bool
  | [] => true
  | node :: nodes => validateXmlEmbeddedLanguages node && validateXmlNodes nodes
end

def validateXml (text : Text) : Bool :=
  ((S.parseXml text).map (validateXmlEmbeddedLanguages S)).getD false

inductive TextKind where
  | css | html | javaScript | json | plain | xml
  deriving DecidableEq, Repr

/-- `text_kind`. -/
def textKind (path : Text) : Option TextKind :=
  match rsplitOnce '.' path with
  | none => none
  | some (_, extension) =>
    let isOneOf (choices : List String) := choices.any fun choice => eqIgnoreCase extension choice.toList
    if isOneOf ["html", "htm"] then some .html
    else if isOneOf ["css"] then some .css
    else if isOneOf ["js", "mjs", "cjs"] then some .javaScript
    else if isOneOf ["json", "map", "webmanifest"] then some .json
    else if isOneOf ["svg", "xml"] then some .xml
    else if isOneOf ["txt", "csv"] then some .plain
    else none

def validateJavascript (path text : Text) : Bool :=
  match rsplitOnce '.' path with
  | none => false
  | some (_, extension) =>
    if eqIgnoreCase extension "mjs".toList then S.javaScript .mjs text
    else if eqIgnoreCase extension "cjs".toList then S.javaScript .cjs text
    else if eqIgnoreCase extension "js".toList then S.javaScript .unambiguous text
    else false

/-- The check of one file: the number of recovered HTML parse errors. -/
def validateFile (path : Text) (bytes : Bytes) : Option ℕ :=
  match textKind path with
  | none => some 0
  | some kind =>
    match decode bytes with
    | none => none
    | some text =>
      if text.contains '\x00' then none
      else match kind with
      | .css => if validateCss S path text then some 0 else none
      | .html => validateHtml S text
      | .javaScript => if validateJavascript S path text then some 0 else none
      | .json => if S.json text then some 0 else none
      | .plain => some 0
      | .xml => if validateXml S text then some 0 else none

/-- `validate_resulting_site`: the bounded number of recovered HTML parse errors. -/
def validateResultingSite (files : List (Text × Bytes)) : Option ℕ :=
  files.foldlM (fun count (path, bytes) =>
    (validateFile S path bytes).map fun warnings =>
      min (count + warnings) maxHtmlRecoveryWarningCount) 0

end
end LpStudio.StaticSyntax
