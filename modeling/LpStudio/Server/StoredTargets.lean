import LpStudio.Lib.NumberTree
import LpStudio.Server.Targets
import LpStudio.Storage.Targets

/-! # Targets at rest
What `create_target` has persisted is decoded, checked and encoded again at the next start, and has to come out as the same
bytes; so has the Target in the metadata of a Proposal. The numbers are the `f64` of the source: `serde_json` writes and
reads them in functions of its own.
-/
namespace LpStudio.Server.StoredTargets
open Str Targets

/-! ## The record -/

structure StoredViewport where
  cssWidth : Float
  cssHeight : Float
  scrollX : Float
  scrollY : Float
  devicePixelRatio : Float
  visualViewportScale : Float
  previewScale : Float

structure StoredDocument where
  cssWidth : Float
  cssHeight : Float
  layoutEpoch : ℕ

structure StoredRect where
  x : Float
  y : Float
  width : Float
  height : Float

structure StoredPoint where
  x : Float
  y : Float

structure StoredGeometry where
  documentCssPixelRect : StoredRect
  viewportCssPixelRect : StoredRect
  viewportNormalizedRect : StoredRect

structure StoredPointCapture where
  documentCssPixel : StoredPoint
  viewportNormalized : StoredPoint

/-- `TargetRecord`, with its numbers as they are decoded. -/
structure StoredTarget where
  schemaVersion : ℕ
  targetId : Text
  captureRevisionId : Text
  captureSource : TargetCaptureSource
  captureProposalId : Option Text
  pagePath : Text
  kind : TargetKind
  label : Text
  viewport : StoredViewport
  document : StoredDocument
  geometry : Option StoredGeometry
  point : Option StoredPointCapture
  elementAnchor : Option ElementAnchor
  textAnchor : Option TextAnchor
  regionAnchor : Option RegionAnchor
  block : Option TargetBlock

/-- The number that a finite `f64` stands for. -/
def rational (x : Float) : ℚ :=
  match x.toModel.unpack with
  | .finite sign mantissa exponent _ =>
    let magnitude : ℚ := if 0 ≤ exponent then (mantissa * 2 ^ exponent.toNat : ℕ) else mkRat mantissa (2 ^ (-exponent).toNat)
    match sign with
    | .negative => -magnitude
    | .positive => magnitude
  | _ => 0

def StoredViewport.measured (viewport : StoredViewport) : TargetViewport :=
  ⟨rational viewport.cssWidth, rational viewport.cssHeight, rational viewport.scrollX, rational viewport.scrollY,
    rational viewport.devicePixelRatio, rational viewport.visualViewportScale, rational viewport.previewScale⟩

def StoredDocument.measured (document : StoredDocument) : TargetDocument :=
  ⟨rational document.cssWidth, rational document.cssHeight, document.layoutEpoch⟩

def StoredRect.measured (rect : StoredRect) : TargetRect :=
  ⟨rational rect.x, rational rect.y, rational rect.width, rational rect.height⟩

def StoredPoint.measured (point : StoredPoint) : TargetPoint := ⟨rational point.x, rational point.y⟩

def StoredGeometry.measured (geometry : StoredGeometry) : TargetGeometry :=
  ⟨geometry.documentCssPixelRect.measured, geometry.viewportCssPixelRect.measured,
    geometry.viewportNormalizedRect.measured⟩

def StoredPointCapture.measured (point : StoredPointCapture) : TargetPointCapture :=
  ⟨point.documentCssPixel.measured, point.viewportNormalized.measured⟩

def StoredTarget.measured (target : StoredTarget) : TargetRecord where
  schemaVersion := target.schemaVersion
  targetId := target.targetId
  captureRevisionId := target.captureRevisionId
  captureSource := target.captureSource
  captureProposalId := target.captureProposalId
  pagePath := target.pagePath
  kind := target.kind
  label := target.label
  viewport := target.viewport.measured
  document := target.document.measured
  geometry := target.geometry.map (·.measured)
  point := target.point.map (·.measured)
  elementAnchor := target.elementAnchor
  textAnchor := target.textAnchor
  regionAnchor := target.regionAnchor
  block := target.block

/-! ## The encoding
The fields in the order of their declaration, absent options left out.
-/

def optionalField {α : Type} (name : String) (value : Option α) (tree : α → NumberTree Float) :
    List (Text × NumberTree Float) :=
  value.toList.map fun value => (name.toList, tree value)

def StoredViewport.tree (viewport : StoredViewport) : NumberTree Float := .obj [
  ("cssWidth".toList, .number viewport.cssWidth), ("cssHeight".toList, .number viewport.cssHeight),
  ("scrollX".toList, .number viewport.scrollX), ("scrollY".toList, .number viewport.scrollY),
  ("devicePixelRatio".toList, .number viewport.devicePixelRatio),
  ("visualViewportScale".toList, .number viewport.visualViewportScale),
  ("previewScale".toList, .number viewport.previewScale)]

def StoredDocument.tree (document : StoredDocument) : NumberTree Float := .obj [
  ("cssWidth".toList, .number document.cssWidth), ("cssHeight".toList, .number document.cssHeight),
  ("layoutEpoch".toList, .plain (.num document.layoutEpoch))]

def StoredRect.tree (rect : StoredRect) : NumberTree Float := .obj [
  ("x".toList, .number rect.x), ("y".toList, .number rect.y), ("width".toList, .number rect.width),
  ("height".toList, .number rect.height)]

def StoredPoint.tree (point : StoredPoint) : NumberTree Float := .obj [
  ("x".toList, .number point.x), ("y".toList, .number point.y)]

def StoredGeometry.tree (geometry : StoredGeometry) : NumberTree Float := .obj [
  ("documentCssPixelRect".toList, geometry.documentCssPixelRect.tree),
  ("viewportCssPixelRect".toList, geometry.viewportCssPixelRect.tree),
  ("viewportNormalizedRect".toList, geometry.viewportNormalizedRect.tree)]

def StoredPointCapture.tree (point : StoredPointCapture) : NumberTree Float := .obj [
  ("documentCssPixel".toList, point.documentCssPixel.tree), ("viewportNormalized".toList, point.viewportNormalized.tree)]

def elementAnchorJson (anchor : ElementAnchor) : Json := .obj (
  [("tagName".toList, .str anchor.tagName)] ++ optional "uniqueElementId" anchor.uniqueElementId .str ++
  optional "role" anchor.role .str ++ optional "accessibleName" anchor.accessibleName .str ++
  optional "domPath" anchor.domPath .str ++
  optional "classTokens" anchor.classTokens (fun tokens => .arr (tokens.map .str)) ++
  optional "ancestorFingerprint" anchor.ancestorFingerprint .str ++ optional "siblingIndex" anchor.siblingIndex .num)

def textAnchorJson (anchor : TextAnchor) : Json := .obj (
  [("exact".toList, .str anchor.exact)] ++ optional "prefix" anchor.before .str ++ optional "suffix" anchor.after .str ++
  optional "startOffset" anchor.startOffset .num ++ optional "endOffset" anchor.endOffset .num)

def regionAnchorJson (anchor : RegionAnchor) : Json := .obj (
  optional "containingBlock" anchor.containingBlock elementAnchorJson ++
  optional "previousVisibleSibling" anchor.previousVisibleSibling elementAnchorJson ++
  optional "nextVisibleSibling" anchor.nextVisibleSibling elementAnchorJson ++
  [("layoutMode".toList, .str anchor.layoutMode.name)])

def blockJson (block : TargetBlock) : Json := .obj [
  ("source".toList, .str block.source.name), ("level".toList, .num block.level)]

def StoredTarget.tree (target : StoredTarget) : NumberTree Float := .obj (
  [("schemaVersion".toList, .plain (.num target.schemaVersion)), ("targetId".toList, .plain (.str target.targetId)),
    ("captureRevisionId".toList, .plain (.str target.captureRevisionId)),
    ("captureSource".toList, .plain (.str target.captureSource.name))] ++
  optionalField "captureProposalId" target.captureProposalId (fun id => .plain (.str id)) ++
  [("pagePath".toList, .plain (.str target.pagePath)), ("kind".toList, .plain (.str target.kind.name)),
    ("label".toList, .plain (.str target.label)), ("viewport".toList, target.viewport.tree),
    ("document".toList, target.document.tree)] ++
  optionalField "geometry" target.geometry (·.tree) ++ optionalField "point" target.point (·.tree) ++
  optionalField "elementAnchor" target.elementAnchor (fun anchor => .plain (elementAnchorJson anchor)) ++
  optionalField "textAnchor" target.textAnchor (fun anchor => .plain (textAnchorJson anchor)) ++
  optionalField "regionAnchor" target.regionAnchor (fun anchor => .plain (regionAnchorJson anchor)) ++
  optionalField "block" target.block (fun block => .plain (blockJson block)))

/-- The measurements, in the order in which they are written. -/
def StoredTarget.numbers (target : StoredTarget) : List Float := target.tree.numbers

/-! ## Another reading of the numbers -/

section
variable (f : Float → Float)

def StoredViewport.map (viewport : StoredViewport) : StoredViewport :=
  ⟨f viewport.cssWidth, f viewport.cssHeight, f viewport.scrollX, f viewport.scrollY, f viewport.devicePixelRatio,
    f viewport.visualViewportScale, f viewport.previewScale⟩

def StoredDocument.map (document : StoredDocument) : StoredDocument :=
  ⟨f document.cssWidth, f document.cssHeight, document.layoutEpoch⟩

def StoredRect.map (rect : StoredRect) : StoredRect := ⟨f rect.x, f rect.y, f rect.width, f rect.height⟩

def StoredPoint.map (point : StoredPoint) : StoredPoint := ⟨f point.x, f point.y⟩

def StoredGeometry.map (geometry : StoredGeometry) : StoredGeometry :=
  ⟨geometry.documentCssPixelRect.map f, geometry.viewportCssPixelRect.map f, geometry.viewportNormalizedRect.map f⟩

def StoredPointCapture.map (point : StoredPointCapture) : StoredPointCapture :=
  ⟨point.documentCssPixel.map f, point.viewportNormalized.map f⟩

def StoredTarget.map (target : StoredTarget) : StoredTarget :=
  { target with
    viewport := target.viewport.map f
    document := target.document.map f
    geometry := target.geometry.map (·.map f)
    point := target.point.map (·.map f) }

variable {f}

theorem mapFields_optionalField {α : Type} (name : String) (value : Option α) (tree : α → NumberTree Float) :
    NumberTree.mapFields f (optionalField name value tree) = optionalField name value fun a => (tree a).map f := by
  cases value with
  | none => rfl
  | some a => rfl

theorem optionalField_map {α β : Type} (name : String) (value : Option α) (g : α → β) (tree : β → NumberTree Float) :
    optionalField name (value.map g) tree = optionalField name value fun a => tree (g a) := by
  cases value with
  | none => rfl
  | some a => rfl

theorem StoredTarget.tree_map (target : StoredTarget) : (target.map f).tree = target.tree.map f := by
  have hviewport : (target.viewport.map f).tree = target.viewport.tree.map f := rfl
  have hdocument : (target.document.map f).tree = target.document.tree.map f := rfl
  have hgeometry : ∀ geometry : StoredGeometry, (geometry.map f).tree = geometry.tree.map f := fun _ => rfl
  have hpoint : ∀ point : StoredPointCapture, (point.map f).tree = point.tree.map f := fun _ => rfl
  unfold StoredTarget.tree StoredTarget.map
  simp only [NumberTree.map, NumberTree.mapFields_append, mapFields_optionalField, optionalField_map, hviewport, hdocument,
    hgeometry, hpoint, NumberTree.mapFields]

theorem numbersOfFields_plain {α : Type} (name : String) (value : Option α) (json : α → Json) :
    NumberTree.numbersOfFields (optionalField name value fun a => .plain (json a)) = [] := by
  cases value with
  | none => rfl
  | some a => rfl

theorem StoredViewport.map_eq (viewport : StoredViewport) (h : ∀ x ∈ viewport.tree.numbers, f x = x) :
    viewport.map f = viewport := by
  simp only [StoredViewport.tree, NumberTree.numbers, NumberTree.numbersOfFields, List.singleton_append,
    List.forall_mem_cons] at h
  obtain ⟨hwidth, hheight, hscrollX, hscrollY, hratio, hvisual, hpreview, -⟩ := h
  rw [StoredViewport.map, hwidth, hheight, hscrollX, hscrollY, hratio, hvisual, hpreview]

theorem StoredDocument.map_eq (document : StoredDocument) (h : ∀ x ∈ document.tree.numbers, f x = x) :
    document.map f = document := by
  simp only [StoredDocument.tree, NumberTree.numbers, NumberTree.numbersOfFields, List.singleton_append,
    List.forall_mem_cons] at h
  obtain ⟨hwidth, hheight, -⟩ := h
  rw [StoredDocument.map, hwidth, hheight]

theorem StoredRect.map_eq (rect : StoredRect) (h : ∀ x ∈ rect.tree.numbers, f x = x) : rect.map f = rect := by
  simp only [StoredRect.tree, NumberTree.numbers, NumberTree.numbersOfFields, List.singleton_append,
    List.forall_mem_cons] at h
  obtain ⟨hx, hy, hwidth, hheight, -⟩ := h
  rw [StoredRect.map, hx, hy, hwidth, hheight]

theorem StoredPoint.map_eq (point : StoredPoint) (h : ∀ x ∈ point.tree.numbers, f x = x) : point.map f = point := by
  simp only [StoredPoint.tree, NumberTree.numbers, NumberTree.numbersOfFields, List.singleton_append,
    List.forall_mem_cons] at h
  obtain ⟨hx, hy, -⟩ := h
  rw [StoredPoint.map, hx, hy]

theorem StoredGeometry.map_eq (geometry : StoredGeometry) (h : ∀ x ∈ geometry.tree.numbers, f x = x) :
    geometry.map f = geometry := by
  rw [StoredGeometry.tree, NumberTree.numbers] at h
  simp only [NumberTree.numbersOfFields, List.append_nil, List.forall_mem_append] at h
  obtain ⟨hdocument, hviewport, hnormalized⟩ := h
  rw [StoredGeometry.map, StoredRect.map_eq _ hdocument, StoredRect.map_eq _ hviewport, StoredRect.map_eq _ hnormalized]

theorem StoredPointCapture.map_eq (point : StoredPointCapture) (h : ∀ x ∈ point.tree.numbers, f x = x) :
    point.map f = point := by
  rw [StoredPointCapture.tree, NumberTree.numbers] at h
  simp only [NumberTree.numbersOfFields, List.append_nil, List.forall_mem_append] at h
  obtain ⟨hdocument, hviewport⟩ := h
  rw [StoredPointCapture.map, StoredPoint.map_eq _ hdocument, StoredPoint.map_eq _ hviewport]

theorem map_optionalField_eq {α : Type} {name : String} {value : Option α} {tree : α → NumberTree Float} {g : α → α}
    (hg : ∀ a, (∀ x ∈ (tree a).numbers, f x = x) → g a = a)
    (h : ∀ x ∈ NumberTree.numbersOfFields (optionalField name value tree), f x = x) : value.map g = value := by
  cases value with
  | none => rfl
  | some a =>
    refine congrArg some (hg a fun x hx => h x ?_)
    exact List.mem_append_left _ hx

/-- A reading that gives every number back gives the record back. -/
theorem StoredTarget.map_eq (target : StoredTarget) (h : ∀ x ∈ target.numbers, f x = x) : target.map f = target := by
  obtain ⟨schemaVersion, targetId, captureRevisionId, captureSource, captureProposalId, pagePath, kind, label, viewport,
    document, geometry, point, elementAnchor, textAnchor, regionAnchor, block⟩ := target
  have hnumbers : ∀ x ∈ viewport.tree.numbers ++ (document.tree.numbers ++
      (NumberTree.numbersOfFields (optionalField "geometry" geometry (·.tree)) ++
        NumberTree.numbersOfFields (optionalField "point" point (·.tree)))), f x = x := by
    intro x hx
    refine h x ?_
    simp only [StoredTarget.numbers, StoredTarget.tree, NumberTree.numbers, NumberTree.numbersOfFields_append,
      NumberTree.numbersOfFields, numbersOfFields_plain, List.append_nil, List.nil_append, List.append_assoc]
    exact hx
  simp only [List.forall_mem_append] at hnumbers
  obtain ⟨hviewport, hdocument, hgeometry, hpoint⟩ := hnumbers
  unfold StoredTarget.map
  dsimp only
  rw [viewport.map_eq hviewport, document.map_eq hdocument, map_optionalField_eq StoredGeometry.map_eq hgeometry,
    map_optionalField_eq StoredPointCapture.map_eq hpoint]

end

/-! ## Decimals
The parser of `serde_json` without `float_roundtrip`: the significand as an `f64`, then one multiplication by a power of
ten, or divisions by powers of ten, each of them rounded.
-/

structure JsonNumber where
  negative : Bool
  significand : ℕ
  exponent : ℤ
  deriving DecidableEq

/-- The exponent part of a number. -/
def readExponent : Text → Option ℤ
  | [] => some 0
  | c :: rest =>
    if c = 'e' ∨ c = 'E' then
      match rest with
      | '-' :: digits => some (-(Nat.ofDigitChars 10 digits 0 : ℤ))
      | '+' :: digits => some (Nat.ofDigitChars 10 digits 0)
      | digits => some (Nat.ofDigitChars 10 digits 0)
    else none

/-- The digits behind the point count for the significand. -/
def readNumber (t : Text) : Option JsonNumber := do
  let negative := t.head? == some '-'
  let unsigned := if negative then t.drop 1 else t
  let whole := unsigned.takeWhile isAsciiDigit
  let rest := unsigned.dropWhile isAsciiDigit
  let fraction := if rest.head? = some '.' then (rest.drop 1).takeWhile isAsciiDigit else []
  let rest := if rest.head? = some '.' then (rest.drop 1).dropWhile isAsciiDigit else rest
  guard (whole ≠ [])
  let exponent ← readExponent rest
  return ⟨negative, Nat.ofDigitChars 10 (whole ++ fraction) 0, exponent - fraction.length⟩

/-- `POW10` -/
def pow10 (k : ℕ) : Float := Float.ofScientific 1 false k

/-- `f64_from_parts` -/
def fromParts (number : JsonNumber) : Option Float :=
  let significand := Float.ofNat number.significand
  let k := number.exponent.natAbs
  let scaled :=
    if 0 ≤ number.exponent then significand * pow10 k
    else Nat.iterate (· / pow10 308) ((k - 1) / 308) significand / pow10 (k - 308 * ((k - 1) / 308))
  if 308 < number.exponent ∧ number.significand ≠ 0 then none
  else (some (if number.negative then -scaled else scaled)).filter Float.isFinite

/-! ## The crate -/

/-- What is read of `PersistedProposalMetadata` about its Target. -/
structure ProposalMetadata where
  baseRevisionId : Text
  /-- The fields from `schemaVersion` to `validation`. -/
  before : List (Text × Json)
  target : StoredTarget
  /-- The fields from `instruction` on. -/
  after : List (Text × Json)
  /-- `targetDigest` of the review context, which is a JSON text among the fields before. -/
  targetDigest : Option Text

/-- `serde_json`: how it writes an `f64` and reads a number, and `from_slice` for two types. -/
structure SerdeJson where
  print : Float → Text
  parse : Text → Option Float
  target : Bytes → Option StoredTarget
  metadata : Bytes → Option ProposalMetadata

/-- A finite number is written without what ends a number, as no other is, and what is read is finite. -/
structure SerdeJson.Lawful (S : SerdeJson) : Prop where
  plain : NumberTree.Plain S.print
  injective : ∀ x y : Float, x.isFinite = true → y.isFinite = true → S.print x = S.print y → x = y
  parse : ∀ x : Float, x.isFinite = true → S.parse (S.print x) = (readNumber (S.print x)).bind fromParts
  finite : ∀ text x, S.parse text = some x → x.isFinite = true

/-- The number comes back from its own decimal. -/
def SerdeJson.Steady (S : SerdeJson) (x : Float) : Prop := (readNumber (S.print x)).bind fromParts = some x

def ProposalMetadata.tree (metadata : ProposalMetadata) : NumberTree Float := .obj (
  metadata.before.map (fun field => (field.1, .plain field.2)) ++ [("target".toList, metadata.target.tree)] ++
  metadata.after.map (fun field => (field.1, .plain field.2)))

section
variable (S : SerdeJson) (K : Crates)

/-- `serde_json::to_vec` of a Target. -/
def SerdeJson.toVec (target : StoredTarget) : Bytes := encode (target.tree.render S.print)

/-- `serde_json::to_vec` of the metadata. -/
def SerdeJson.metadataToVec (metadata : ProposalMetadata) : Bytes := encode (metadata.tree.render S.print)

/-- What is read of a Target that was written: its fields, each number from its own decimal. -/
def SerdeJson.reread (target : StoredTarget) : Option StoredTarget :=
  if ∀ x ∈ target.numbers, (S.parse (S.print x)).isSome = true then
    some (target.map fun x => (S.parse (S.print x)).getD x)
  else none

/-- The bytes that `create_target` hands to `persist_target`. -/
def persisted (target : StoredTarget) : Option Bytes := do
  let _ ← (validateTargetShape K target.measured).toOption
  guard ((S.toVec target).length ≤ Storage.maxTargetMetadataBytes)
  return S.toVec target

/-- What `StudioState::new` makes of a persisted Target. -/
def reload (storedTargetId : Text) (bytes : Bytes) : Option StoredTarget := do
  let target ← S.target bytes
  let _ ← (validateTargetShape K target.measured).toOption
  guard (target.targetId = storedTargetId ∧ S.toVec target = bytes)
  return target

/-- What a Proposal records about its Target; its base is the revision of the capture. -/
def recorded (before after : List (Text × Json)) (target : StoredTarget) : ProposalMetadata :=
  ⟨target.captureRevisionId, before, target, after, some (K.sha256 (S.toVec target))⟩

/-- The checks of `recover_persisted_proposals` and `review_context_matches_metadata` that read the Target. -/
def recover (bytes : Bytes) : Option ProposalMetadata := do
  let metadata ← S.metadata bytes
  guard (S.metadataToVec metadata = bytes)
  guard (metadata.target.captureRevisionId = metadata.baseRevisionId)
  let _ ← (validateTargetShape K metadata.target.measured).toOption
  guard (metadata.targetDigest = some (K.sha256 (S.toVec metadata.target)))
  return metadata

end

/-! ## What comes back -/

section
variable {S : SerdeJson} {K : Crates} {target : StoredTarget} {f : Float → Float}

theorem mapFields_plain (fields : List (Text × Json)) :
    NumberTree.mapFields f (fields.map fun field => (field.1, .plain field.2)) =
      fields.map fun field => (field.1, .plain field.2) := by
  induction fields with
  | nil => rfl
  | cons field fields ih => rw [List.map_cons, NumberTree.mapFields, NumberTree.map, ih]

theorem numbersOfFields_map_plain (fields : List (Text × Json)) :
    NumberTree.numbersOfFields (fields.map fun field => (field.1, (.plain field.2 : NumberTree Float))) = [] := by
  induction fields with
  | nil => rfl
  | cons field fields ih => rw [List.map_cons, NumberTree.numbersOfFields, NumberTree.numbers, ih, List.nil_append]

theorem ProposalMetadata.tree_map (metadata : ProposalMetadata) :
    ({ metadata with target := metadata.target.map f } : ProposalMetadata).tree = metadata.tree.map f := by
  unfold ProposalMetadata.tree
  simp only [NumberTree.map, NumberTree.mapFields_append, mapFields_plain, NumberTree.mapFields, StoredTarget.tree_map]

theorem ProposalMetadata.numbers_tree (metadata : ProposalMetadata) : metadata.tree.numbers = metadata.target.numbers := by
  unfold ProposalMetadata.tree StoredTarget.numbers
  simp only [NumberTree.numbers, NumberTree.numbersOfFields_append, numbersOfFields_map_plain,
    NumberTree.numbersOfFields, List.nil_append, List.append_nil]

/-- A tree whose numbers are read again is written as before if and only if each of them is. -/
theorem render_reread (hplain : NumberTree.Plain S.print) (tree : NumberTree Float) :
    encode ((tree.map f).render S.print) = encode (tree.render S.print) ↔ ∀ x ∈ tree.numbers, S.print (f x) = S.print x := by
  rw [encode_injective.eq_iff, NumberTree.render_map, NumberTree.render_eq_iff (fun x => hplain (f x)) hplain]

/-- The numbers that are written as before are those that come back. -/
theorem steady_of_print (hS : S.Lawful) {numbers : List Float} (hdecoded : ∀ x ∈ numbers, ∃ text, S.parse text = some x)
    (hparsed : ∀ x ∈ numbers, (S.parse (S.print x)).isSome = true)
    (hprint : ∀ x ∈ numbers, S.print ((S.parse (S.print x)).getD x) = S.print x) : ∀ x ∈ numbers, S.Steady x := by
  intro x hx
  obtain ⟨text, htext⟩ := hdecoded x hx
  obtain ⟨y, hy⟩ := Option.isSome_iff_exists.mp (hparsed x hx)
  have hsame := hprint x hx
  rw [hy, Option.getD_some] at hsame
  rw [SerdeJson.Steady, ← hS.parse x (hS.finite text x htext), hy,
    hS.injective y x (hS.finite _ y hy) (hS.finite text x htext) hsame]

theorem guard_some {p : Prop} [Decidable p] : (guard p : Option Unit) = some () ↔ p := by
  unfold guard
  split
  · exact ⟨fun _ => ‹p›, fun _ => rfl⟩
  · exact ⟨fun h => (by cases h), fun h => absurd h ‹¬ p›⟩

theorem persisted_some {bytes : Bytes} : persisted S K target = some bytes ↔
    (validateTargetShape K target.measured).toOption = some () ∧
      (S.toVec target).length ≤ Storage.maxTargetMetadataBytes ∧ S.toVec target = bytes := by
  simp only [persisted, Option.bind_eq_bind, Option.bind_eq_some_iff, Option.pure_def, Option.some.injEq]
  constructor
  · rintro ⟨⟨⟩, hshape, ⟨⟩, hlength, hbytes⟩
    exact ⟨hshape, guard_some.mp hlength, hbytes⟩
  · rintro ⟨hshape, hlength, hbytes⟩
    exact ⟨(), hshape, (), guard_some.mpr hlength, hbytes⟩

theorem reload_some {storedTargetId : Text} {bytes : Bytes} {again : StoredTarget} :
    reload S K storedTargetId bytes = some again ↔ S.target bytes = some again ∧
      (validateTargetShape K again.measured).toOption = some () ∧ again.targetId = storedTargetId ∧
        S.toVec again = bytes := by
  simp only [reload, Option.bind_eq_bind, Option.bind_eq_some_iff, Option.pure_def, Option.some.injEq]
  constructor
  · rintro ⟨again, hread, ⟨⟩, hshape, ⟨⟩, hguard, rfl⟩
    exact ⟨hread, hshape, guard_some.mp hguard⟩
  · rintro ⟨hread, hshape, hguard⟩
    exact ⟨again, hread, (), hshape, (), guard_some.mpr hguard, rfl⟩

theorem recover_some {bytes : Bytes} {again : ProposalMetadata} :
    recover S K bytes = some again ↔ S.metadata bytes = some again ∧ S.metadataToVec again = bytes ∧
      again.target.captureRevisionId = again.baseRevisionId ∧
      (validateTargetShape K again.target.measured).toOption = some () ∧
      again.targetDigest = some (K.sha256 (S.toVec again.target)) := by
  simp only [recover, Option.bind_eq_bind, Option.bind_eq_some_iff, Option.pure_def, Option.some.injEq]
  constructor
  · rintro ⟨again, hread, ⟨⟩, hbytes, ⟨⟩, hbase, ⟨⟩, hshape, ⟨⟩, hdigest, rfl⟩
    exact ⟨hread, guard_some.mp hbytes, guard_some.mp hbase, hshape, guard_some.mp hdigest⟩
  · rintro ⟨hread, hbytes, hbase, hshape, hdigest⟩
    exact ⟨again, hread, (), guard_some.mpr hbytes, (), guard_some.mpr hbase, (), hshape, (), guard_some.mpr hdigest, rfl⟩

theorem reread_some {again : StoredTarget} (h : S.reread target = some again) :
    (∀ x ∈ target.numbers, (S.parse (S.print x)).isSome = true) ∧
      again = target.map fun x => (S.parse (S.print x)).getD x := by
  unfold SerdeJson.reread at h
  split at h
  · exact ⟨‹_›, (Option.some.inj h).symm⟩
  · cases h

theorem reread_steady (hS : S.Lawful) (hdecoded : ∀ x ∈ target.numbers, ∃ text, S.parse text = some x)
    (hsteady : ∀ x ∈ target.numbers, S.Steady x) : S.reread target = some target := by
  have hparse : ∀ x ∈ target.numbers, S.parse (S.print x) = some x := by
    intro x hx
    obtain ⟨text, htext⟩ := hdecoded x hx
    exact (hS.parse x (hS.finite text x htext)).trans (hsteady x hx)
  rw [SerdeJson.reread, if_pos fun x hx => by rw [hparse x hx]; rfl, target.map_eq fun x hx => by rw [hparse x hx]; rfl]

/-- A Target that is accepted again has come back number by number. -/
theorem steady_of_reload (hS : S.Lawful) {bytes : Bytes} (hdecoded : ∀ x ∈ target.numbers, ∃ text, S.parse text = some x)
    (hread : S.target bytes = S.reread target) (hbytes : S.toVec target = bytes) {storedTargetId : Text}
    {again : StoredTarget} (h : reload S K storedTargetId bytes = some again) : ∀ x ∈ target.numbers, S.Steady x := by
  obtain ⟨hagain, -, -, hsame⟩ := reload_some.mp h
  obtain ⟨hparsed, rfl⟩ := reread_some (hread.symm.trans hagain)
  rw [← hbytes, SerdeJson.toVec, SerdeJson.toVec, StoredTarget.tree_map, render_reread hS.plain] at hsame
  exact steady_of_print hS hdecoded hparsed hsame

end

/-- The literal as the closest `f64`, ties to even. -/
def closest (number : JsonNumber) : Float :=
  let magnitude := Float.ofScientific number.significand (decide (number.exponent < 0)) number.exponent.natAbs
  if number.negative then -magnitude else magnitude

/-- A number with so many digits behind the point. -/
def fixed (x : Float) (digits : ℕ) : Text :=
  let scaled := (|rational x| * 10 ^ digits + 1 / 2).floor.toNat
  let fraction := Nat.toDigits 10 (scaled % 10 ^ digits)
  (if x.toBits.toNat < 2 ^ 63 then [] else ['-']) ++ Nat.toDigits 10 (scaled / 10 ^ digits) ++
    '.' :: (List.replicate (digits - fraction.length) '0' ++ fraction)

/-- The text is a number whose closest `f64` is the one given. -/
def names (x : Float) (text : Text) : Bool :=
  decide ((readNumber text).map closest = some x) && text.all (fun c => !NumberTree.ends c) && text.head? != some '!'

/-- The shortest of the decimals without an exponent, or else the bits. -/
def samplePrint (x : Float) : Text :=
  (((List.range' 1 20).map (fixed x)).find? (names x)).getD ('!' :: Nat.toDigits 10 x.toBits.toNat)

theorem samplePrint_cases (x : Float) :
    names x (samplePrint x) = true ∨ samplePrint x = '!' :: Nat.toDigits 10 x.toBits.toNat := by
  unfold samplePrint
  cases h : ((List.range' 1 20).map (fixed x)).find? (names x) with
  | none => exact .inr rfl
  | some text => exact .inl (List.find?_some h)

theorem toBits_injective {x y : Float} (h : x.toBits.toNat = y.toBits.toNat) : x = y := by
  obtain ⟨⟨x, _⟩⟩ := x
  obtain ⟨⟨y, _⟩⟩ := y
  have hbits : x = y := UInt64.toNat_inj.mp h
  subst hbits
  rfl

theorem samplePrint_injective {x y : Float} (h : samplePrint x = samplePrint y) : x = y := by
  have hnames : ∀ {z : Float} {text : Text}, names z text = true →
      (readNumber text).map closest = some z ∧ text.head? ≠ some '!' := by
    intro z text hz
    simp only [names, Bool.and_eq_true, decide_eq_true_eq, bne_iff_ne] at hz
    exact ⟨hz.1.1, hz.2⟩
  rcases samplePrint_cases x with hx | hx
  · rcases samplePrint_cases y with hy | hy
    · rw [← h] at hy
      exact Option.some.inj ((hnames hx).1.symm.trans (hnames hy).1)
    · rw [h, hy] at hx
      exact absurd rfl (hnames hx).2
  · rcases samplePrint_cases y with hy | hy
    · rw [← h, hx] at hy
      exact absurd rfl (hnames hy).2
    · rw [hx, hy] at h
      have hdigits : Nat.toDigits 10 x.toBits.toNat ++ [] = Nat.toDigits 10 y.toBits.toNat ++ [] := by
        rw [(List.cons.inj h).2]
      have hnil : Json.Stops [] := fun c hc => by cases hc
      exact toBits_injective (Json.toDigits_append_inj hnil hnil hdigits).1

theorem samplePrint_plain : NumberTree.Plain samplePrint := by
  intro x c hc
  rcases samplePrint_cases x with hx | hx
  · simp only [names, Bool.and_eq_true] at hx
    have := List.all_eq_true.mp hx.1.2 c hc
    simpa using this
  · rw [hx] at hc
    rcases List.mem_cons.mp hc with rfl | hc
    · rfl
    · have hdigit := Nat.isDigit_of_mem_toDigits (by decide) (by decide) hc
      refine Bool.eq_false_of_not_eq_true fun hends => ?_
      simp only [NumberTree.ends, Bool.or_eq_true, beq_iff_eq] at hends
      rcases hends with rfl | rfl
      · exact absurd hdigit (by decide)
      · exact absurd hdigit (by decide)

/-- `serde_json` on numbers that need no exponent, reading what was written of one Target. -/
def sampleSerde (target : StoredTarget) : SerdeJson :=
  let numbers : SerdeJson := ⟨samplePrint, fun text => (readNumber text).bind fromParts, fun _ => none, fun _ => none⟩
  let metadata := recorded numbers sampleCrates [] [] target
  { numbers with
    target := fun bytes => if bytes = numbers.toVec target then numbers.reread target else none
    metadata := fun bytes => if bytes = numbers.metadataToVec metadata then
      (numbers.reread target).map fun again => { metadata with target := again } else none }

theorem sampleSerde_lawful (target : StoredTarget) : (sampleSerde target).Lawful := by
  refine ⟨samplePrint_plain, fun x y _ _ h => samplePrint_injective h, fun x _ => rfl, fun text x h => ?_⟩
  obtain ⟨number, -, h⟩ := Option.bind_eq_some_iff.mp h
  by_cases hlarge : 308 < number.exponent ∧ number.significand ≠ 0
  · rw [fromParts, if_pos hlarge] at h
    cases h
  · rw [fromParts, if_neg hlarge] at h
    exact (Option.filter_eq_some_iff.mp h).2

theorem sampleSerde_target (target : StoredTarget) :
    (sampleSerde target).target ((sampleSerde target).toVec target) = (sampleSerde target).reread target := if_pos rfl

theorem sampleSerde_metadata (target : StoredTarget) :
    (sampleSerde target).metadata ((sampleSerde target).metadataToVec (recorded (sampleSerde target) sampleCrates [] []
      target)) = ((sampleSerde target).reread target).map fun again =>
        { recorded (sampleSerde target) sampleCrates [] [] target with target := again } := if_pos rfl

/-- A whole page, scrolled to the right. -/
def sampleTarget (scrollX : Float) : StoredTarget where
  schemaVersion := 1
  targetId := "tgt_".toList ++ List.replicate 32 '0'
  captureRevisionId := "rev_".toList ++ List.replicate 32 '0'
  captureSource := .accepted
  captureProposalId := none
  pagePath := "index.html".toList
  kind := .page
  label := "Page".toList
  viewport := ⟨1, 1, scrollX, 1, 1, 1, 1⟩
  document := ⟨1, 1, 0⟩
  geometry := none
  point := none
  elementAnchor := none
  textAnchor := none
  regionAnchor := none
  block := none

/-- What `9.056986295042422` in a request is decoded to. -/
def sampleScroll : Float := Float.ofNat 9056986295042422 / pow10 15

theorem sample_numbers (x : Float) : (sampleTarget x).numbers = [1, 1, x, 1, 1, 1, 1, 1, 1] := rfl

/-- A request can contain both numbers. -/
theorem sample_decoded {x : Float} (hx : x = 1 ∨ x = sampleScroll) : ∀ y ∈ (sampleTarget x).numbers,
    ∃ text, (sampleSerde (sampleTarget x)).parse text = some y := by
  have hone : ∃ text, (readNumber text).bind fromParts = some 1 := ⟨"1.0".toList, by decide⟩
  have hscroll : ∃ text, (readNumber text).bind fromParts = some x := by
    rcases hx with rfl | rfl
    · exact hone
    · exact ⟨"9.056986295042422".toList, by decide⟩
  rw [sample_numbers]
  simp only [List.forall_mem_cons]
  exact ⟨hone, hone, hscroll, hone, hone, hone, hone, hone, hone, by simp⟩

theorem sample_persisted {x : Float} (hx : x = 1 ∨ x = sampleScroll) :
    persisted (sampleSerde (sampleTarget x)) sampleCrates (sampleTarget x) =
      some ((sampleSerde (sampleTarget x)).toVec (sampleTarget x)) := by
  refine persisted_some.mpr ⟨?_, ?_, rfl⟩
  · rcases hx with rfl | rfl
    · decide +kernel
    · decide +kernel
  · rcases hx with rfl | rfl
    · decide +kernel
    · decide +kernel

/-- Only the first of the two numbers is read as it was written. -/
theorem sample_steady : (readNumber (samplePrint 1)).bind fromParts = some 1 ∧
    (readNumber (samplePrint sampleScroll)).bind fromParts ≠ some sampleScroll := by
  decide +kernel

end LpStudio.Server.StoredTargets
