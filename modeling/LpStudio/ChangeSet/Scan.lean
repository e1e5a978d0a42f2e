import LpStudio.Markup.Tag
import LpStudio.Site.Crates

/-! # The markup scanner of `change_set.rs`
It feeds the active-behaviour warnings and the resolution of Targets. It never fails: where it cannot
read on, it stops.
-/
namespace LpStudio.ChangeSet
open Str Scanning Markup

structure MarkupTag where
  name : Text
  closing : Bool
  attributes : List (Text × Text)
  bodySha256 : Option Text
  deriving DecidableEq, Repr

/-- An attribute name ends here. -/
def nameEnd (c : Char) : Bool := isWhitespace c || c == '=' || c == '/' || c == '>'

/-- An unquoted value ends here. -/
def valueEnd (c : Char) : Bool := isWhitespace c || c == '/' || c == '>'

/-- The value that follows an attribute name, with the input after it. -/
def attributeValue (input : Text) : Text × Text :=
  match trimStart input with
  | '=' :: rest =>
    match trimStart rest with
    | [] => ([], [])
    | c :: cs =>
      if c = '\'' ∨ c = '"' then (splitOnce [c] cs).getD (cs, [])
      else ((c :: cs).takeWhile (!valueEnd ·), (c :: cs).dropWhile (!valueEnd ·))
  | input => ([], input)

/-- One turn of `parse_attributes`. -/
def attributeStep : Stepper Empty (Text × Text) Char := fun input =>
  let input := input.dropWhile fun c => isWhitespace c || c == '/'
  let name := input.takeWhile (!nameEnd ·)
  if name = [] then .halt []
  else
    let (value, rest) := attributeValue (input.dropWhile (!nameEnd ·))
    .next [(lower name, value)] rest

def parseAttributes (input : Text) : List (Text × Text) := collect attributeStep input

def parseTagBody (body : Text) : Option MarkupTag :=
  (tagName body).map fun (name, closing, rest) =>
    { name, closing, attributes := if closing then [] else parseAttributes rest, bodySha256 := none }

def isScript (tag : MarkupTag) : Bool := tag.name == "script".toList

/-- `tag.body_sha256 = Some(sha256(body))`, for a script only. -/
def withBody (K : Crates) (tag : MarkupTag) (body : Text) : MarkupTag :=
  if isScript tag then { tag with bodySha256 := some (K.sha256 (encode body)) } else tag

/-- One turn of `scan_markup_tags`. -/
def scanStep (K : Crates) (htmlMode : Bool) : Stepper Empty MarkupTag Char := fun text =>
  match text.dropWhile (· != '<') with
  | [] => .halt []
  | _ :: tail =>
    if "!--".toList.isPrefixOf tail then
      match splitOnce "-->".toList (tail.drop 3) with
      | some (_, rest) => .next [] rest
      | none => .halt []
    else match markupTagEnd none tail with
    | none => .halt []
    | some (inner, rest) =>
      match parseTagBody (trim inner) with
      | none => .next [] rest
      | some tag =>
        if !tag.closing && htmlMode && tag.name == "plaintext".toList then .halt [tag]
        else if !tag.closing && rawTextElement tag.name htmlMode then
          match rawTextElementBounds rest tag.name with
          | some (body, next) => .next [withBody K tag body] next
          | none => .halt [withBody K tag rest]
        else .next [tag] rest

def scanMarkupTags (K : Crates) (text : Text) (htmlMode : Bool) : List MarkupTag :=
  collect (scanStep K htmlMode) text

/-! ## Progress -/

theorem attributeValue_length (input : Text) : (attributeValue input).2.length ≤ input.length := by
  have htrim := trimStart_length_le input
  simp only [attributeValue]
  split
  · rename_i rest heq
    have hrest := trimStart_length_le rest
    have : rest.length < input.length := by rw [heq] at htrim; simpa using htrim
    split
    · simp
    · rename_i c cs hcs
      rw [hcs] at hrest
      split
      · cases hsplit : splitOnce [c] cs with
        | none => simp
        | some p =>
          have := splitOnce_length (by simp) hsplit
          simp only [List.length_cons] at hrest
          simp only [Option.getD_some]; omega
      · have := (List.dropWhile_sublist (!valueEnd ·) (l := c :: cs)).length_le
        simp only; omega
  · exact htrim

theorem attributeStep_productive : Productive attributeStep := by
  intro input out rest h
  simp only [attributeStep] at h
  split at h
  · cases h
  · rename_i hname
    simp only [Step.next.injEq] at h
    obtain ⟨-, rfl⟩ := h
    have hdrop := (List.dropWhile_sublist (fun c => isWhitespace c || c == '/') (l := input)).length_le
    generalize input.dropWhile (fun c => isWhitespace c || c == '/') = name at hname hdrop
    have hvalue := attributeValue_length (name.dropWhile (!nameEnd ·))
    have hsplit := congrArg List.length (List.takeWhile_append_dropWhile (p := (!nameEnd ·)) (l := name))
    have hpos := List.length_pos_iff.mpr hname
    simp only [List.length_append] at hsplit
    omega

theorem scanStep_productive (K : Crates) (htmlMode : Bool) : Productive (scanStep K htmlMode) := by
  intro text out rest h
  have hdrop := (List.dropWhile_sublist (· != '<') (l := text)).length_le
  simp only [scanStep] at h
  split at h
  · cases h
  rename_i c tail htail
  rw [htail] at hdrop
  simp only [List.length_cons] at hdrop
  split at h
  · split at h
    · rename_i hsplit
      cases h
      have := splitOnce_length (by decide) hsplit
      simp only [List.length_drop] at this; omega
    · cases h
  split at h
  · cases h
  rename_i hend
  have hlt := markupTagEnd_length hend
  split at h
  · cases h; omega
  split at h
  · cases h
  split at h
  · split at h
    · rename_i hraw
      cases h
      have := rawTextSearch_length hraw; omega
    · cases h
  · cases h; omega

end LpStudio.ChangeSet
