import LpStudio.Lib.Scanning
import LpStudio.Lib.Str

/-! # What the two markup scanners share
`change_set.rs` and `static_export.rs` each carry their own scanner. The functions below stand word for
word in both files.
-/
namespace LpStudio.Markup
open Str Scanning

/-- `markup_tag_end`: the text up to the first `>` outside quotes, and the text after it. -/
def markupTagEnd (quote : Option Char) : Text → Option (Text × Text)
  | [] => none
  | c :: cs =>
    let through (q : Option Char) :=
      (markupTagEnd q cs).map fun (inner, rest) => (c :: inner, rest)
    match quote with
    | some expected => through (if c = expected then none else some expected)
    | none =>
      if c = '\'' ∨ c = '"' then through (some c)
      else if c = '>' then some ([], cs)
      else through none

/-- `raw_text_element` of `static_export.rs`, `behavior_raw_text_element` of `change_set.rs`. -/
def rawTextElement (name : Text) (htmlMode : Bool) : Bool :=
  name ∈ ["style".toList, "script".toList] ||
  (htmlMode && name ∈ ["title".toList, "textarea".toList, "xmp".toList, "iframe".toList,
    "noembed".toList, "noframes".toList, "noscript".toList])

/-- The byte after the closing prefix ends the tag name. -/
def closingBoundary : Text → Bool
  | [] => true
  | c :: _ => isAsciiWhitespace c || c == '/' || c == '>'

/-- An appropriate end tag at `tail`, the text after its `<`: what follows it. -/
def closeTag (closingBodyPrefix tail : Text) : Option Text :=
  match markupTagEnd none tail with
  | none => none
  | some (inner, rest) =>
    let closeBody := trim inner
    let trailing := trim (closeBody.drop closingBodyPrefix.length)
    if lower (closeBody.take closingBodyPrefix.length) = closingBodyPrefix ∧
        (trailing = [] ∨ trailing = ['/'])
    then some rest else none

/-- The search loop of `raw_text_element_bounds`; `skip` characters belong to a prefix that was found
without a boundary behind it. -/
def rawTextSearch (closingBodyPrefix : Text) : Nat → Text → Option (Text × Text)
  | _, [] => none
  | skip + 1, c :: cs =>
    (rawTextSearch closingBodyPrefix skip cs).map fun (body, rest) => (c :: body, rest)
  | 0, c :: cs =>
    let onwards (skip : Nat) :=
      (rawTextSearch closingBodyPrefix skip cs).map fun (body, rest) => (c :: body, rest)
    if ('<' :: closingBodyPrefix).isPrefixOf (lower (c :: cs)) then
      if closingBoundary (cs.drop closingBodyPrefix.length) then
        (closeTag closingBodyPrefix cs).map fun rest => ([], rest)
      else onwards closingBodyPrefix.length
    else onwards 0

/-- `raw_text_element_bounds`: the raw body and the text after its end tag. -/
def rawTextElementBounds (text tagName : Text) : Option (Text × Text) :=
  rawTextSearch ('/' :: tagName) 0 text

/-- The name part of `parse_tag_body`: name, closing flag and the text after the name. `None` where the
body opens no tag. -/
def tagName (body : Text) : Option (Text × Bool × Text) :=
  if body.isEmpty || body.head? = some '!' || body.head? = some '?' then none
  else
    let closing := body.head? = some '/'
    let body := trimStart (if closing then body.tail else body)
    let nameEnd (c : Char) := isWhitespace c || c == '/' || c == '>'
    let name := lower (body.takeWhile (!nameEnd ·))
    if name.isEmpty || !name.all (fun c => isAsciiAlphanumeric c || c == '-' || c == ':') then none
    else some (name, closing, body.dropWhile (!nameEnd ·))

/-! ## Progress -/

theorem markupTagEnd_length {quote : Option Char} {t inner rest : Text}
    (h : markupTagEnd quote t = some (inner, rest)) : rest.length < t.length := by
  induction t generalizing quote inner with
  | nil => simp [markupTagEnd] at h
  | cons c cs ih =>
    have through {q} (h : (markupTagEnd q cs).map (fun (i, r) => (c :: i, r)) = some (inner, rest)) :
        rest.length < (c :: cs).length := by
      simp only [Option.map_eq_some_iff, Prod.exists, Prod.mk.injEq] at h
      obtain ⟨i, r, hir, -, rfl⟩ := h
      have := ih hir
      simp only [List.length_cons]; omega
    cases quote with
    | some expected => exact through h
    | none =>
      simp only [markupTagEnd] at h
      split at h
      · exact through h
      · split at h
        · simp only [Option.some.injEq, Prod.mk.injEq] at h
          obtain ⟨-, rfl⟩ := h; simp
        · exact through h

theorem closeTag_length {p tail rest : Text} (h : closeTag p tail = some rest) :
    rest.length < tail.length := by
  simp only [closeTag] at h
  split at h
  · simp at h
  · rename_i hend
    split at h
    · obtain rfl := Option.some.inj h
      exact markupTagEnd_length hend
    · simp at h

theorem rawTextSearch_length {p : Text} {skip : Nat} {t body rest : Text}
    (h : rawTextSearch p skip t = some (body, rest)) : rest.length < t.length := by
  induction t generalizing skip body with
  | nil => simp [rawTextSearch] at h
  | cons c cs ih =>
    have onwards {k} (h : (rawTextSearch p k cs).map (fun (b, r) => (c :: b, r)) = some (body, rest)) :
        rest.length < (c :: cs).length := by
      simp only [Option.map_eq_some_iff, Prod.exists, Prod.mk.injEq] at h
      obtain ⟨b, r, hbr, -, rfl⟩ := h
      have := ih hbr
      simp only [List.length_cons]; omega
    cases skip with
    | succ k => exact onwards h
    | zero =>
      simp only [rawTextSearch] at h
      split at h
      · split at h
        · simp only [Option.map_eq_some_iff, Prod.mk.injEq] at h
          obtain ⟨r, hr, -, rfl⟩ := h
          have := closeTag_length hr
          simp only [List.length_cons]; omega
        · exact onwards h
      · exact onwards h

end LpStudio.Markup
