import LpStudio.ChangeSet.References
import LpStudio.Markup.Agreement

/-! # The two media type tables
`change_set.rs` looks at the extension of a path, `static_export.rs` at its end.
-/
namespace LpStudio.ChangeSet
open Str Paths

theorem endsWith_extension {path ext : Text} (hext : '.' ∉ ext) (hne : ext ≠ []) :
    ('.' :: ext).isSuffixOf (lower path) = (extension path).any (fun e => lower e == ext) := by
  rw [Bool.eq_iff_iff, extension_suffix hext]
  constructor
  · rintro ⟨b, e, h, rfl⟩
    have he : e ≠ [] := by rintro rfl; exact hne rfl
    simp [extension, h, he]
  · intro h
    simp only [extension] at h
    cases hsplit : rsplitOnce '.' path with
    | none => simp [hsplit] at h
    | some p =>
      obtain ⟨b, e⟩ := p
      rw [hsplit] at h
      by_cases he : e = []
      · simp [he] at h
      · exact ⟨b, e, rfl, by simpa [he] using h⟩

/-- The table of `static_export.rs`, by extension. -/
theorem exportMediaType_extension (path : Text) :
    StaticExport.textMediaTypeForPath path =
      match extension path with
      | none => none
      | some e =>
        if lower e = "html".toList ∨ lower e = "htm".toList then some .html
        else if lower e = "css".toList then some .css
        else if lower e = "svg".toList then some .svg
        else if lower e = "xml".toList then some .xml
        else if lower e = "js".toList ∨ lower e = "mjs".toList ∨ lower e = "cjs".toList then
          some .javascript
        else none := by
  have html : ".html".toList.isSuffixOf (lower path) = (extension path).any (lower · == "html".toList) :=
    endsWith_extension (by decide) (by decide)
  have htm : ".htm".toList.isSuffixOf (lower path) = (extension path).any (lower · == "htm".toList) :=
    endsWith_extension (by decide) (by decide)
  have css : ".css".toList.isSuffixOf (lower path) = (extension path).any (lower · == "css".toList) :=
    endsWith_extension (by decide) (by decide)
  have svg : ".svg".toList.isSuffixOf (lower path) = (extension path).any (lower · == "svg".toList) :=
    endsWith_extension (by decide) (by decide)
  have xml : ".xml".toList.isSuffixOf (lower path) = (extension path).any (lower · == "xml".toList) :=
    endsWith_extension (by decide) (by decide)
  have js : ".js".toList.isSuffixOf (lower path) = (extension path).any (lower · == "js".toList) :=
    endsWith_extension (by decide) (by decide)
  have mjs : ".mjs".toList.isSuffixOf (lower path) = (extension path).any (lower · == "mjs".toList) :=
    endsWith_extension (by decide) (by decide)
  have cjs : ".cjs".toList.isSuffixOf (lower path) = (extension path).any (lower · == "cjs".toList) :=
    endsWith_extension (by decide) (by decide)
  simp only [StaticExport.textMediaTypeForPath, html, htm, css, svg, xml, js, mjs, cjs]
  cases extension path with
  | none => rfl
  | some e => simp only [Option.any_some, Bool.or_eq_true, beq_iff_eq, or_assoc]

/-- A page is HTML, SVG or XML in both tables or in neither. -/
theorem mediaType_agree (path : Text) :
    (textMediaTypeForPath path = some .html ↔ StaticExport.textMediaTypeForPath path = some .html) ∧
    (textMediaTypeForPath path = some .svg ↔ StaticExport.textMediaTypeForPath path = some .svg) ∧
    (textMediaTypeForPath path = some .xml ↔ StaticExport.textMediaTypeForPath path = some .xml) := by
  rw [exportMediaType_extension]
  simp only [textMediaTypeForPath, eqIgnoreCase]
  cases extension path with
  | none => simp
  | some e =>
    simp only [List.any_cons, List.any_nil, Bool.or_false, Bool.or_eq_true, beq_iff_eq]
    have lowered : ∀ s ∈ ["html", "htm", "css", "js", "mjs", "cjs", "json", "map", "webmanifest", "svg",
        "xml", "txt", "csv"], lower (String.toList s) = s.toList := by decide
    simp only [List.forall_mem_cons, List.not_mem_nil, false_implies, implies_true, and_true] at lowered
    simp only [lowered]
    generalize lower e = l
    by_cases hknown : l ∈ ["html".toList, "htm".toList, "css".toList, "js".toList, "mjs".toList,
        "cjs".toList, "json".toList, "map".toList, "webmanifest".toList, "svg".toList, "xml".toList,
        "txt".toList, "csv".toList]
    · revert l; decide
    · simp only [List.mem_cons, List.not_mem_nil, or_false, not_or] at hknown
      simp only [hknown, or_self, ↓reduceIte, reduceCtorEq, and_self]

theorem htmlMode_agree (path : Text) :
    Markup.htmlMode path = (textMediaTypeForPath path = some .html : Bool) := by
  simp only [Markup.htmlMode, (mediaType_agree path).1]

end LpStudio.ChangeSet
