import LpStudio.Contracts.Guards
import LpStudio.Lib.Outcome
import LpStudio.StaticExport.Export

/-! # The validation report at the client
Which reports of `generate_static_export` the guard `isExportValidationReportV1` accepts.
-/
namespace LpStudio.Contracts
open Str Paths Outcome StaticExport

/-! ## The standards that server and client share -/

def httpSchemes : List Text := ["http".toList, "https".toList]

/-- A URL of the crate as the browser shows it. -/
def browserUrl (url : Url) : BrowserUrl :=
  let withMark (mark : Char) (part : Option Text) :=
    match part.getD [] with
    | [] => []
    | c :: cs => mark :: c :: cs
  { protocol := url.scheme ++ [':']
    username := url.username
    password := url.password.getD []
    search := withMark '?' url.query
    hash := withMark '#' url.fragment
    origin := url.origin }

/-- A URL without its user, query and fragment, whose serialization is `serialized`. -/
def bareUrl (url : Url) (serialized : Text) : Url :=
  { url with username := [], password := none, query := none, fragment := none, cleared := some serialized }

/-- Crates and browser implement the same standards. -/
structure Standards (K : Crates) (B : Browser) : Prop where
  normalizeNfc : ∀ text, B.normalizeNfc text = K.nfc text
  newUrl : ∀ text, B.newUrl text = (K.urlParse text).map browserUrl
  /-- A text with a scheme is parsed to a URL of this scheme. -/
  scheme : ∀ rest url, K.urlParse ("https:".toList ++ rest) = some url → url.scheme = "https".toList
  /-- The origin of an HTTP(S) URL is its scheme, its host and its port. -/
  origin : ∀ text url, K.urlParse text = some url → url.scheme ∈ httpSchemes →
    url.scheme ++ "://".toList <+: url.origin ∧ '\x00' ∉ url.origin
  /-- The serialization of an HTTP(S) URL is parsed to the same URL. -/
  cleared : ∀ text url serialized, K.urlParse text = some url → url.scheme ∈ httpSchemes →
    url.cleared = some serialized →
    url.scheme ++ "://".toList <+: serialized ∧ '\x00' ∉ serialized ∧
      K.urlParse serialized = some (bareUrl url serialized)

/-! ## References -/

theorem isBoundedString_iff {text : Text} {minimumLength maximumLength : ℕ} :
    isBoundedString minimumLength maximumLength (.str text) = true ↔
      '\x00' ∉ text ∧ minimumLength ≤ text.length ∧ text.length ≤ maximumLength := by
  simp only [isBoundedString, Bool.and_eq_true, Bool.not_eq_true', decide_eq_true_eq, and_assoc,
    List.contains_eq_mem, decide_eq_false_iff_not]

theorem isExportExternalReferenceV1_toJson (B : Browser) (reference : ExternalReferenceV1) :
    isExportExternalReferenceV1 B reference.toJson = true ↔
      isContractRelativePath B (.str reference.sourcePath) = true ∧
      isBoundedString 1 4096 (.str reference.sanitizedUrl) = true ∧
      isBoundedString 1 512 (.str reference.origin) = true ∧
      sanitizedExternalIdentity B reference.sanitizedUrl reference.origin = true := by
  have hkeys := hasExactKeys_self [
    ("sourcePath".toList, .str reference.sourcePath), ("sanitizedUrl".toList, .str reference.sanitizedUrl),
    ("origin".toList, .str reference.origin), ("userinfoRedacted".toList, .bool reference.userinfoRedacted),
    ("queryRedacted".toList, .bool reference.queryRedacted),
    ("fragmentRedacted".toList, .bool reference.fragmentRedacted)]
    ["sourcePath", "sanitizedUrl", "origin", "userinfoRedacted", "queryRedacted", "fragmentRedacted"] rfl
  have hread : isExportExternalReferenceV1 B reference.toJson =
      (true && isContractRelativePath B (.str reference.sourcePath) &&
        isBoundedString 1 4096 (.str reference.sanitizedUrl) && isBoundedString 1 512 (.str reference.origin) &&
        sanitizedExternalIdentity B reference.sanitizedUrl reference.origin && true && true && true) := by
    rw [← hkeys]
    rfl
  rw [hread]
  simp only [Bool.true_and, Bool.and_true, Bool.and_eq_true, and_assoc]

theorem colon_of_startsWithDrive {path : Text} (h : startsWithDrive path = true) : ':' ∈ path := by
  unfold startsWithDrive at h
  split at h
  · exact List.mem_cons_of_mem _ List.mem_cons_self
  · cases h

theorem isContractRelativePath_of_valid {K : Crates} {B : Browser} (hK : Standards K B) {path : Text}
    (h : validateCanonicalPath K path = true) : isContractRelativePath B (.str path) = true := by
  simp only [validateCanonicalPath, Bool.and_eq_true, Bool.not_eq_true', Bool.or_eq_false_iff,
    decide_eq_false_iff_not, decide_eq_true_eq, List.all_eq_true, Nat.not_lt] at h
  obtain ⟨⟨⟨⟨⟨⟨⟨hempty, hbytes⟩, hnul⟩, hbackslash⟩, hhead⟩, hnfc⟩, -⟩, hsegments⟩ := h
  have hgood : ∀ segment ∈ segments path, badSegment segment = false := fun segment hmem =>
    (hsegments segment hmem).1
  have hdrive : startsWithDrive path = false := by
    by_contra hdrive
    rw [Bool.not_eq_false] at hdrive
    obtain ⟨segment, hmem, hcolon⟩ := exists_segment (colon_of_startsWithDrive hdrive) (by decide)
    have hbad : segment.any badSegmentChar = true := List.any_eq_true.mpr ⟨':', hcolon, by decide⟩
    have := hgood segment hmem
    simp only [badSegment, hbad, Bool.or_true, Bool.true_or] at this
    cases this
  have hall : ((segments path).all fun segment =>
      !segment.isEmpty && segment != ".".toList && segment != "..".toList) = true := by
    rw [List.all_eq_true]
    intro segment hmem
    have := hgood segment hmem
    simp only [badSegment, Bool.or_eq_false_iff, decide_eq_false_iff_not, List.mem_cons, not_or] at this
    obtain ⟨⟨⟨⟨hne, hdots⟩, -⟩, -⟩, -⟩ := this
    rw [hne, bne_iff_ne.mpr hdots.1, bne_iff_ne.mpr hdots.2.1]
    rfl
  have hhead : (path.head? != some '/') = true := by rw [bne, hhead]; rfl
  have hnfc : (B.normalizeNfc path == path) = true := by
    rw [hK.normalizeNfc, beq_iff_eq]
    exact bne_eq_false_iff_eq.mp hnfc
  simp only [isContractRelativePath, isSafeRelativePath, hempty, hnul, hbackslash, hhead, hdrive, hall, hnfc,
    Bool.not_false, Bool.and_self, Bool.true_and, decide_eq_true_eq]
  exact hbytes

/-- A reference that the guard takes up to its length. -/
structure Identified (B : Browser) (reference : ExternalReferenceV1) : Prop where
  identity : sanitizedExternalIdentity B reference.sanitizedUrl reference.origin = true
  url : '\x00' ∉ reference.sanitizedUrl ∧ reference.sanitizedUrl ≠ []
  origin : '\x00' ∉ reference.origin ∧ reference.origin ≠ []

/-- The guard on a serialization of a bare URL. -/
theorem identity_of_bare {K : Crates} {B : Browser} (hK : Standards K B) {url : Url} {sanitizedUrl serialized : Text}
    (hscheme : url.scheme ∈ httpSchemes) (hagain : K.urlParse serialized = some (bareUrl url serialized))
    (hread : (if "//".toList.isPrefixOf sanitizedUrl then "https:".toList ++ sanitizedUrl else sanitizedUrl) =
      serialized) :
    sanitizedExternalIdentity B sanitizedUrl
      (if "//".toList.isPrefixOf sanitizedUrl then (stripPrefix "https:".toList url.origin).getD url.origin
        else url.origin) = true := by
  have hprotocol : ["http:".toList, "https:".toList].contains (url.scheme ++ [':']) = true := by
    rcases List.mem_cons.mp hscheme with h | h
    · rw [h]
      rfl
    · rw [List.mem_singleton.mp h]
      rfl
  simp only [sanitizedExternalIdentity, hread, hK.newUrl, hagain, Option.map_some, browserUrl, bareUrl, hprotocol,
    Option.getD_none, List.isEmpty_nil, Bool.and_self, beq_self_eq_true]

theorem externalReference_identified {K : Crates} {B : Browser} (hK : Standards K B) {path text : Text}
    {protocolRelative : Bool} {reference : ExternalReferenceV1}
    (h : externalReference K path text protocolRelative = .ok reference) :
    Identified B reference ∧ reference.sourcePath = path := by
  unfold externalReference at h
  simp only at h
  cases hparse : K.urlParse (if protocolRelative then "https:".toList ++ text else text) with
  | none =>
    rw [hparse] at h
    cases h
  | some url =>
    rw [hparse] at h
    simp only at h
    split at h
    · cases h
    rename_i hscheme
    rw [not_or, not_not] at hscheme
    cases hcleared : url.cleared with
    | none =>
      rw [hcleared] at h
      cases h
    | some serialized =>
      rw [hcleared] at h
      simp only [Except.ok.injEq] at h
      obtain ⟨⟨afterScheme, hserialized⟩, hnul, hagain⟩ := hK.cleared _ _ _ hparse hscheme.1 hcleared
      obtain ⟨⟨host, horigin⟩, hnulOrigin⟩ := hK.origin _ _ hparse hscheme.1
      have hne : ∀ rest value, url.scheme ++ "://".toList ++ rest = value → value ≠ [] := by
        rintro rest value rfl
        simp
      subst h
      cases protocolRelative with
      | false =>
        have hplain : "//".toList.isPrefixOf serialized = false := by
          rw [← hserialized]
          rcases List.mem_cons.mp hscheme.1 with hhttp | hhttps
          · rw [hhttp]
            rfl
          · rw [List.mem_singleton.mp hhttps]
            rfl
        have hidentity := identity_of_bare hK hscheme.1 hagain (if_neg (by rw [hplain]; exact Bool.false_ne_true))
        rw [hplain] at hidentity
        exact ⟨⟨hidentity, ⟨hnul, hne _ _ hserialized⟩, hnulOrigin, hne _ _ horigin⟩, rfl⟩
      | true =>
        have hhttps := hK.scheme _ _ hparse
        have hsplit : serialized = "https:".toList ++ ("//".toList ++ afterScheme) := by
          rw [← hserialized, hhttps]
          rfl
        have horigin : url.origin = "https:".toList ++ ("//".toList ++ host) := by
          rw [← horigin, hhttps]
          rfl
        have hidentity : sanitizedExternalIdentity B ("//".toList ++ afterScheme)
            ((stripPrefix "https:".toList url.origin).getD url.origin) = true :=
          identity_of_bare hK hscheme.1 hagain hsplit.symm
        rw [horigin, stripPrefix_append, Option.getD_some] at hidentity
        rw [hsplit] at hnul
        rw [horigin] at hnulOrigin
        simp only [↓reduceIte, hsplit, horigin, stripPrefix_append, Option.getD_some]
        exact ⟨⟨hidentity, ⟨fun h => hnul (List.mem_append_right _ h), List.cons_ne_nil _ _⟩,
          fun h => hnulOrigin (List.mem_append_right _ h), List.cons_ne_nil _ _⟩, trivial⟩

theorem resolveReference_identified {K : Crates} {B : Browser} (hK : Standards K B) {path raw : Text}
    {reference : ExternalReferenceV1} (h : resolveReference K path raw = .ok (.external reference)) :
    Identified B reference ∧ reference.sourcePath = path := by
  unfold resolveReference at h
  have hanswer : ∀ {text : Text} {relative : Bool},
      (externalReference K path text relative).map ReferenceResolution.external = .ok (.external reference) →
        Identified B reference ∧ reference.sourcePath = path := by
    intro text relative h
    obtain ⟨_, hexternal, heq⟩ := map_ok.mp h
    cases heq
    exact externalReference_identified hK hexternal
  -- two branches answer with an external reference
  obtain ⟨-, h⟩ | ⟨-, h⟩ := ite_eq_iff.mp h
  · cases h
  obtain ⟨-, h⟩ | ⟨-, h⟩ := ite_eq_iff.mp h
  · cases h
  obtain ⟨-, h⟩ | ⟨-, h⟩ := ite_eq_iff.mp h
  · cases h
  obtain ⟨-, h⟩ | ⟨-, h⟩ := ite_eq_iff.mp h
  · exact hanswer h
  obtain ⟨-, h⟩ | ⟨-, h⟩ := ite_eq_iff.mp h
  · exact hanswer h
  obtain ⟨-, h⟩ | ⟨-, h⟩ := ite_eq_iff.mp h
  · cases h
  obtain ⟨-, h⟩ | ⟨-, h⟩ := ite_eq_iff.mp h
  · cases h
  obtain ⟨-, h⟩ | ⟨-, h⟩ := ite_eq_iff.mp h
  · cases h
  obtain ⟨-, h⟩ | ⟨-, h⟩ := ite_eq_iff.mp h
  · cases h
  split at h
  · cases h
  · obtain ⟨-, h⟩ | ⟨-, h⟩ := ite_eq_iff.mp h
    · cases h
    · obtain ⟨-, h⟩ | ⟨-, h⟩ := ite_eq_iff.mp h
      · cases h
      · cases h

/-- An external reference of a valid path is refused for its length alone. -/
theorem isExportExternalReferenceV1_iff {K : Crates} {B : Browser} (hK : Standards K B) {path raw : Text}
    {reference : ExternalReferenceV1} (hpath : validateCanonicalPath K path = true)
    (h : resolveReference K path raw = .ok (.external reference)) :
    isExportExternalReferenceV1 B reference.toJson = true ↔
      reference.sanitizedUrl.length ≤ 4096 ∧ reference.origin.length ≤ 512 := by
  obtain ⟨hidentified, hsource⟩ := resolveReference_identified hK h
  rw [isExportExternalReferenceV1_toJson, isBoundedString_iff, isBoundedString_iff, hsource]
  constructor
  · rintro ⟨-, ⟨-, -, hurl⟩, ⟨-, -, horigin⟩, -⟩
    exact ⟨hurl, horigin⟩
  · rintro ⟨hurl, horigin⟩
    exact ⟨isContractRelativePath_of_valid hK hpath,
      ⟨hidentified.url.1, List.length_pos_iff.mpr hidentified.url.2, hurl⟩,
      ⟨hidentified.origin.1, List.length_pos_iff.mpr hidentified.origin.2, horigin⟩, hidentified.identity⟩

/-! ## Notices -/

theorem isExportNoticeV1_toJson (notice : ExportNotice) :
    isExportNoticeV1 notice.toJson = true ↔
      isBoundedString 1 128 (.str notice.code) = true ∧ isBoundedString 1 2048 (.str notice.message) = true := by
  have hkeys := hasExactKeys_self [("code".toList, .str notice.code), ("message".toList, .str notice.message)]
    ["code", "message"] rfl
  have hread : isExportNoticeV1 notice.toJson =
      (true && isBoundedString 1 128 (.str notice.code) && isBoundedString 1 2048 (.str notice.message)) := by
    rw [← hkeys]
    rfl
  rw [hread, Bool.true_and, Bool.and_eq_true]

/-- A message that begins with a count. -/
theorem counted_bounded {count : ℕ} (hcount : count ≤ 4096) {text : Text} (hnul : '\x00' ∉ text) (hempty : text ≠ [])
    (hlength : text.length ≤ 2044) : isBoundedString 1 2048 (.str (Nat.toDigits 10 count ++ text)) = true := by
  have hdigits : (Nat.toDigits 10 count).length ≤ 4 :=
    (Nat.length_toDigits_le_iff (by omega) (by omega)).mpr (by omega)
  have hpos := List.length_pos_iff.mpr hempty
  rw [isBoundedString_iff, List.mem_append, List.length_append]
  refine ⟨?_, by omega, by omega⟩
  rintro (h | h)
  · have := Nat.isDigit_of_mem_toDigits (by omega) (by omega) h
    cases this
  · exact hnul h

theorem forall_mem_ite {α : Type} {p : Prop} [Decidable p] {P : α → Prop} {xs : List α} (h : ∀ x ∈ xs, P x) :
    (∀ x ∈ if p then [] else xs, P x) ∧ ∀ x ∈ if p then xs else [], P x := by
  constructor
  · split
    · exact fun x hx => absurd hx List.not_mem_nil
    · exact h
  · split
    · exact h
    · exact fun x hx => absurd hx List.not_mem_nil

theorem exportWarnings_accepted {dynamicSources incompleteSources : List Text}
    {externalReferences : List ExternalReferenceV1} (hdynamic : dynamicSources.length ≤ 4096)
    (hincomplete : incompleteSources.length ≤ 4096) (hexternal : externalReferences.length ≤ 4096) :
    ∀ notice ∈ exportWarnings dynamicSources incompleteSources externalReferences,
      isExportNoticeV1 notice.toJson = true := by
  simp only [exportWarnings, List.forall_mem_append]
  refine ⟨⟨⟨(forall_mem_ite ?_).1, (forall_mem_ite ?_).1⟩, (forall_mem_ite ?_).2⟩, (forall_mem_ite ?_).1⟩
  all_goals
    rw [List.forall_mem_singleton, isExportNoticeV1_toJson]
  · exact ⟨rfl, counted_bounded hdynamic (by decide) (by decide) (by decide)⟩
  · exact ⟨rfl, counted_bounded hexternal (by decide) (by decide) (by decide)⟩
  · exact ⟨rfl, rfl⟩
  · exact ⟨rfl, counted_bounded hincomplete (by decide) (by decide) (by decide)⟩

theorem exportWarnings_length (dynamicSources incompleteSources : List Text)
    (externalReferences : List ExternalReferenceV1) :
    (exportWarnings dynamicSources incompleteSources externalReferences).length ≤ 4 := by
  have hite : ∀ (p : Prop) [Decidable p] (notice : ExportNotice),
      (if p then [] else [notice]).length ≤ 1 ∧ (if p then [notice] else []).length ≤ 1 := by
    intro p _ notice
    split
    · exact ⟨Nat.zero_le 1, le_rfl⟩
    · exact ⟨le_rfl, Nat.zero_le 1⟩
  simp only [exportWarnings, List.length_append]
  exact Nat.add_le_add (Nat.add_le_add (Nat.add_le_add (hite _ _).1 (hite _ _).1) (hite _ _).2) (hite _ _).1

set_option maxRecDepth 4096 in
theorem exportLimitations_accepted : ∀ notice ∈ exportLimitations, isExportNoticeV1 notice.toJson = true := by
  intro notice hnotice
  rw [isExportNoticeV1_toJson]
  rcases List.mem_cons.mp hnotice with rfl | hnotice
  · exact ⟨rfl, rfl⟩
  · rw [List.mem_singleton.mp hnotice]
    exact ⟨rfl, rfl⟩

/-! ## The guard on a report -/

/-- What the guard asks of a report. -/
structure Accepted (B : Browser) (report : ExportValidationReportV1) : Prop where
  references : report.externalReferences.length ≤ 4096 ∧
    ∀ reference ∈ report.externalReferences, isExportExternalReferenceV1 B reference.toJson = true
  origins : report.externalOrigins.length ≤ 4096 ∧
    (∀ origin ∈ report.externalOrigins, isBoundedString 1 512 (.str origin) = true) ∧ report.externalOrigins.Nodup
  sources : report.dynamicReferenceSources.length ≤ 4096 ∧
    (∀ path ∈ report.dynamicReferenceSources, isContractRelativePath B (.str path) = true) ∧
    report.dynamicReferenceSources.Nodup
  warnings : report.warnings.length ≤ 256 ∧ ∀ notice ∈ report.warnings, isExportNoticeV1 notice.toJson = true
  limitations : 1 ≤ report.limitations.length ∧ report.limitations.length ≤ 256 ∧
    ∀ notice ∈ report.limitations, isExportNoticeV1 notice.toJson = true
  profile : report.profile = .offlineSelfContained ↔ report.externalReferences = []

theorem isBoundedExactArray_map {α : Type} {f : α → Json} {guard : Json → Bool} {minimumLength maximumLength : ℕ}
    {items : List α} :
    isBoundedExactArray minimumLength maximumLength guard (.arr (items.map f)) = true ↔
      minimumLength ≤ items.length ∧ items.length ≤ maximumLength ∧ ∀ item ∈ items, guard (f item) = true := by
  simp only [isBoundedExactArray, List.length_map, Bool.and_eq_true, decide_eq_true_eq, List.all_eq_true,
    List.forall_mem_map, and_assoc]

theorem allDistinct_texts {values : List Text} : allDistinct (texts values) = true ↔ values.Nodup := by
  have hstrings : strings (texts values) = values := by
    simp only [strings, texts, List.filterMap_map]
    exact List.filterMap_some
  rw [allDistinct, hstrings, beq_iff_eq, texts, arrayLength, List.length_map]
  constructor
  · intro h
    rw [← List.dedup_eq_self]
    exact (List.dedup_sublist values).eq_of_length h
  · intro h
    rw [h.dedup]

theorem isExportValidationReportV1_toJson (B : Browser) (report : ExportValidationReportV1) :
    isExportValidationReportV1 B report.toJson = true ↔ Accepted B report := by
  have hkeys := hasExactKeys_self [
    ("profile".toList, report.profile.toJson), ("localReferenceCount".toList, .num report.localReferenceCount),
    ("externalReferences".toList, .arr (report.externalReferences.map (·.toJson))),
    ("externalOrigins".toList, texts report.externalOrigins),
    ("dynamicReferenceSources".toList, texts report.dynamicReferenceSources),
    ("warnings".toList, .arr (report.warnings.map (·.toJson))),
    ("limitations".toList, .arr (report.limitations.map (·.toJson)))]
    ["profile", "localReferenceCount", "externalReferences", "externalOrigins", "dynamicReferenceSources",
      "warnings", "limitations"] rfl
  have hread : isExportValidationReportV1 B report.toJson =
      (true && (isText "offline_self_contained" report.profile.toJson ||
          isText "standalone_static" report.profile.toJson) && true &&
        isBoundedExactArray 0 4096 (isExportExternalReferenceV1 B)
          (.arr (report.externalReferences.map (·.toJson))) &&
        isBoundedExactArray 0 4096 (isBoundedString 1 512) (texts report.externalOrigins) &&
        allDistinct (texts report.externalOrigins) &&
        isBoundedExactArray 0 4096 (isContractRelativePath B) (texts report.dynamicReferenceSources) &&
        allDistinct (texts report.dynamicReferenceSources) &&
        isBoundedExactArray 0 256 isExportNoticeV1 (.arr (report.warnings.map (·.toJson))) &&
        isBoundedExactArray 1 256 isExportNoticeV1 (.arr (report.limitations.map (·.toJson))) &&
        (!isText "offline_self_contained" report.profile.toJson ||
          arrayLength (.arr (report.externalReferences.map (·.toJson))) == 0) &&
        (!isText "standalone_static" report.profile.toJson ||
          0 < arrayLength (.arr (report.externalReferences.map (·.toJson))))) := by
    rw [← hkeys]
    rfl
  have hknown : (isText "offline_self_contained" report.profile.toJson ||
      isText "standalone_static" report.profile.toJson) = true := by
    cases report.profile <;> rfl
  have hprofile : ((!isText "offline_self_contained" report.profile.toJson ||
        report.externalReferences.length == 0) = true ∧
      (!isText "standalone_static" report.profile.toJson || decide (0 < report.externalReferences.length)) = true) ↔
      (report.profile = .offlineSelfContained ↔ report.externalReferences = []) := by
    rw [← List.length_eq_zero_iff]
    cases report.profile with
    | offlineSelfContained => simp [StaticHostingProfile.toJson, isText]
    | standaloneStatic => simp [StaticHostingProfile.toJson, isText, Nat.pos_iff_ne_zero]
  rw [hread, hknown]
  simp only [Bool.true_and, Bool.and_eq_true, allDistinct_texts]
  simp only [texts, isBoundedExactArray_map, arrayLength, List.length_map, Nat.zero_le, true_and]
  constructor
  · rintro ⟨⟨⟨⟨⟨⟨⟨⟨hreferences, horigins⟩, hdistinct⟩, hsources⟩, hsourcesDistinct⟩, hwarnings⟩, hlimitations⟩, hoffline⟩,
      honline⟩
    exact ⟨hreferences, ⟨horigins.1, horigins.2, hdistinct⟩, ⟨hsources.1, hsources.2, hsourcesDistinct⟩, hwarnings,
      hlimitations, hprofile.mp ⟨hoffline, honline⟩⟩
  · intro h
    obtain ⟨hoffline, honline⟩ := hprofile.mpr h.profile
    exact ⟨⟨⟨⟨⟨⟨⟨⟨h.references, h.origins.1, h.origins.2.1⟩, h.origins.2.2⟩, h.sources.1, h.sources.2.1⟩, h.sources.2.2⟩,
      h.warnings⟩, h.limitations⟩, hoffline⟩, honline⟩

/-! ## The analysis of a site -/

/-- What the scan of one file finds. -/
def scanOf (file : Text × Bytes) : ReferenceScan := (scanReferences file.1 file.2).toOption.getD .none

def resolutionOf (K : Crates) (path raw : Text) : Option ReferenceResolution := (resolveReference K path raw).toOption

/-- The external reference that a reference of the page `path` is. -/
def externalOf (K : Crates) (path raw : Text) : Option ExternalReferenceV1 :=
  match resolutionOf K path raw with
  | some (.external reference) => some reference
  | _ => none

/-- The external references of one file. -/
def externalsOf (K : Crates) (file : Text × Bytes) : List ExternalReferenceV1 :=
  (scanOf file).references.filterMap (externalOf K file.1)

/-- The external references of a site. -/
def externals (K : Crates) (files : Files) : List ExternalReferenceV1 := files.toList.flatMap (externalsOf K)

/-- A file that can build references at run time, or whose scan may have missed some. -/
def dynamicFile (K : Crates) (file : Text × Bytes) : Bool :=
  (scanOf file).dynamicCapable || (scanOf file).analysisIncomplete ||
    (scanOf file).references.any fun raw => resolutionOf K file.1 raw == some .runtimeOnly

/-- What a turn of `analyze_references` adds to the analysis. -/
structure Adds (a b : Analysis) (external : List ExternalReferenceV1) (dynamic incomplete : List Text) : Prop where
  references : b.externalReferences = a.externalReferences ++ external
  origins : b.externalOrigins = a.externalOrigins ++ external.map (·.origin)
  dynamic : b.dynamicReferenceSources = a.dynamicReferenceSources ++ dynamic
  incomplete : b.incompleteReferenceSources = a.incompleteReferenceSources ++ incomplete

theorem analyzeReference_adds {K : Crates} {files : Files} {path raw : Text} {s t : Analysis}
    (h : analyzeReference K files path s raw = .ok t) :
    Adds s t (externalOf K path raw).toList
      (if resolutionOf K path raw == some .runtimeOnly then [path] else []) [] := by
  unfold analyzeReference at h
  rw [bind_ok] at h
  obtain ⟨resolution, hresolution, h⟩ := h
  have hof : resolutionOf K path raw = some resolution := by rw [resolutionOf, hresolution]; rfl
  unfold externalOf
  rw [hof]
  cases resolution with
  | ignored =>
    obtain rfl := pure_ok.mp h
    exact ⟨(List.append_nil _).symm, (List.append_nil _).symm, (List.append_nil _).symm, (List.append_nil _).symm⟩
  | runtimeOnly =>
    obtain rfl := pure_ok.mp h
    exact ⟨(List.append_nil _).symm, (List.append_nil _).symm, rfl, (List.append_nil _).symm⟩
  | «local» resolved =>
    simp only at h
    split at h
    · cases h
    split at h
    · cases h
    obtain rfl := pure_ok.mp h
    exact ⟨(List.append_nil _).symm, (List.append_nil _).symm, (List.append_nil _).symm, (List.append_nil _).symm⟩
  | external reference =>
    obtain rfl := pure_ok.mp h
    exact ⟨rfl, rfl, (List.append_nil _).symm, (List.append_nil _).symm⟩

/-- The dynamic sources that the references of a file add. -/
def runtimeSources (K : Crates) (file : Text × Bytes) : List Text :=
  (scanOf file).references.flatMap fun raw =>
    if resolutionOf K file.1 raw == some .runtimeOnly then [file.1] else []

theorem analyzeFile_adds {K : Crates} {files : Files} {file : Text × Bytes} {s t : Analysis}
    (h : analyzeFile K files s file = .ok t) :
    Adds s t (externalsOf K file)
      ((if (scanOf file).dynamicCapable || (scanOf file).analysisIncomplete then [file.1] else []) ++
        runtimeSources K file)
      (if (scanOf file).analysisIncomplete then [file.1] else []) := by
  obtain ⟨path, bytes⟩ := file
  unfold analyzeFile at h
  rw [bind_ok] at h
  obtain ⟨scan, hscan, h⟩ := h
  have hof : scanOf (path, bytes) = scan := by rw [scanOf, hscan]; rfl
  have hturn : ∀ s, ∀ raw ∈ scan.references, ∀ t, analyzeReference K files path s raw = .ok t →
      Adds s t (externalOf K path raw).toList
        (if resolutionOf K path raw == some .runtimeOnly then [path] else []) [] :=
    fun s raw _ t hstep => analyzeReference_adds hstep
  rw [externalsOf, runtimeSources, hof, List.filterMap_eq_flatMap_toList]
  have hreferences := foldlM_append (fun s raw hraw t hstep => (hturn s raw hraw t hstep).references) h
  have horigins := foldlM_append (fun s raw hraw t hstep => (hturn s raw hraw t hstep).origins) h
  have hdynamic := foldlM_append (fun s raw hraw t hstep => (hturn s raw hraw t hstep).dynamic) h
  have hincomplete := foldlM_append (fun s raw hraw t hstep => (hturn s raw hraw t hstep).incomplete) h
  refine ⟨hreferences, ?_, ?_, ?_⟩
  · rw [List.map_flatMap]
    exact horigins
  · rw [hdynamic, Analysis.noteScan, List.append_assoc]
  · rw [hincomplete, List.flatMap_eq_nil_iff.mpr fun _ _ => rfl, List.append_nil, Analysis.noteScan]

theorem mem_runtimeSources {K : Crates} {file : Text × Bytes} {path : Text} :
    path ∈ (if (scanOf file).dynamicCapable || (scanOf file).analysisIncomplete then [file.1] else []) ++
        runtimeSources K file ↔ dynamicFile K file = true ∧ file.1 = path := by
  have hruntime : path ∈ runtimeSources K file ↔
      ((scanOf file).references.any fun raw => resolutionOf K file.1 raw == some .runtimeOnly) = true ∧
        file.1 = path := by
    rw [runtimeSources, List.mem_flatMap, List.any_eq_true]
    constructor
    · rintro ⟨raw, hraw, hpath⟩
      split at hpath
      · rename_i hruntime
        exact ⟨⟨raw, hraw, hruntime⟩, (List.mem_singleton.mp hpath).symm⟩
      · cases hpath
    · rintro ⟨⟨raw, hraw, hruntime⟩, rfl⟩
      exact ⟨raw, hraw, by rw [if_pos hruntime]; exact List.mem_cons_self⟩
  rw [List.mem_append, hruntime, dynamicFile]
  cases (scanOf file).dynamicCapable || (scanOf file).analysisIncomplete with
  | false => simp only [Bool.false_eq_true, ↓reduceIte, List.not_mem_nil, false_or, Bool.false_or]
  | true =>
    simp only [↓reduceIte, List.mem_singleton, Bool.true_or, true_and]
    constructor
    · rintro (rfl | ⟨-, rfl⟩) <;> rfl
    · rintro rfl
      exact .inl rfl

/-- What the analysis of a site has accumulated. -/
theorem analysis_adds {K : Crates} {files : Files} {analysis : Analysis}
    (h : files.toList.foldlM (analyzeFile K files) .start = .ok analysis) :
    analysis.externalReferences = externals K files ∧
    analysis.externalOrigins = (externals K files).map (·.origin) ∧
    (∀ path, path ∈ analysis.dynamicReferenceSources ↔
      path ∈ (files.toList.filter (dynamicFile K)).map Prod.fst) ∧
    ∀ path, path ∈ analysis.incompleteReferenceSources ↔
      path ∈ (files.toList.filter fun file => (scanOf file).analysisIncomplete).map Prod.fst := by
  have hturn : ∀ s, ∀ file ∈ files.toList, ∀ t, analyzeFile K files s file = .ok t → _ :=
    fun s file _ t hstep => analyzeFile_adds hstep
  have hreferences := foldlM_append (fun s file hfile t hstep => (hturn s file hfile t hstep).references) h
  have horigins := foldlM_append (fun s file hfile t hstep => (hturn s file hfile t hstep).origins) h
  have hdynamic := foldlM_append (fun s file hfile t hstep => (hturn s file hfile t hstep).dynamic) h
  have hincomplete := foldlM_append (fun s file hfile t hstep => (hturn s file hfile t hstep).incomplete) h
  refine ⟨hreferences, ?_, ?_, ?_⟩
  · rw [externals, List.map_flatMap]
    exact horigins
  · intro path
    rw [hdynamic, Analysis.start, List.nil_append, List.mem_flatMap, List.mem_map]
    constructor
    · rintro ⟨file, hfile, hmem⟩
      obtain ⟨hdynamicFile, rfl⟩ := mem_runtimeSources.mp hmem
      exact ⟨file, List.mem_filter.mpr ⟨hfile, hdynamicFile⟩, rfl⟩
    · rintro ⟨file, hfile, rfl⟩
      obtain ⟨hfile, hdynamicFile⟩ := List.mem_filter.mp hfile
      exact ⟨file, hfile, mem_runtimeSources.mpr ⟨hdynamicFile, rfl⟩⟩
  · intro path
    rw [hincomplete, Analysis.start, List.nil_append, List.mem_flatMap, List.mem_map]
    constructor
    · rintro ⟨file, hfile, hmem⟩
      split at hmem
      · rename_i hscan
        exact ⟨file, List.mem_filter.mpr ⟨hfile, hscan⟩, (List.mem_singleton.mp hmem).symm⟩
      · cases hmem
    · rintro ⟨file, hfile, rfl⟩
      obtain ⟨hfile, hscan⟩ := List.mem_filter.mp hfile
      exact ⟨file, hfile, by rw [if_pos hscan]; exact List.mem_cons_self⟩

/-! ## The receipt at the client -/

/-- When the client can read the report on a site: a file that was not fully scanned stands beside an external
reference, and the site keeps the bounds of the guard. -/
structure ClientReadable (K : Crates) (files : Files) : Prop where
  classified : (∃ file ∈ files.toList, (scanOf file).analysisIncomplete = true) → externals K files ≠ []
  references : (externals K files).dedup.length ≤ 4096
  lengths : ∀ reference ∈ externals K files, reference.sanitizedUrl.length ≤ 4096 ∧ reference.origin.length ≤ 512
  sources : (files.toList.filter (dynamicFile K)).length ≤ 4096

/-- The paths that two lists share, each once. -/
theorem dedup_length_of_mem_iff {xs ys : List Text} (hys : ys.Nodup) (h : ∀ x, x ∈ xs ↔ x ∈ ys) :
    xs.dedup.length = ys.length :=
  ((List.perm_ext_iff_of_nodup xs.nodup_dedup hys).mpr fun x => List.mem_dedup.trans (h x)).length_eq

theorem dedup_map_length_le {α β : Type} [DecidableEq α] [DecidableEq β] (f : α → β) (xs : List α) :
    (xs.map f).dedup.length ≤ xs.dedup.length := by
  have himage : (xs.map f).toFinset = xs.toFinset.image f := by
    ext y
    simp only [List.mem_toFinset, List.mem_map, Finset.mem_image]
  rw [← List.card_toFinset, ← List.card_toFinset, himage]
  exact Finset.card_image_le

theorem mem_externals {K : Crates} {files : Files} {reference : ExternalReferenceV1}
    (h : reference ∈ externals K files) :
    ∃ file ∈ files.toList, ∃ raw, resolveReference K file.1 raw = .ok (.external reference) := by
  rw [externals, List.mem_flatMap] at h
  obtain ⟨file, hfile, hmem⟩ := h
  rw [externalsOf, List.mem_filterMap] at hmem
  obtain ⟨raw, -, hraw⟩ := hmem
  refine ⟨file, hfile, raw, ?_⟩
  unfold externalOf resolutionOf at hraw
  cases hresolve : resolveReference K file.1 raw with
  | error error =>
    rw [hresolve] at hraw
    cases hraw
  | ok resolution =>
    rw [hresolve] at hraw
    cases resolution with
    | external found =>
      cases hraw
      rfl
    | _ => cases hraw

/-- The client reads the report on a site of valid paths under one condition on its files. -/
theorem report_accepted_iff {K : Crates} {B : Browser} (hK : Standards K B) {files : Files} {analysis : Analysis}
    (hpaths : ∀ file ∈ files.toList, validateCanonicalPath K file.1 = true)
    (h : files.toList.foldlM (analyzeFile K files) .start = .ok analysis) :
    Accepted B analysis.report ↔ ClientReadable K files := by
  obtain ⟨hreferences, horigins, hdynamic, hincomplete⟩ := analysis_adds h
  have hkeys : (files.toList.map Prod.fst).Nodup := by
    rw [Std.ExtTreeMap.map_fst_toList_eq_keys]
    exact Std.ExtTreeMap.nodup_keys
  have hsources : analysis.report.dynamicReferenceSources.length = (files.toList.filter (dynamicFile K)).length := by
    rw [Analysis.report, List.length_insertionSort,
      dedup_length_of_mem_iff (hkeys.sublist (List.filter_sublist.map _)) hdynamic, List.length_map]
  have hexternals : ∀ reference, reference ∈ analysis.report.externalReferences ↔ reference ∈ externals K files := by
    intro reference
    rw [Analysis.report, List.mem_insertionSort, List.mem_dedup, hreferences]
  have hcount : analysis.report.externalReferences.length = (externals K files).dedup.length := by
    rw [Analysis.report, List.length_insertionSort, hreferences]
  have hread : ∀ reference ∈ externals K files, (isExportExternalReferenceV1 B reference.toJson = true ↔
      reference.sanitizedUrl.length ≤ 4096 ∧ reference.origin.length ≤ 512) := by
    intro reference hmem
    obtain ⟨file, hfile, raw, hraw⟩ := mem_externals hmem
    exact isExportExternalReferenceV1_iff hK (hpaths file hfile) hraw
  have hempty : analysis.report.externalReferences = [] ↔ externals K files = [] := by
    rw [List.eq_nil_iff_forall_not_mem, List.eq_nil_iff_forall_not_mem]
    exact forall_congr' fun reference => not_congr (hexternals reference)
  have hincompleteSources : ∀ path, path ∈ analysis.incompleteReferenceSources.dedup.insertionSort (textLe · ·) ↔
      path ∈ (files.toList.filter fun file => (scanOf file).analysisIncomplete).map Prod.fst := by
    intro path
    rw [List.mem_insertionSort, List.mem_dedup, hincomplete]
  have hcomplete : analysis.incompleteReferenceSources.dedup.insertionSort (textLe · ·) = [] ↔
      ¬∃ file ∈ files.toList, (scanOf file).analysisIncomplete = true := by
    rw [List.eq_nil_iff_forall_not_mem, ← not_exists, not_congr]
    constructor
    · rintro ⟨path, hpath⟩
      obtain ⟨file, hfile, -⟩ := List.mem_map.mp ((hincompleteSources path).mp hpath)
      exact ⟨file, List.mem_filter.mp hfile⟩
    · rintro ⟨file, hfile⟩
      exact ⟨file.1, (hincompleteSources file.1).mpr (List.mem_map_of_mem (List.mem_filter.mpr hfile))⟩
  have hoffline : analysis.report.profile = .offlineSelfContained ↔
      externals K files = [] ∧ ¬∃ file ∈ files.toList, (scanOf file).analysisIncomplete = true := by
    rw [← hempty, ← hcomplete, ← List.isEmpty_iff, ← List.isEmpty_iff, ← Bool.and_eq_true]
    unfold Analysis.report
    simp only
    split
    · rename_i h
      exact iff_of_true rfl h
    · rename_i h
      exact iff_of_false StaticHostingProfile.noConfusion h
  have hprofile : (analysis.report.profile = .offlineSelfContained ↔ analysis.report.externalReferences = []) ↔
      ((∃ file ∈ files.toList, (scanOf file).analysisIncomplete = true) → externals K files ≠ []) := by
    rw [hoffline, hempty, and_iff_left_iff_imp, imp_not_comm]
  constructor
  · intro haccepted
    refine ⟨hprofile.mp haccepted.profile, hcount ▸ haccepted.references.1, ?_, hsources ▸ haccepted.sources.1⟩
    intro reference hmem
    exact (hread reference hmem).mp (haccepted.references.2 reference ((hexternals reference).mpr hmem))
  · intro hreadable
    have hincompleteLength : (analysis.incompleteReferenceSources.dedup.insertionSort (textLe · ·)).length ≤ 4096 := by
      rw [List.length_insertionSort,
        dedup_length_of_mem_iff (hkeys.sublist (List.filter_sublist.map _)) hincomplete, List.length_map]
      refine le_trans (List.Sublist.length_le ?_) hreadable.sources
      refine List.monotone_filter_right _ fun file hscan => ?_
      rw [dynamicFile, hscan, Bool.or_true, Bool.true_or]
    have hwarnings : analysis.report.warnings = exportWarnings analysis.report.dynamicReferenceSources
        (analysis.incompleteReferenceSources.dedup.insertionSort (textLe · ·)) analysis.report.externalReferences := rfl
    have hlimitations : analysis.report.limitations.length = 2 := rfl
    have hdynamicLength : analysis.report.dynamicReferenceSources.length ≤ 4096 := hsources ▸ hreadable.sources
    have hexternalLength : analysis.report.externalReferences.length ≤ 4096 := hcount ▸ hreadable.references
    refine ⟨⟨hexternalLength, ?_⟩, ⟨?_, ?_, ?_⟩, ⟨hdynamicLength, ?_, ?_⟩, ⟨?_, ?_⟩,
      ⟨Nat.le_succ 1, by rw [hlimitations]; decide, exportLimitations_accepted⟩, hprofile.mpr hreadable.classified⟩
    · intro reference hmem
      have hmem := (hexternals reference).mp hmem
      exact (hread reference hmem).mpr (hreadable.lengths reference hmem)
    · rw [Analysis.report, List.length_insertionSort, horigins]
      exact (dedup_map_length_le _ _).trans hreadable.references
    · intro origin hmem
      rw [Analysis.report, List.mem_insertionSort, List.mem_dedup, horigins, List.mem_map] at hmem
      obtain ⟨reference, hmem, rfl⟩ := hmem
      have haccepted := (hread reference hmem).mpr (hreadable.lengths reference hmem)
      exact ((isExportExternalReferenceV1_toJson B reference).mp haccepted).2.2.1
    · exact ((List.perm_insertionSort _ _).nodup_iff).mpr (List.nodup_dedup _)
    · intro path hmem
      rw [Analysis.report, List.mem_insertionSort, List.mem_dedup, hdynamic, List.mem_map] at hmem
      obtain ⟨file, hfile, rfl⟩ := hmem
      exact isContractRelativePath_of_valid hK (hpaths file (List.mem_filter.mp hfile).1)
    · exact ((List.perm_insertionSort _ _).nodup_iff).mpr (List.nodup_dedup _)
    · rw [hwarnings]
      exact (exportWarnings_length _ _ _).trans (by omega)
    · rw [hwarnings]
      exact exportWarnings_accepted hdynamicLength hincompleteLength hexternalLength

theorem generateStaticExport_parts {K : Crates} {input : StaticExportInput} {artifact : StaticExportArtifact}
    (h : generateStaticExport K input = .ok artifact) :
    (∀ file ∈ input.files.toList, validateCanonicalPath K file.1 = true) ∧
    ∃ analysis, input.files.toList.foldlM (analyzeFile K input.files) .start = .ok analysis ∧
      artifact.receipt.validation = analysis.report := by
  unfold generateStaticExport at h
  rw [bind_ok] at h
  obtain ⟨-, -, h⟩ := h
  rw [bind_ok] at h
  obtain ⟨entries, hentries, h⟩ := h
  refine ⟨canonicalFileEntriesFrom_valid hentries, ?_⟩
  simp only at h
  split at h
  · cases h
  rw [bind_ok] at h
  obtain ⟨validation, hvalidation, h⟩ := h
  unfold analyzeReferences at hvalidation
  rw [bind_ok] at hvalidation
  obtain ⟨analysis, hanalysis, hreport⟩ := hvalidation
  obtain rfl := pure_ok.mp hreport
  refine ⟨analysis, hanalysis, ?_⟩
  split at h
  · cases h
    rfl
  · cases h

/-- The client accepts the report of an export if and only if every file that was not fully scanned stands beside an
external reference, and the site keeps the bounds of the guard. -/
theorem export_accepted_iff (K : Crates) (B : Browser) (input : StaticExportInput) (artifact : StaticExportArtifact)
    (hK : Standards K B) (h : generateStaticExport K input = .ok artifact) :
    isExportValidationReportV1 B artifact.receipt.validation.toJson = true ↔ ClientReadable K input.files := by
  obtain ⟨hpaths, analysis, hanalysis, hreport⟩ := generateStaticExport_parts h
  rw [hreport, isExportValidationReportV1_toJson]
  exact report_accepted_iff hK hpaths hanalysis

def exampleUrl : Url where
  scheme := "https".toList
  hostStr := some "a.test".toList
  username := []
  password := none
  query := none
  fragment := none
  origin := "https://a.test".toList
  cleared := some "https://a.test/".toList

/-- Crates that parse one URL. -/
def exampleCrates : Crates :=
  { sampleCrates with
    urlParse text := if text = "https://a.test/".toList then some exampleUrl else none }

def browserOf (K : Crates) : Browser where
  newUrl text := (K.urlParse text).map browserUrl
  normalizeNfc := K.nfc

theorem exampleCrates_standards : Standards exampleCrates (browserOf exampleCrates) where
  normalizeNfc _ := rfl
  newUrl _ := rfl
  scheme := by
    intro rest url h
    obtain ⟨-, h⟩ := Option.ite_none_right_eq_some.mp h
    cases h
    rfl
  origin := by
    intro text url h _
    obtain ⟨-, h⟩ := Option.ite_none_right_eq_some.mp h
    cases h
    exact ⟨⟨"a.test".toList, rfl⟩, by decide⟩
  cleared := by
    intro text url serialized h _ hcleared
    obtain ⟨-, h⟩ := Option.ite_none_right_eq_some.mp h
    cases h
    cases hcleared
    exact ⟨⟨"a.test/".toList, rfl⟩, by decide, rfl⟩

def pageRequest (page : String) : StaticExportInput where
  sourceRevisionId := "rev_0".toList
  sourceManifestSha256 := List.replicate 64 'a'
  generatedAtUtc := "2026-07-19T12:00:00Z".toList
  entryPoint := "index.html".toList
  files := (∅ : Files).insert "index.html".toList (encode page.toList)

set_option maxRecDepth 100000 in
theorem export_accepted_external : ∃ artifact,
    generateStaticExport exampleCrates (pageRequest "<style>/**/</style><a href='https://a.test/'>a</a>") =
      .ok artifact ∧
    isExportValidationReportV1 (browserOf exampleCrates) artifact.receipt.validation.toJson = true := by
  have hrun : (generateStaticExport exampleCrates
      (pageRequest "<style>/**/</style><a href='https://a.test/'>a</a>")).toOption.any (fun _ => true) = true := by
    decide
  obtain ⟨artifact, hok, -⟩ := exists_of_any hrun
  refine ⟨artifact, hok, (export_accepted_iff _ _ _ _ exampleCrates_standards hok).mpr ?_⟩
  exact ⟨fun _ => by decide, by decide, by decide, by decide⟩

set_option maxRecDepth 100000 in
/-- A comment in a style sheet. -/
theorem export_not_accepted : ∃ artifact,
    Standards exampleCrates (browserOf exampleCrates) ∧
    generateStaticExport exampleCrates (pageRequest "<style>/**/</style>") = .ok artifact ∧
    isExportValidationReportV1 (browserOf exampleCrates) artifact.receipt.validation.toJson = false := by
  have hrun : (generateStaticExport exampleCrates (pageRequest "<style>/**/</style>")).toOption.any (fun artifact =>
      !isExportValidationReportV1 (browserOf exampleCrates) artifact.receipt.validation.toJson) = true := by
    decide
  obtain ⟨artifact, hok, hrefused⟩ := exists_of_any hrun
  exact ⟨artifact, exampleCrates_standards, hok, by simpa using hrefused⟩

end LpStudio.Contracts
