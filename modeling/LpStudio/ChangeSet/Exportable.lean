import LpStudio.ChangeSet.Lemmas.Acceptance
import LpStudio.StaticExport.Export

/-! # What can be exported of what can be adopted
The adoption gate and the export gate check the same paths, but not the same references. A site that was
accepted can be exported if and only if the export gate accepts each of its references.
-/
namespace LpStudio.ChangeSet
open Str Paths Outcome

/-! ## Paths -/

theorem validatePath_canonical {K : Crates} {path : Text} (h : validatePath K path = .ok ()) :
    validateCanonicalPath K path = true ∧ Paths.reservedPath K path = false := by
  simp only [validatePath] at h
  split at h
  · cases h
  rename_i hshape
  split at h
  · cases h
  rename_i hdepth
  split at h
  · cases h
  rename_i hsegments
  split at h
  · cases h
  rename_i hreserved
  refine ⟨?_, Bool.eq_false_of_not_eq_true hreserved⟩
  simp only [Bool.or_eq_true, not_or, Bool.not_eq_true] at hshape hsegments
  obtain ⟨⟨⟨⟨⟨hempty, hlength⟩, hroot⟩, hslash⟩, hnfc⟩, hcontrol⟩ := hshape
  have hchar : ∀ c ∈ path, isControl c = false := fun c hc =>
    Bool.eq_false_of_not_eq_true (List.any_eq_false.mp hcontrol c hc)
  have hnul : path.contains '\x00' = false := by
    refine Bool.eq_false_of_not_eq_true fun hc => ?_
    have := hchar '\x00' (by simpa using hc)
    revert this; decide
  simp only [validateCanonicalPath, hempty, hlength, hnul, hslash, hroot, hnfc, Bool.or_false, Bool.not_false,
    Bool.true_and, Bool.and_eq_true, decide_eq_true_eq, List.all_eq_true, Bool.not_eq_true',
    Bool.or_eq_false_iff]
  refine ⟨by omega, fun segment hs => ⟨?_, ?_⟩⟩
  · exact Bool.eq_false_of_not_eq_true (List.any_eq_false.mp hsegments segment hs)
  · exact List.any_eq_false.mpr fun c hc => by simp [hchar c (mem_of_mem_segments hs hc)]

/-- Every path of the site passes the path check. -/
def PathsValid (K : Crates) (files : Files) : Prop := ∀ path ∈ files, validatePath K path = .ok ()

theorem acceptedPaths_valid {K : Crates} {paths folded : List Text}
    (h : validateAcceptedPathsFrom K folded paths = .ok ()) : ∀ path ∈ paths, validatePath K path = .ok () := by
  induction paths generalizing folded with
  | nil => exact fun path hp => absurd hp List.not_mem_nil
  | cons p ps ih =>
    simp only [validateAcceptedPathsFrom, bind_ok] at h
    obtain ⟨⟨⟩, hp, h⟩ := h
    split at h
    · cases h
    · exact List.forall_mem_cons.mpr ⟨hp, ih h⟩

/-- The path an operation writes. -/
def ChangeOperationV1.written : ChangeOperationV1 → Option Text
  | .createText path .. => some path
  | .replaceText path .. => some path
  | .rename _ target _ => some target
  | .delete .. => none

theorem validateOperation_written {K : Crates} {total total' : ℕ} {operation : ChangeOperationV1}
    (h : validateOperation K total operation = .ok total') {path : Text}
    (hpath : operation.written = some path) : validatePath K path = .ok () := by
  have hcontent : ∀ {mediaType content : Text} {n : ℕ},
      validateContent K total path mediaType content = .ok n → validatePath K path = .ok () := by
    intro mediaType content n hn
    simp only [validateContent, bind_ok] at hn
    obtain ⟨⟨⟩, hvalid, -⟩ := hn
    exact hvalid
  cases operation with
  | createText p mediaType content =>
    obtain rfl := Option.some.inj hpath
    exact hcontent h
  | replaceText p expectedSha256 mediaType content =>
    obtain rfl := Option.some.inj hpath
    simp only [validateOperation, bind_ok] at h
    obtain ⟨n, hn, -⟩ := h
    exact hcontent hn
  | rename source target expectedSha256 =>
    obtain rfl := Option.some.inj hpath
    simp only [validateOperation, bind_ok] at h
    obtain ⟨⟨⟩, -, ⟨⟩, htarget, -⟩ := h
    exact htarget
  | delete p expectedSha256 => cases hpath

theorem applyOperation_valid {K : Crates} {operation : ChangeOperationV1}
    {state state' : Files × List AppliedFileChange}
    (hwritten : ∀ path, operation.written = some path → validatePath K path = .ok ())
    (hstate : PathsValid K state.1) (h : applyOperation K state operation = .ok state') :
    PathsValid K state'.1 := by
  have hinsert : ∀ {files : Files} {path : Text} {bytes : Bytes}, PathsValid K files →
      operation.written = some path → PathsValid K (files.insert path bytes) := by
    intro files path bytes hfiles hpath p hp
    rcases Std.ExtTreeMap.mem_insert.mp hp with heq | hp
    · rw [← Std.LawfulEqCmp.eq_of_compare heq]
      exact hwritten path hpath
    · exact hfiles p hp
  have herase : ∀ path, PathsValid K (state.1.erase path) := fun path p hp =>
    hstate p (Std.ExtTreeMap.mem_of_mem_erase hp)
  cases operation with
  | createText p mediaType content =>
    simp only [applyOperation] at h
    split at h
    · cases h
    · cases h; exact hinsert hstate rfl
  | replaceText p expectedSha256 mediaType content =>
    simp only [applyOperation] at h
    split at h
    · cases h
    · cases h; exact hinsert hstate rfl
  | rename source target expectedSha256 =>
    simp only [applyOperation] at h
    split at h
    · cases h
    · split at h
      · cases h
      · cases h; exact hinsert (herase source) rfl
  | delete p expectedSha256 =>
    simp only [applyOperation] at h
    split at h
    · cases h
    · cases h; exact herase p

theorem Passes.paths_valid {G : Gate} {raw base : Text} {accepted : Files} {result : AppliedChangeSet}
    (h : Passes G raw base accepted result) : PathsValid G.crates result.files := by
  have haccepted : PathsValid G.crates accepted := fun path hp =>
    acceptedPaths_valid h.paths path (Std.ExtTreeMap.mem_keys.mpr hp)
  have hoperations := h.operations
  simp only [validateOperations, bind_ok] at hoperations
  obtain ⟨total, htotal, -⟩ := hoperations
  refine foldlM_inv (P := fun state => PathsValid G.crates state.1) ?_ haccepted h.applied
  intro state operation hop state' hstate hstep
  obtain ⟨n, n', hvalid⟩ := foldlM_turn htotal operation hop
  exact applyOperation_valid (fun path hpath => validateOperation_written hvalid hpath) hstate hstep

/-- The export gate takes every path of the site. -/
theorem canonicalFileEntriesFrom_ok {K : Crates} {files : List (Text × Bytes)} (folded : List Text)
    (hvalid : ∀ file ∈ files, validatePath K file.1 = .ok ())
    (hfolded : (folded ++ (files.map fun file => foldedPath K file.1)).Nodup) :
    ∃ entries, StaticExport.canonicalFileEntriesFrom K folded files = .ok entries ∧
      entries.map (·.byteLength) = files.map fun file => file.2.length := by
  induction files generalizing folded with
  | nil => exact ⟨[], rfl, rfl⟩
  | cons file files ih =>
    obtain ⟨path, bytes⟩ := file
    obtain ⟨hcanonical, hreserved⟩ := validatePath_canonical (hvalid (path, bytes) List.mem_cons_self)
    rw [List.map_cons] at hfolded
    have hnew : K.toFoldedCase path ∉ folded := by
      intro hmem
      exact (List.nodup_append.mp hfolded).2.2 _ hmem _ List.mem_cons_self rfl
    have hrest : (K.toFoldedCase path :: folded ++ files.map fun file => foldedPath K file.1).Nodup :=
      (List.perm_middle.nodup_iff).mp hfolded
    obtain ⟨entries, hentries, hlengths⟩ :=
      ih (K.toFoldedCase path :: folded) (fun file hf => hvalid file (List.mem_cons_of_mem _ hf)) hrest
    refine ⟨⟨path, K.mimeGuess path, bytes.length, K.sha256 bytes⟩ :: entries, ?_, by simp [hlengths]⟩
    simp only [StaticExport.canonicalFileEntriesFrom, hcanonical, hreserved, hnew, hentries]
    rfl

/-! ## References -/

/-- A URL with an HTTP scheme and a host, which can be stripped of credentials, query and fragment. -/
def usableUrl (K : Crates) (value : Text) : Bool :=
  (K.urlParse value).any fun url =>
    url.scheme ∈ ["http".toList, "https".toList] && url.hostStr.isSome && url.cleared.isSome

/-- A reference that the export gate does not refuse for its form. -/
def exportable (K : Crates) (rawReference : Text) : Bool :=
  let reference := trim rawReference
  let startsWith (scheme : String) := scheme.toList.isPrefixOf (lower reference)
  reference.isEmpty || reference.head? == some '#' ||
  (!(reference.any isControl || reference.contains '\\') &&
    if startsWith "http:" || startsWith "https:" then usableUrl K reference
    else if "//".toList.isPrefixOf reference then usableUrl K ("https:".toList ++ reference)
    else startsWith "blob:" || startsWith "data:" || startsWith "mailto:" || startsWith "tel:" ||
      !StaticExport.hasExplicitScheme reference)

theorem externalReference_ok {K : Crates} (sourcePath : Text) {reference : Text} {protocolRelative : Bool} :
    (∃ r, StaticExport.externalReference K sourcePath reference protocolRelative = .ok r) ↔
      usableUrl K (if protocolRelative then "https:".toList ++ reference else reference) = true := by
  simp only [StaticExport.externalReference, usableUrl]
  cases K.urlParse (if protocolRelative then "https:".toList ++ reference else reference) with
  | none => simp
  | some url =>
    by_cases hbad : url.scheme ∉ ["http".toList, "https".toList] ∨ url.hostStr.isNone = true
    · simp only [if_pos hbad, Option.any_some]
      rcases hbad with hscheme | hhost
      · simp only [hscheme, decide_false, Bool.false_and, Bool.false_eq_true, reduceCtorEq, exists_false]
      · have hnone : url.hostStr.isSome = false := by simpa using hhost
        simp only [hnone, Bool.and_false, Bool.false_and, Bool.false_eq_true, reduceCtorEq, exists_false]
    · simp only [if_neg hbad, Option.any_some]
      obtain ⟨hscheme, hhost⟩ := not_or.mp hbad
      have hsome : url.hostStr.isSome = true := by simpa [Option.isSome_iff_ne_none] using hhost
      rw [not_not] at hscheme
      simp only [hscheme, hsome, decide_true, Bool.true_and]
      cases url.cleared with
      | none => simp only [reduceCtorEq, exists_false, Option.isSome_none, Bool.false_eq_true]
      | some cleared => simp only [Except.ok.injEq, exists_eq', Option.isSome_some]

/-- The export gate resolves the reference, and finds what it leads to. -/
def Resolves (K : Crates) (files : Files) (sourcePath rawReference : Text) : Prop :=
  ∃ r, StaticExport.resolveReference K sourcePath rawReference = .ok r ∧
    ∀ path, r = .local path → present files path = true

theorem resolves_external {K : Crates} {files : Files} {sourcePath reference : Text}
    (protocolRelative : Bool) :
    (∃ r, (StaticExport.externalReference K sourcePath reference protocolRelative).map
        StaticExport.ReferenceResolution.external = .ok r ∧
      ∀ path, r = .local path → present files path = true) ↔
    usableUrl K (if protocolRelative then "https:".toList ++ reference else reference) = true := by
  rw [← externalReference_ok sourcePath]
  constructor
  · rintro ⟨r, hr, -⟩
    obtain ⟨url, hurl, -⟩ := map_ok.mp hr
    exact ⟨url, hurl⟩
  · rintro ⟨url, hurl⟩
    exact ⟨.external url, map_ok.mpr ⟨url, hurl, rfl⟩, fun path h => by cases h⟩

/-- Of the references the adoption gate lets through, the export gate resolves the exportable ones. -/
theorem resolves_iff {K : Crates} {files : Files} {sourcePath rawReference : Text}
    (hsource : files.contains sourcePath = true)
    (hadopt : validateReference K files sourcePath rawReference = .ok ()) :
    Resolves K files sourcePath rawReference ↔ exportable K rawReference = true := by
  simp only [Resolves, StaticExport.resolveReference, exportable]
  simp only [validateReference, resolveLocalReference] at hadopt
  generalize trim rawReference = reference at hadopt ⊢
  by_cases hempty : (reference.isEmpty || reference.head? == some '#') = true
  · simp only [hempty, Bool.true_or, ↓reduceIte, iff_true]
    exact ⟨.ignored, rfl, fun path h => by cases h⟩
  replace hempty := Bool.eq_false_of_not_eq_true hempty
  by_cases hcontrol : (reference.any isControl || reference.contains '\\') = true
  · simp only [hempty, hcontrol, Bool.not_true, Bool.false_and, Bool.or_false, Bool.false_eq_true, ↓reduceIte,
      reduceCtorEq, false_and, exists_false]
  replace hcontrol := Bool.eq_false_of_not_eq_true hcontrol
  simp only [hempty, hcontrol, Bool.not_false, Bool.true_and, Bool.false_or, Bool.false_eq_true, ↓reduceIte]
  have hscheme : ∀ {c : Char}, (lower reference).head? = some c → c ≠ 'j' → c ≠ 'f' →
      ¬("javascript:".toList.isPrefixOf (lower reference) || "file:".toList.isPrefixOf (lower reference)) = true := by
    intro c hc hj hf
    rw [not_prefix_of_head (c := 'j') rfl hc hj.symm, not_prefix_of_head (c := 'f') rfl hc hf.symm]
    decide
  by_cases hhttp : ("http:".toList.isPrefixOf (lower reference) ||
      "https:".toList.isPrefixOf (lower reference)) = true
  · have hhead : (lower reference).head? = some 'h' := by
      rcases Bool.or_eq_true_iff.mp hhttp with h | h
      · exact prefix_head rfl h
      · exact prefix_head rfl h
    simp only [if_neg (hscheme hhead (by decide) (by decide)), if_pos hhttp]
    exact resolves_external false
  by_cases hrelative : "//".toList.isPrefixOf reference = true
  · have hhead : (lower reference).head? = some '/' := by
      have := prefix_head (c := '/') rfl hrelative
      rw [lower, List.head?_map, this]
      rfl
    simp only [if_neg (hscheme hhead (by decide) (by decide)), if_neg hhttp, if_pos hrelative]
    exact resolves_external true
  simp only [if_neg hhttp, if_neg hrelative]
  by_cases hblob : "blob:".toList.isPrefixOf (lower reference) = true
  · have hhead : (lower reference).head? = some 'b' := prefix_head rfl hblob
    simp only [if_neg (hscheme hhead (by decide) (by decide)), hblob, Bool.true_or, iff_true]
    exact ⟨.runtimeOnly, rfl, fun path h => by cases h⟩
  by_cases hopaque : ("data:".toList.isPrefixOf (lower reference) ||
      "mailto:".toList.isPrefixOf (lower reference) || "tel:".toList.isPrefixOf (lower reference)) = true
  · have hhead : ∃ c, (lower reference).head? = some c ∧ c ≠ 'j' ∧ c ≠ 'f' := by
      rcases Bool.or_eq_true_iff.mp hopaque with h | h
      · rcases Bool.or_eq_true_iff.mp h with h | h
        · exact ⟨'d', prefix_head rfl h, by decide, by decide⟩
        · exact ⟨'m', prefix_head rfl h, by decide, by decide⟩
      · exact ⟨'t', prefix_head rfl h, by decide, by decide⟩
    obtain ⟨c, hc, hj, hf⟩ := hhead
    have hform : ("blob:".toList.isPrefixOf (lower reference) ||
        "data:".toList.isPrefixOf (lower reference) || "mailto:".toList.isPrefixOf (lower reference) ||
        "tel:".toList.isPrefixOf (lower reference) || !StaticExport.hasExplicitScheme reference) = true := by
      simp only [Bool.or_assoc, Bool.or_eq_true] at hopaque ⊢
      tauto
    simp only [if_neg (hscheme hc hj hf), if_neg hblob, if_pos hopaque, hform, iff_true]
    exact ⟨.ignored, rfl, fun path h => by cases h⟩
  -- what is left is local for the adoption gate
  have hform : ("blob:".toList.isPrefixOf (lower reference) ||
      "data:".toList.isPrefixOf (lower reference) || "mailto:".toList.isPrefixOf (lower reference) ||
      "tel:".toList.isPrefixOf (lower reference) || !StaticExport.hasExplicitScheme reference) =
      !StaticExport.hasExplicitScheme reference := by
    simp only [Bool.or_eq_true, not_or, Bool.not_eq_true] at hblob hopaque
    simp only [hblob, hopaque, Bool.false_or]
  have hlocal : (["http:", "https:", "data:", "mailto:", "tel:", "blob:"].any fun scheme =>
      scheme.toList.isPrefixOf (lower reference)) = false := by
    simp only [Bool.or_eq_true, not_or, Bool.not_eq_true] at hhttp hblob hopaque
    simp only [List.any_cons, List.any_nil, hhttp, hblob, hopaque, Bool.or_false]
  have hslash : reference.contains '\\' = false := (Bool.or_eq_false_iff.mp hcontrol).2
  simp only [hempty, hrelative, hlocal, hslash, Bool.or_false, Bool.false_eq_true, ↓reduceIte] at hadopt
  rw [hform]
  simp only [if_neg hblob, if_neg hopaque]
  by_cases hscript : ("javascript:".toList.isPrefixOf (lower reference) ||
      "file:".toList.isPrefixOf (lower reference)) = true
  · rw [if_pos hscript] at hadopt
    cases hadopt
  rw [if_neg hscript] at hadopt
  rw [if_neg hscript]
  by_cases hexplicit : StaticExport.hasExplicitScheme reference = true
  · simp only [hexplicit, ↓reduceIte, reduceCtorEq, false_and, exists_false, Bool.not_true, Bool.false_eq_true]
  rw [if_neg hexplicit]
  simp only [hexplicit, Bool.not_false, iff_true]
  by_cases hsuffix : (withoutSuffix reference).isEmpty = true
  · rw [if_pos hsuffix]
    refine ⟨.local sourcePath, rfl, fun path h => ?_⟩
    obtain rfl : sourcePath = path := by simpa using h
    rw [present, hsource, Bool.true_or]
  rw [if_neg hsuffix]
  cases hresolved : (percentDecode (withoutSuffix reference)).bind (resolvePath K sourcePath) with
  | none =>
    rw [hresolved] at hadopt
    cases hadopt
  | some resolved =>
    simp only [hresolved] at hadopt
    by_cases hroot : resolved.isEmpty = true
    · simp only [if_pos hroot] at hadopt ⊢
      refine ⟨.local "index.html".toList, rfl, fun path h => ?_⟩
      obtain rfl : "index.html".toList = path := by simpa using h
      by_contra hmissing
      simp only [bind, Except.bind, hmissing] at hadopt
      cases hadopt
    · simp only [if_neg hroot] at hadopt ⊢
      cases hvalid : validatePath K resolved with
      | error error =>
        rw [hvalid] at hadopt
        cases hadopt
      | ok =>
        rw [hvalid] at hadopt
        rw [if_pos (validatePath_canonical hvalid).1]
        refine ⟨.local resolved, rfl, fun path h => ?_⟩
        obtain rfl : resolved = path := by simpa using h
        by_contra hmissing
        simp only [bind, Except.bind, hmissing] at hadopt
        cases hadopt

/-! ## Sites -/

theorem analyzeReference_ok {K : Crates} {files : Files} {sourcePath raw : Text}
    {analysis : StaticExport.Analysis}
    (hcount : analysis.localReferenceCount + 1 < StaticExport.usizeRange) :
    (∃ next, StaticExport.analyzeReference K files sourcePath analysis raw = .ok next) ↔
      Resolves K files sourcePath raw := by
  cases hresolve : StaticExport.resolveReference K sourcePath raw with
  | error error =>
    simp only [StaticExport.analyzeReference, Resolves, hresolve, bind, Except.bind, reduceCtorEq, false_and,
      exists_false]
  | ok resolution =>
    simp only [StaticExport.analyzeReference, Resolves, hresolve, bind, Except.bind, Except.ok.injEq,
      exists_eq_left']
    cases resolution with
    | ignored => exact ⟨fun _ path h => (by cases h), fun _ => ⟨analysis, rfl⟩⟩
    | runtimeOnly => exact ⟨fun _ path h => (by cases h), fun _ => ⟨_, rfl⟩⟩
    | external reference => exact ⟨fun _ path h => (by cases h), fun _ => ⟨_, rfl⟩⟩
    | «local» resolved =>
      simp only [if_neg (Nat.not_le.mpr hcount), StaticExport.ReferenceResolution.local.injEq,
        forall_eq']
      cases hpresent : present files resolved with
      | true =>
        have hfound : (!files.contains resolved && !files.contains (resolved ++ "/index.html".toList)) =
            false := by
          rw [← Bool.not_or, show (files.contains resolved || files.contains _) = true from hpresent]
          rfl
        rw [hfound]
        exact ⟨fun _ => rfl, fun _ => ⟨_, rfl⟩⟩
      | false =>
        have hmissing : (!files.contains resolved && !files.contains (resolved ++ "/index.html".toList)) =
            true := by
          rw [← Bool.not_or, show (files.contains resolved || files.contains _) = false from hpresent]
          rfl
        rw [hmissing]
        exact ⟨fun ⟨_, h⟩ => (by cases h), fun h => (by cases h)⟩

theorem analyzeReference_count {K : Crates} {files : Files} {sourcePath raw : Text}
    {analysis next : StaticExport.Analysis}
    (h : StaticExport.analyzeReference K files sourcePath analysis raw = .ok next) :
    next.localReferenceCount ≤ analysis.localReferenceCount + 1 := by
  simp only [StaticExport.analyzeReference, bind_ok] at h
  obtain ⟨resolution, -, h⟩ := h
  cases resolution with
  | ignored => cases h; exact Nat.le_succ _
  | runtimeOnly => cases h; exact Nat.le_succ _
  | external reference => cases h; exact Nat.le_succ _
  | «local» resolved =>
    simp only at h
    split at h
    · cases h
    · split at h
      · cases h
      · cases h; exact le_refl _

/-- The references of a file, as far as it can be scanned. -/
def referencesOf (file : Text × Bytes) : List Text :=
  ((StaticExport.scanReferences file.1 file.2).toOption.map (·.references)).getD []

theorem analyzeFile_ok {K : Crates} {files : Files} {file : Text × Bytes} {analysis : StaticExport.Analysis}
    {scan : StaticExport.ReferenceScan} (hscan : StaticExport.scanReferences file.1 file.2 = .ok scan)
    (hcount : analysis.localReferenceCount + (referencesOf file).length < StaticExport.usizeRange) :
    (∃ next, StaticExport.analyzeFile K files analysis file = .ok next) ↔
      ∀ raw ∈ referencesOf file, Resolves K files file.1 raw := by
  have hrefs : referencesOf file = scan.references := by simp [referencesOf, hscan, Except.toOption]
  rw [hrefs] at hcount ⊢
  have hsum : (scan.references.map fun _ => 1).sum = scan.references.length := by simp
  simp only [StaticExport.analyzeFile, hscan, bind, Except.bind]
  have hstep : ∀ (s : StaticExport.Analysis) (raw : Text), s.localReferenceCount + 1 < StaticExport.usizeRange →
      ((∃ t, StaticExport.analyzeReference K files file.1 s raw = .ok t) ↔ Resolves K files file.1 raw) :=
    fun s raw h => analyzeReference_ok h
  refine foldlM_ok_iff (fun s raw _ => hstep s raw) (fun s raw t h => analyzeReference_count h) ?_
  rw [hsum]
  exact hcount

theorem analyzeFile_count {K : Crates} {files : Files} {file : Text × Bytes}
    {analysis next : StaticExport.Analysis} (h : StaticExport.analyzeFile K files analysis file = .ok next) :
    next.localReferenceCount ≤ analysis.localReferenceCount + (referencesOf file).length := by
  simp only [StaticExport.analyzeFile, bind_ok] at h
  obtain ⟨scan, hscan, h⟩ := h
  have hrefs : referencesOf file = scan.references := by simp [referencesOf, hscan, Except.toOption]
  have hsum : (scan.references.map fun _ => 1).sum = scan.references.length := by simp
  have hle := foldlM_count (fun s raw t h => analyzeReference_count h) h
  rw [hsum] at hle
  rw [hrefs]
  exact hle

/-- Every file of an accepted result has been scanned, and its references are adoptable. -/
theorem Passes.scanned {G : Gate} {raw base : Text} {accepted : Files} {result : AppliedChangeSet}
    (h : Passes G raw base accepted result) : ∀ file ∈ result.files.toList,
      (∃ scan, StaticExport.scanReferences file.1 file.2 = .ok scan) ∧
      ∀ reference ∈ referencesOf file, validateReference G.crates result.files file.1 reference = .ok () := by
  obtain ⟨incomplete, hreferences, -⟩ := h.references
  simp only [validateLocalReferences, bind_ok] at hreferences
  obtain ⟨sources, hsources, -⟩ := hreferences
  have hall := mapM_ok.mp hsources
  intro file hfile
  obtain ⟨source, hsource⟩ : ∃ source, (do
      let incomplete ← validateFileReferences G.crates result.files file.1 file.2
      return if incomplete then [file.1] else []) = Except.ok source := by
    obtain ⟨i, hi, rfl⟩ := List.mem_iff_getElem.mp hfile
    exact ⟨_, List.forall₂_iff_get.mp hall |>.2 i hi (by rw [← hall.length_eq]; exact hi)⟩
  rw [bind_ok] at hsource
  obtain ⟨isIncomplete, hvalid, -⟩ := hsource
  simp only [validateFileReferences] at hvalid
  cases hscan : StaticExport.scanReferences file.1 file.2 with
  | error error =>
    rw [hscan] at hvalid
    cases hvalid
  | ok scan =>
    simp only [hscan, bind_ok] at hvalid
    obtain ⟨⟨⟩, hforM, -⟩ := hvalid
    refine ⟨⟨scan, rfl⟩, fun reference hmem => ?_⟩
    have hrefs : referencesOf file = scan.references := by simp [referencesOf, hscan, Except.toOption]
    exact forM_ok.mp hforM reference (hrefs ▸ hmem)

/-! ## Requests -/

/-- A request for the export of a site through its index page. -/
structure WellFormed (input : StaticExport.StaticExportInput) : Prop where
  revision : StaticExport.validSourceRevisionId input.sourceRevisionId = true
  manifest : StaticExport.validSha256 input.sourceManifestSha256 = true
  generatedAt : StaticExport.validUtcTimestamp input.generatedAtUtc = true
  entryPoint : input.entryPoint = "index.html".toList

/-- A site that fits into memory, with files that a ZIP archive can store. -/
structure Fits (files : Files) : Prop where
  each : ∀ file ∈ files.toList, file.2.length < 2 ^ 32
  total : (files.toList.map (·.2.length)).sum < StaticExport.usizeRange
  references : (files.toList.map fun file => (referencesOf file).length).sum < StaticExport.usizeRange

/-- `ZipWriter` stores files of less than 4 GiB under distinct names of at most 512 bytes. -/
def StoresEntries (K : Crates) : Prop :=
  ∀ entries : List (Text × Bytes), (entries.map Prod.fst).Nodup →
    (∀ entry ∈ entries, byteLength entry.1 ≤ maxPathBytes ∧ entry.2.length < 2 ^ 32) →
    (K.zip entries).isSome = true

theorem validatePath_length {K : Crates} {path : Text} (h : validatePath K path = .ok ()) :
    byteLength path ≤ maxPathBytes := by
  by_contra hlong
  have hlong : decide (maxPathBytes < byteLength path) = true := decide_eq_true (Nat.not_le.mp hlong)
  simp only [validatePath, hlong, Bool.true_or, Bool.or_true, ↓reduceIte] at h
  cases h

theorem validateExportInput_ok {K : Crates} {input : StaticExport.StaticExportInput} {bytes : Bytes}
    (hform : WellFormed input) (hindex : input.files["index.html".toList]? = some bytes)
    (hvalid : validatePath K "index.html".toList = .ok ()) (htext : (decode bytes).isSome = true) :
    StaticExport.validateExportInput K input = .ok () := by
  have hempty : input.files.isEmpty = false := by
    rw [Std.ExtTreeMap.isEmpty_eq_false_iff]
    intro h
    rw [h] at hindex
    simp at hindex
  have hhtml : StaticExport.isHtmlPath "index.html".toList = true := by decide
  have hnone : (decode bytes).isNone = false := by simpa [Option.isSome_iff_ne_none] using htext
  simp only [StaticExport.validateExportInput, hempty, hform.revision, hform.manifest, hform.generatedAt,
    hform.entryPoint, (validatePath_canonical hvalid).1, hindex, hhtml, hnone, Bool.not_true, Bool.false_eq_true,
    ↓reduceIte]

/-- A site that was accepted can be exported if and only if the export gate takes the form of each of its
references. -/
theorem adoptable_exportable_iff (G : Gate) (raw base : Text) (accepted : Files) (result : AppliedChangeSet)
    (input : StaticExport.StaticExportInput)
    (haccept : parseAndApplyChangeSet G raw base accepted = .ok result)
    (hform : WellFormed input) (hfiles : input.files = result.files) (hfits : Fits result.files)
    (hzip : StoresEntries G.crates) :
    (∃ artifact, StaticExport.generateStaticExport G.crates input = .ok artifact) ↔
      ∀ file ∈ result.files.toList, ∀ reference ∈ referencesOf file,
        exportable G.crates reference = true := by
  have hpasses := parseAndApply_passes haccept
  have hvalid := hpasses.paths_valid
  have hscanned := hpasses.scanned
  have hvalidFile : ∀ file ∈ result.files.toList, validatePath G.crates file.1 = .ok () := by
    intro file hfile
    have hget := Std.ExtTreeMap.mem_toList_iff_getElem?_eq_some.mp hfile
    exact hvalid file.1 (Std.ExtTreeMap.mem_iff_isSome_getElem?.mpr (by rw [hget]; rfl))
  have hcontains : ∀ file ∈ result.files.toList, result.files.contains file.1 = true := by
    intro file hfile
    have hget := Std.ExtTreeMap.mem_toList_iff_getElem?_eq_some.mp hfile
    rw [Std.ExtTreeMap.contains_eq_isSome_getElem?, hget]
    rfl
  -- the index page is a text
  obtain ⟨index, hindex⟩ : ∃ bytes, result.files["index.html".toList]? = some bytes := by
    have := hpasses.entryPoint
    rwa [Std.ExtTreeMap.contains_eq_isSome_getElem?, Option.isSome_iff_exists] at this
  have hindexFile : ("index.html".toList, index) ∈ result.files.toList :=
    Std.ExtTreeMap.mem_toList_iff_getElem?_eq_some.mpr hindex
  have htext : (decode index).isSome = true := by
    obtain ⟨⟨scan, hscan⟩, -⟩ := hscanned _ hindexFile
    have hmedia : StaticExport.textMediaTypeForPath "index.html".toList = some .html := by decide
    simp only [StaticExport.scanReferences, hmedia] at hscan
    cases hdecode : decode index with
    | none => rw [hdecode] at hscan; cases hscan
    | some text => rfl
  have hinput := validateExportInput_ok hform (hfiles ▸ hindex) (hvalidFile _ hindexFile) htext
  -- the paths
  have hcollisions := hpasses.collisions
  simp only [validateFinalCaseCollisions] at hcollisions
  split at hcollisions
  case isFalse => cases hcollisions
  rename_i hnodup
  rw [← Std.ExtTreeMap.map_fst_toList_eq_keys, List.map_map] at hnodup
  obtain ⟨entries, hentries, hlengths⟩ := canonicalFileEntriesFrom_ok [] hvalidFile hnodup
  have htotal : StaticExport.totalByteLength entries < StaticExport.usizeRange := by
    rw [StaticExport.totalByteLength, hlengths]
    exact hfits.total
  have hstored : (G.crates.zip result.files.toList).isSome = true := by
    refine hzip _ ?_ fun file hfile => ⟨validatePath_length (hvalidFile file hfile), hfits.each file hfile⟩
    rw [Std.ExtTreeMap.map_fst_toList_eq_keys]
    exact Std.ExtTreeMap.nodup_keys
  obtain ⟨zipBytes, hzipBytes⟩ := Option.isSome_iff_exists.mp hstored
  -- the references
  have hanalysis : (∃ analysis, result.files.toList.foldlM
        (StaticExport.analyzeFile G.crates result.files) .start = .ok analysis) ↔
      ∀ file ∈ result.files.toList, ∀ reference ∈ referencesOf file,
        exportable G.crates reference = true := by
    have hstep : ∀ (s : StaticExport.Analysis), ∀ file ∈ result.files.toList,
        s.localReferenceCount + (referencesOf file).length < StaticExport.usizeRange →
        ((∃ t, StaticExport.analyzeFile G.crates result.files s file = .ok t) ↔
          ∀ reference ∈ referencesOf file, exportable G.crates reference = true) := by
      intro s file hfile hcount
      obtain ⟨⟨scan, hscan⟩, hadopt⟩ := hscanned file hfile
      rw [analyzeFile_ok hscan hcount]
      exact forall₂_congr fun reference href => resolves_iff (hcontains file hfile) (hadopt reference href)
    refine foldlM_ok_iff hstep (fun s file t h => analyzeFile_count h) ?_
    rw [StaticExport.Analysis.start, Nat.zero_add]
    exact hfits.references
  rw [← hanalysis]
  simp only [StaticExport.generateStaticExport, hfiles, hinput, StaticExport.canonicalFileEntries, hentries,
    StaticExport.analyzeReferences, hzipBytes, bind_ok, pure_ok, Except.ok.injEq, exists_eq_left',
    if_neg (Nat.not_le.mpr htotal)]
  constructor
  · rintro ⟨artifact, -, -, report, ⟨analysis, hok, -⟩, -⟩
    exact ⟨analysis, hok⟩
  · rintro ⟨analysis, hok⟩
    exact ⟨_, ⟨⟩, trivial, _, ⟨analysis, hok, rfl⟩, rfl⟩

/-- A page with one link. -/
def linkPage (reference : String) : Text := "<a href=\"".toList ++ reference.toList ++ "\">a</a>".toList

def linkGate (before after : String) : Gate := replacementGate (linkPage before) (linkPage after)

def exportRequest (files : Files) : StaticExport.StaticExportInput where
  sourceRevisionId := "rev_0".toList
  sourceManifestSha256 := List.replicate 64 'a'
  generatedAtUtc := "2026-07-19T12:00:00Z".toList
  entryPoint := "index.html".toList
  files := files

theorem exportRequest_wellFormed (files : Files) : WellFormed (exportRequest files) where
  revision := (by decide : StaticExport.validSourceRevisionId "rev_0".toList = true)
  manifest := (by decide : StaticExport.validSha256 (List.replicate 64 'a') = true)
  generatedAt := (by decide : StaticExport.validUtcTimestamp "2026-07-19T12:00:00Z".toList = true)
  entryPoint := rfl

set_option maxRecDepth 100000 in
theorem adoptable_exportable_query :
    ∃ result, parseAndApplyChangeSet (linkGate "#a" "?a") [] "rev_0".toList (onePage (linkPage "#a")) =
        .ok result ∧
      ∃ artifact, StaticExport.generateStaticExport sampleCrates (exportRequest result.files) =
        .ok artifact := by
  have hrun : (parseAndApplyChangeSet (linkGate "#a" "?a") [] "rev_0".toList
      (onePage (linkPage "#a"))).toOption.any (fun result => result.files = onePage (linkPage "?a")) = true := by
    decide
  obtain ⟨result, haccept, hresult⟩ := exists_of_any hrun
  have hfiles := of_decide_eq_true hresult
  refine ⟨result, haccept, (adoptable_exportable_iff _ _ _ _ _ _ haccept
    (exportRequest_wellFormed result.files) rfl ?_ (fun _ _ _ => rfl)).mpr ?_⟩
  · rw [hfiles]
    exact ⟨by decide, by decide, by decide⟩
  · rw [hfiles]
    decide

/-- The adoption of a new link that the export gate refuses. -/
def adoptedNotExported (reference : String) : Bool :=
  (parseAndApplyChangeSet (linkGate "#a" reference) [] "rev_0".toList (onePage (linkPage "#a"))).toOption.any
    fun result => match StaticExport.generateStaticExport sampleCrates (exportRequest result.files) with
      | .error error => error == .unsafeReference "index.html".toList
      | .ok _ => false

set_option maxRecDepth 100000 in
/-- A line break in a data URL, and a path that looks like a scheme. -/
theorem adopted_not_exported :
    adoptedNotExported "data:,a\nb" = true ∧ adoptedNotExported "x:/../index.html" = true := by
  decide

end LpStudio.ChangeSet
