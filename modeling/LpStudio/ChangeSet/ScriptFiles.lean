import LpStudio.ChangeSet.FormTargets

/-! # Script files
The files of a site that run as scripts, by their extension or because an HTML page loads them. The behaviour gate
fingerprints a loaded file where the source itself resolves to it, the reference gate also accepts the index of a
directory.
-/
namespace LpStudio.ChangeSet
open Str Scanning Markup Outcome

/-! ## Executable files -/

/-- The effective source of a script element. -/
def scriptSource (tag : StaticExport.MarkupTag) : Option Text :=
  if tag.closing = false ∧ tag.name = "script".toList then (effectiveAttributes tag.attributes)["src".toList]? else none

def directoryIndex (resolved : Text) : Text := resolved ++ "/index.html".toList

/-- The script sources of the HTML page at `path`, resolved. -/
def loads (K : Crates) (files : Files) (path resolved : Text) : Prop :=
  htmlMode path = true ∧ ∃ e ∈ pageElements files path, ∃ source, scriptSource e.1 = some source ∧
    resolveLocalReference K path source = .ok (some resolved)

/-- A script file by its extension, or a file that an HTML page loads as the reference gate resolves it. -/
inductive Executable (K : Crates) (files : Files) : Text → Prop where
  | extension {path : Text} (h : textMediaTypeForPath path = some .javascript) : Executable K files path
  | loaded {page resolved : Text} (h : loads K files page resolved) (hfile : files.contains resolved = true) :
      Executable K files resolved
  | index {page resolved : Text} (h : loads K files page resolved) (hfile : files.contains resolved = false) :
      Executable K files (directoryIndex resolved)

/-- A file of the result is one of the accepted site, byte by byte. -/
def Frozen (accepted files : Files) (path : Text) : Prop :=
  ∀ bytes, files[path]? = some bytes → accepted[path]? = some bytes

/-- Both parsers read the attributes of a script alike, and its sources are one. -/
def PlainScript (sourcePath name attributes : Text) : Prop :=
  name = "script".toList →
    (∀ u, Visits (StaticExport.attributeStep sourcePath) attributes u → unquotedSlash u = false) ∧
    ∀ read ∈ (StaticExport.parseAttributes sourcePath attributes).toOption,
      NoConflict (read.filter (·.1 = "src".toList))

instance (sourcePath name attributes : Text) : Decidable (PlainScript sourcePath name attributes) :=
  decidable_of_iff (name = "script".toList →
      (∀ u ∈ trail (StaticExport.attributeStep sourcePath) attributes, unquotedSlash u = false) ∧
      ∀ read ∈ (StaticExport.parseAttributes sourcePath attributes).toOption,
        NoConflict (read.filter (·.1 = "src".toList)))
    (by simp only [mem_trail (StaticExport.attributeStep_productive sourcePath), PlainScript])

/-- The behaviour gate reads the script sources of `text` as the strict parsers do. -/
abbrev ScriptsReadable (sourcePath text : Text) : Prop := ReadAlike (PlainScript sourcePath) sourcePath text

/-! ## Fingerprints of script files -/

section
variable {K : Crates} {files : Files} {path : Text}

theorem numberedFeature_code {item : (FeatureKind × Text) × ℕ × Text × Text} :
    (numberedFeature path item).code ≠ "changed_script_content".toList := by
  obtain ⟨⟨kind, key⟩, n, destination, fingerprint⟩ := item
  change kind.code ≠ _
  cases kind <;> decide

/-- Such a fingerprint is of the file that it names. -/
theorem scriptContent_file {feature : BehaviorFeature} (h : feature ∈ behaviorFeatures K files)
    (hcode : feature.code = "changed_script_content".toList) :
    ∃ bytes, files[feature.path]? = some bytes ∧ feature.fingerprint = K.sha256 bytes := by
  obtain ⟨⟨source, bytes⟩, hfile, h⟩ := List.mem_flatMap.mp h
  have hbytes : files[source]? = some bytes := Std.ExtTreeMap.mem_toList_iff_getElem?_eq_some.mp hfile
  have other : ∀ {code}, feature.code = code → code ≠ "changed_script_content".toList → False :=
    fun h hne => hne (h ▸ hcode)
  cases hdecode : decode bytes with
  | none => simp [fileFeatures, hdecode] at h
  | some text =>
  simp only [fileFeatures, hdecode, List.mem_append] at h
  rcases h with ((((h | h) | h) | h) | h) | h
  · split at h
    · rw [List.mem_singleton.mp h]
      exact ⟨bytes, hbytes, rfl⟩
    · cases h
  · exact (other (originFeatures_code _ h) (by decide)).elim
  · split at h
    · exact (other (originFeatures_code _ h) (by decide)).elim
    · cases h
  · obtain ⟨marker, -, h⟩ := List.mem_flatMap.mp h
    exact (other (markerFeatures_code _ h) (by decide)).elim
  · obtain ⟨marker, -, h⟩ := List.mem_flatMap.mp h
    exact (other (markerFeatures_code _ h) (by decide)).elim
  · split at h
    · rcases List.mem_append.mp h with h | h
      · obtain ⟨item, -, rfl⟩ := List.mem_map.mp h
        exact absurd hcode numberedFeature_code
      · obtain ⟨tag, -, h⟩ := List.mem_flatMap.mp h
        simp only [scriptContentFeatures] at h
        split at h
        · cases h
        split at h
        · cases h
        split at h
        · split at h
          · next script hscript =>
            rw [List.mem_singleton.mp h]
            exact ⟨script, hscript, rfl⟩
          · cases h
        · cases h
    · cases h

/-- A readable script file is fingerprinted under its path. -/
theorem extension_fingerprint {bytes : Bytes} (hfile : files[path]? = some bytes)
    (hmedia : textMediaTypeForPath path = some .javascript) (hdecode : (decode bytes).isSome = true) :
    ⟨"changed_script_content".toList, path, path, K.sha256 bytes⟩ ∈ behaviorFeatures K files := by
  obtain ⟨text, htext⟩ := Option.isSome_iff_exists.mp hdecode
  refine List.mem_flatMap.mpr ⟨(path, bytes), Std.ExtTreeMap.mem_toList_iff_getElem?_eq_some.mpr hfile, ?_⟩
  simp only [fileFeatures, htext, hmedia, ↓reduceIte, List.mem_append, List.mem_singleton, true_or]

/-- So is a file that a source of a page resolves to. -/
theorem loaded_fingerprint {tag : MarkupTag} {source resolved : Text} {bytes : Bytes}
    (htag : tag ∈ pageTags K files path) (hopen : tag.closing = false) (hname : tag.name = "script".toList)
    (hsource : getAttribute tag.attributes "src".toList = some source)
    (hresolved : resolveLocalReference K path source = .ok (some resolved)) (hfile : files[resolved]? = some bytes) :
    ⟨"changed_script_content".toList, resolved, source, K.sha256 bytes⟩ ∈ behaviorFeatures K files := by
  unfold pageTags at htag
  split at htag
  · next text hpage =>
    unfold pageText at hpage
    split at hpage
    · next hmedia =>
      obtain ⟨pageBytes, hpageFile, htext⟩ := Option.bind_eq_some_iff.mp hpage
      refine List.mem_flatMap.mpr
        ⟨(path, pageBytes), Std.ExtTreeMap.mem_toList_iff_getElem?_eq_some.mpr hpageFile, ?_⟩
      have hfeature : ⟨"changed_script_content".toList, resolved, source, K.sha256 bytes⟩ ∈
          scriptContentFeatures K files path tag := by
        simp only [scriptContentFeatures, hopen, hname, hsource, hresolved, hfile, Bool.false_eq_true, ne_eq,
          not_true_eq_false, or_self, ↓reduceIte, List.mem_singleton]
      simp only [fileFeatures, htext, if_pos hmedia]
      refine List.mem_append_right _ (List.mem_append_right _ (List.mem_flatMap.mpr ⟨tag, htag, hfeature⟩))
    · cases hpage
  · cases htag

/-- The last source of a script is its first. -/
theorem getAttribute_source {attributes : List (Text × Text)}
    (hc : NoConflict (attributes.filter (·.1 = "src".toList))) :
    getAttribute attributes "src".toList = (effectiveAttributes attributes)["src".toList]? := by
  cases hfind : attributes.reverse.find? (·.1 == "src".toList) with
  | none =>
    cases heff : (effectiveAttributes attributes)["src".toList]? with
    | none => rw [getAttribute, hfind]; rfl
    | some value =>
      have := List.find?_eq_none.mp hfind ("src".toList, value) (List.mem_reverse.mpr (effective_mem heff))
      simp at this
  | some a =>
    obtain ⟨n, v⟩ := a
    have hmem := List.mem_reverse.mp (List.mem_of_find?_eq_some hfind)
    obtain rfl : n = "src".toList := by simpa using List.find?_some hfind
    obtain ⟨value, hvalue⟩ := effective_of_mem hmem
    have hsame : v = value := hc ("src".toList, v) (List.mem_filter.mpr ⟨hmem, decide_eq_true rfl⟩)
      ("src".toList, value) (List.mem_filter.mpr ⟨effective_mem hvalue, decide_eq_true rfl⟩) rfl
    rw [getAttribute, hfind, hvalue, ← hsame]
    rfl

end

/-! ## Accepted ChangeSets -/

section
variable {G : Gate} {raw base : Text} {accepted : Files} {result : AppliedChangeSet}

/-- A file that the gate has fingerprinted without a warning is frozen. -/
theorem frozen_of_fingerprint (haccept : parseAndApplyChangeSet G raw base accepted = .ok result)
    (hnone : result.blockingWarnings = [])
    (hsha : ∀ (path : Text) (new old : Bytes), result.files[path]? = some new → accepted[path]? = some old →
      G.crates.sha256Digest new = G.crates.sha256Digest old → new = old)
    {path destination : Text} {bytes : Bytes} (hfile : result.files[path]? = some bytes)
    (hfeature : ⟨"changed_script_content".toList, path, destination, G.crates.sha256 bytes⟩ ∈
      behaviorFeatures G.crates result.files) : accepted[path]? = some bytes := by
  obtain ⟨old, hold, hprint⟩ := scriptContent_file
    (features_of_no_warnings haccept hnone hfeature (show "changed_script_content".toList ≠ _ by decide)) rfl
  rw [hold, hsha path bytes old hfile hold ((G.crates.sha256_eq_iff _ _).mp hprint)]

/-- The syntax check has decoded every script file. -/
theorem decoded_of_valid {S : StaticSyntax.Parsers} {files : List (Text × Bytes)} {count warnings : ℕ}
    (h : files.foldlM (fun count file => (StaticSyntax.validateFile S file.1 file.2).map fun warnings =>
      min (count + warnings) StaticSyntax.maxHtmlRecoveryWarningCount) count = some warnings) :
    ∀ file ∈ files, (StaticSyntax.validateFile S file.1 file.2).isSome = true := by
  induction files generalizing count with
  | nil => exact fun _ h => absurd h List.not_mem_nil
  | cons file files ih =>
    rw [List.foldlM_cons] at h
    obtain ⟨next, hnext, h⟩ := Option.bind_eq_some_iff.mp h
    intro other hother
    rcases List.mem_cons.mp hother with rfl | hother
    · obtain ⟨found, hfound, -⟩ := Option.map_eq_some_iff.mp hnext
      rw [hfound]
      rfl
    · exact ih h other hother

theorem textKind_javaScript {path : Text} (h : textMediaTypeForPath path = some .javascript) :
    StaticSyntax.textKind path = some .javaScript := by
  unfold textMediaTypeForPath Paths.extension at h
  unfold StaticSyntax.textKind
  cases hsplit : rsplitOnce '.' path with
  | none =>
    rw [hsplit] at h
    cases h
  | some parts =>
    obtain ⟨stem, ext⟩ := parts
    rw [hsplit] at h
    by_cases hempty : ext.isEmpty = true
    · simp only [Option.bind_some, hempty, ↓reduceIte] at h
      cases h
    · simp only [Option.bind_some, if_neg hempty] at h
      by_cases hhtml : (["html", "htm"].any fun choice => eqIgnoreCase ext choice.toList) = true
      · rw [if_pos hhtml] at h
        cases h
      by_cases hcss : (["css"].any fun choice => eqIgnoreCase ext choice.toList) = true
      · rw [if_neg hhtml, if_pos hcss] at h
        cases h
      by_cases hjs : (["js", "mjs", "cjs"].any fun choice => eqIgnoreCase ext choice.toList) = true
      · simp only [if_neg hhtml, if_neg hcss, if_pos hjs]
      · rw [if_neg hhtml, if_neg hcss, if_neg hjs] at h
        split at h
        · cases h
        split at h
        · cases h
        split at h
        · cases h
        split at h
        · cases h
        split at h
        · cases h
        split at h
        · cases h
        · cases h

theorem scriptFile_decodes (haccept : parseAndApplyChangeSet G raw base accepted = .ok result) {path : Text}
    {bytes : Bytes} (hfile : result.files[path]? = some bytes) (hmedia : textMediaTypeForPath path = some .javascript) :
    (decode bytes).isSome = true := by
  obtain ⟨warnings, hparsed⟩ := (parseAndApply_passes haccept).parsed
  have hvalid := decoded_of_valid hparsed (path, bytes) (Std.ExtTreeMap.mem_toList_iff_getElem?_eq_some.mpr hfile)
  simp only [StaticSyntax.validateFile, textKind_javaScript hmedia] at hvalid
  cases hdecode : decode bytes with
  | none =>
    rw [hdecode] at hvalid
    cases hvalid
  | some text => rfl

/-- A file that a readable page loads under its own path is frozen. -/
theorem loaded_frozen (haccept : parseAndApplyChangeSet G raw base accepted = .ok result)
    (hnone : result.blockingWarnings = [])
    (hsha : ∀ (path : Text) (new old : Bytes), result.files[path]? = some new → accepted[path]? = some old →
      G.crates.sha256Digest new = G.crates.sha256Digest old → new = old)
    {page resolved : Text} (hread : ∀ text, pageText result.files page = some text → ScriptsReadable page text)
    (hloads : loads G.crates result.files page resolved) : Frozen accepted result.files resolved := by
  obtain ⟨-, e, he, source, hsource, hresolved⟩ := hloads
  intro bytes hfile
  obtain ⟨text, hpage⟩ := pageText_of_element he
  obtain ⟨tag, htag, hname, hclosing, -, hattrs⟩ :=
    forall₂_mem_left (pageElements_tags (K := G.crates) hpage (hread text hpage)) he
  unfold scriptSource at hsource
  split at hsource
  · next hscript =>
    rcases hattrs with ⟨hc, -, -⟩ | ⟨-, rest, hclear, hstrict, hlenient⟩
    · rw [hscript.1] at hc
      cases hc
    · obtain ⟨hplain, hsources⟩ := hclear hscript.2
      have heq : tag.attributes = e.1.attributes := by
        rw [hlenient, parseAttributes_agree hstrict hplain]
      have hget : getAttribute tag.attributes "src".toList = some source := by
        rw [heq, getAttribute_source (hsources e.1.attributes (by rw [hstrict]; rfl)), hsource]
      exact frozen_of_fingerprint haccept hnone hsha hfile (loaded_fingerprint htag
        (hclosing.trans hscript.1) (hname.trans hscript.2) hget hresolved hfile)
  · cases hsource

/-- Executable bytes are frozen without review: where the gate can read the script sources of the HTML pages, the
script files and the loaded files of a result without warnings are those of the accepted site exactly if the
directory indexes that scripts load are. -/
theorem executables_frozen_iff (G : Gate) (raw base : Text) (accepted : Files) (result : AppliedChangeSet)
    (haccept : parseAndApplyChangeSet G raw base accepted = .ok result) (hnone : result.blockingWarnings = [])
    (hread : ∀ page text, htmlMode page = true → pageText result.files page = some text → ScriptsReadable page text)
    (hsha : ∀ (path : Text) (new old : Bytes), result.files[path]? = some new → accepted[path]? = some old →
      G.crates.sha256Digest new = G.crates.sha256Digest old → new = old) :
    (∀ path, Executable G.crates result.files path → Frozen accepted result.files path) ↔
      ∀ page resolved, loads G.crates result.files page resolved → result.files.contains resolved = false →
        Frozen accepted result.files (directoryIndex resolved) := by
  constructor
  · intro h page resolved hloads hfile
    exact h _ (.index hloads hfile)
  · intro h path hexecutable
    cases hexecutable with
    | extension hmedia =>
      intro bytes hfile
      exact frozen_of_fingerprint haccept hnone hsha hfile
        (extension_fingerprint hfile hmedia (scriptFile_decodes haccept hfile hmedia))
    | loaded hloads _ => exact loaded_frozen haccept hnone hsha (fun text => hread _ text hloads.1) hloads
    | index hloads hfile => exact h _ _ hloads hfile

end

/-! ## A page with a script file -/

/-- A page that loads a file, with that file. -/
def loadingSite (word content : String) : Files :=
  (onePage ("<script src='a.txt'></script>".toList ++ word.toList)).insert "a.txt".toList (encode content.toList)

def loadingGate : Gate := replacementGate ("<script src='a.txt'></script>Old".toList)
  ("<script src='a.txt'></script>New".toList)

theorem pageText_insert {files : Files} {other path : Text} {bytes : Bytes} (h : ¬isPage other) :
    pageText (files.insert other bytes) path = pageText files path := by
  unfold pageText
  split
  · next hpath =>
    have hne : ¬compare other path = .eq := by
      intro heq
      rw [Std.LawfulEqCmp.eq_of_compare heq] at h
      exact h hpath
    rw [Std.ExtTreeMap.getElem?_insert, if_neg hne]
  · rfl

set_option maxRecDepth 100000 in
theorem executables_frozen_reworded :
    ∃ result, parseAndApplyChangeSet loadingGate [] "rev_0".toList (loadingSite "Old" "f()") = .ok result ∧
      ∀ path, Executable sampleCrates result.files path → Frozen (loadingSite "Old" "f()") result.files path := by
  have hrun : (parseAndApplyChangeSet loadingGate [] "rev_0".toList (loadingSite "Old" "f()")).toOption.any
      (fun result => result.blockingWarnings = [] ∧ result.files = loadingSite "New" "f()") = true := by
    decide +kernel
  obtain ⟨result, haccept, hresult⟩ := exists_of_any hrun
  obtain ⟨hnone, hfiles⟩ := of_decide_eq_true hresult
  have hpages : ∀ {path text}, pageText result.files path = some text →
      path = "index.html".toList ∧ text = "<script src='a.txt'></script>New".toList := by
    intro path text hpage
    rw [hfiles, loadingSite, pageText_insert (by decide)] at hpage
    exact pageText_onePage hpage
  refine ⟨result, haccept, (executables_frozen_iff loadingGate [] "rev_0".toList (loadingSite "Old" "f()") result
    haccept hnone ?_ ?_).mpr ?_⟩
  · intro page text _ hpage
    obtain ⟨rfl, rfl⟩ := hpages hpage
    decide
  · intro path new old hnew hold hdigest
    rw [hfiles] at hnew
    have hmem : path ∈ (loadingSite "New" "f()").keys := by
      rw [Std.ExtTreeMap.mem_keys, Std.ExtTreeMap.mem_iff_isSome_getElem?, hnew]
      rfl
    have hdistinct : ∀ path ∈ (loadingSite "New" "f()").keys, ∀ new ∈ (loadingSite "New" "f()")[path]?,
        ∀ old ∈ (loadingSite "Old" "f()")[path]?,
          sampleCrates.sha256Digest new = sampleCrates.sha256Digest old → new = old := by
      decide
    exact hdistinct path hmem new hnew old hold hdigest
  · rintro page resolved ⟨-, e, he, source, hsource, hresolved⟩ hfile
    rw [hfiles] at he hfile
    obtain ⟨text, hpage⟩ := pageText_of_element he
    obtain ⟨rfl, -⟩ := hpages (hfiles ▸ hpage)
    have hpresent : ∀ e ∈ pageElements (loadingSite "New" "f()") "index.html".toList, ∀ source ∈ scriptSource e.1,
        (resolveLocalReference sampleCrates "index.html".toList source).toOption = some (some "a.txt".toList) := by
      decide
    have heq := hpresent e he source hsource
    have hresolved : resolveLocalReference sampleCrates "index.html".toList source = .ok (some resolved) := hresolved
    rw [hresolved] at heq
    obtain rfl := Option.some.inj (Option.some.inj heq)
    exact absurd hfile (by decide)

/-! ## A script behind a directory -/

/-- A page that loads the index of a directory as a script. -/
def indexedSite (content : String) : Files :=
  (onePage "<script src='docs'></script>".toList).insert "docs/index.html".toList (encode content.toList)

def indexedGate : Gate where
  crates := sampleCrates
  parsers := sampleParsers
  fromJson _ := some {
    schema := changeSetSchema
    version := 1
    baseRevisionId := "rev_0".toList
    summary := "Wording".toList
    operations := [.replaceText "docs/index.html".toList (sampleCrates.sha256 (encode "f()".toList))
      "text/html".toList "g()".toList] }

set_option maxRecDepth 100000 in
/-- The file that a script loads changes without a warning. -/
theorem index_not_frozen :
    ∃ result, parseAndApplyChangeSet indexedGate [] "rev_0".toList (indexedSite "f()") = .ok result ∧
      result.blockingWarnings = [] ∧ Executable sampleCrates result.files "docs/index.html".toList ∧
      ¬Frozen (indexedSite "f()") result.files "docs/index.html".toList := by
  have hrun : (parseAndApplyChangeSet indexedGate [] "rev_0".toList (indexedSite "f()")).toOption.any
      (fun result => result.blockingWarnings = [] ∧ result.files = indexedSite "g()") = true := by
    decide
  obtain ⟨result, haccept, hresult⟩ := exists_of_any hrun
  obtain ⟨hnone, hfiles⟩ := of_decide_eq_true hresult
  have hscript : (pageElements (indexedSite "g()") "index.html".toList).any
      (fun e => scriptSource e.1 = some "docs".toList) = true := by
    decide
  obtain ⟨e, he, hsource⟩ := List.any_eq_true.mp hscript
  have hresolved : (resolveLocalReference sampleCrates "index.html".toList "docs".toList).toOption.any
      (fun resolved => resolved = some "docs".toList) = true := by
    decide
  obtain ⟨resolved, hok, hdocs⟩ := exists_of_any hresolved
  rw [of_decide_eq_true hdocs] at hok
  rw [← hfiles] at he
  refine ⟨result, haccept, hnone, ?_, ?_⟩
  · exact .index ⟨by decide, e, he, _, of_decide_eq_true hsource, hok⟩ (by rw [hfiles]; decide)
  · rw [hfiles]
    intro hfrozen
    have hchanged : (indexedSite "g()")["docs/index.html".toList]? = some (encode "g()".toList) ∧
        (indexedSite "f()")["docs/index.html".toList]? ≠ some (encode "g()".toList) := by
      decide
    exact hchanged.2 (hfrozen _ hchanged.1)

end LpStudio.ChangeSet
