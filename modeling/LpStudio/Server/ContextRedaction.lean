import LpStudio.Lib.Outcome
import LpStudio.Server.ProviderContext

/-! # What a provider receives is redacted
The instruction, the selected text, the target, its resolution and the contents of the files are redacted. The paths
of the files, the id of the selected element, the attempt's id and the provider's names go out as they are.
-/
namespace LpStudio.Server.Context
open Str Redaction Targets

attribute [local irreducible] redactSensitiveText redactJsonStrings

/-- The fields of ids that the server draws, of digests, and of its own instruction. -/
def exempt : List Text := [
  "baseRevisionId".toList, "contextId".toList, "projectId".toList, "targetId".toList, "targetResolutionId".toList,
  "credentialBindingId".toList, "providerSystemInstruction".toList, "sha256".toList, "sourceSha256".toList,
  "includedSha256".toList]

/-- Every string of the document, but for the exempt ones, is redacted. -/
def SendsRedacted (canonicalJson : Text) : Prop :=
  ∀ root : Json, root.render = canonicalJson → ∀ t ∈ strings exempt root, Redacted t

/-- The paths of the files that fit into the context. -/
def includedPaths (files : Files) : ℕ → List Text → List Text
  | _, [] => []
  | total, path :: paths =>
    match (files[path]?.filter (!tooLarge total ·)).bind decode with
    | none => includedPaths files total paths
    | some source =>
      let length := Paths.byteLength (redactSensitiveText source).1
      if maxContextTotalBytes < total + length then includedPaths files total paths
      else path :: includedPaths files (total + length) paths

def contextFilePaths (project : Project) (target : TargetRecord) : List Text :=
  (contextEntryPath target.pagePath project.acceptedFiles).elim [] fun entryPath =>
    includedPaths project.acceptedFiles 0 (contextPaths entryPath project.acceptedFiles)

/-- The values that go out as they are. -/
structure PlainParts (project : Project) (target : TargetRecord) (attemptId : Text) (provider : ProviderBinding) :
    Prop where
  paths : ∀ path ∈ contextFilePaths project target, Redacted path
  elementId : Redacted (contextElementId target)
  attempt : Redacted attemptId
  provider : ∀ t ∈ [provider.providerId, provider.adapterVersion, provider.requestedModel, provider.credentialSourceId],
    Redacted t

/-! ## The files -/

/-- What the loop makes of a file. -/
structure FileRedacted (file : ContextFile) : Prop where
  content : Redacted file.content
  mediaType : Redacted file.mediaType
  purpose : Redacted file.purpose
  redactions : ∀ label ∈ file.redactions, Redacted label

/-- The strings that the source itself puts into the document. -/
def literals : List Text := [
  "text/html".toList, "text/css".toList, "application/javascript".toList, "application/json".toList,
  "image/svg+xml".toList, "text/markdown".toList, "text/plain".toList, "dependency".toList, "entrypoint".toList,
  "change".toList, "serde-json-shortest-decimal-string-v1".toList, "change_set".toList,
  "org.synapsegit-lp-studio.change-set".toList, providerContractVersion,
  "org.synapsegit-lp-studio.ai-context".toList]

theorem literal_redacted {t : Text} (h : t ∈ literals) : Redacted t := by
  have hall : literals.all (decide <| Redacted ·) = true := by decide
  exact of_decide_eq_true (List.all_eq_true.mp hall t h)

theorem contextMediaType_redacted {path mediaType : Text} (h : contextMediaType path = some mediaType) :
    Redacted mediaType := by
  obtain ⟨⟨stem, extension⟩, -, hmedia⟩ := Option.bind_eq_some_iff.mp h
  dsimp only at hmedia
  split_ifs at hmedia
  all_goals
    obtain rfl := Option.some.inj hmedia
    exact literal_redacted (by simp [literals])

section
variable {K : Crates} {files : Files}

theorem collectFiles_ok {first : Bool} {total : ℕ} {paths : List Text} {collected : List ContextFile}
    (h : collectFiles K files first total paths = .ok collected) :
    collected.map (·.path) = includedPaths files total paths ∧ ∀ file ∈ collected, FileRedacted file := by
  induction paths generalizing first total collected with
  | nil =>
    cases h
    exact ⟨rfl, fun file hfile => absurd hfile List.not_mem_nil⟩
  | cons path paths ih =>
    rw [collectFiles] at h
    rw [includedPaths]
    cases hbytes : files[path]? with
    | none =>
      rw [hbytes] at h
      cases h
    | some bytes =>
      rw [hbytes] at h
      dsimp only at h
      by_cases hlarge : tooLarge total bytes = true
      · rw [if_pos hlarge] at h
        rw [Option.filter_some, if_neg (by simp [hlarge])]
        cases first with
        | true => cases h
        | false => exact ih h
      · rw [if_neg hlarge] at h
        rw [Option.filter_some, if_pos (by simp [hlarge]), Option.bind_some]
        cases hsource : decode bytes with
        | none =>
          rw [hsource] at h
          cases first with
          | true => cases h
          | false => exact ih h
        | some source =>
          rw [hsource] at h
          dsimp only at h ⊢
          cases hmedia : contextMediaType path with
          | none =>
            rw [hmedia] at h
            cases h
          | some mediaType =>
            rw [hmedia] at h
            dsimp only at h
            split at h
            · rename_i hfull
              rw [if_pos hfull]
              cases first with
              | true => cases h
              | false => exact ih h
            · rename_i hfits
              rw [if_neg hfits]
              obtain ⟨rest, hrest, hcollected⟩ := Outcome.bind_ok.mp h
              obtain rfl := Outcome.pure_ok.mp hcollected
              obtain ⟨hpaths, hredacted⟩ := ih hrest
              refine ⟨by rw [List.map_cons, hpaths], fun file hfile => ?_⟩
              rcases List.mem_cons.mp hfile with rfl | hfile
              · refine ⟨redactSensitiveText_redacted source, contextMediaType_redacted hmedia, ?_, fun label hlabel => ?_⟩
                · cases first
                  · exact literal_redacted (by simp [literals])
                  · exact literal_redacted (by simp [literals])
                · exact labels_redacted label (redactSensitiveText_labels source label hlabel)
              · exact hredacted file hfile

theorem assembleContextFiles_ok {project : Project} {target : TargetRecord} {collected : List ContextFile}
    (h : assembleContextFiles K project target = .ok collected) :
    collected.map (·.path) = contextFilePaths project target ∧ ∀ file ∈ collected, FileRedacted file := by
  unfold assembleContextFiles at h
  unfold contextFilePaths
  split at h
  · cases h
  · rename_i entryPath hentry
    rw [hentry, Option.elim_some]
    exact collectFiles_ok h

end

/-! ## The document -/

/-- Every string of the value, but for the exempt ones, is redacted. -/
def Sends (value : Json) : Prop := ∀ t ∈ strings exempt value, Redacted t

def SendsFields (fields : List (Text × Json)) : Prop := ∀ t ∈ fieldStrings exempt fields, Redacted t

theorem sends_str {value : Text} : Sends (.str value) ↔ Redacted value := by simp [Sends, strings]

theorem sends_literal {value : Text} (h : value ∈ literals) : Sends (.str value) := sends_str.mpr (literal_redacted h)

theorem sends_num (value : ℕ) : Sends (.num value) := fun _ h => absurd h List.not_mem_nil

theorem sends_bool (value : Bool) : Sends (.bool value) := fun _ h => absurd h List.not_mem_nil

theorem sends_obj {fields : List (Text × Json)} : Sends (.obj fields) ↔ SendsFields fields := by
  simp only [Sends, SendsFields, strings]

theorem sends_arr {items : List Json} : Sends (.arr items) ↔ ∀ item ∈ items, Sends item := by
  simp only [Sends, strings]
  induction items with
  | nil => simp [itemStrings]
  | cons item items ih =>
    simp only [itemStrings, List.mem_append, or_imp, forall_and, ih, List.mem_cons, forall_eq]

theorem sends_labels {redactions : List Text} (h : ∀ label ∈ redactions, Redacted label) :
    Sends (labelsJson redactions) := by
  refine sends_arr.mpr fun item hitem => ?_
  obtain ⟨label, hlabel, rfl⟩ := List.mem_map.mp hitem
  exact sends_str.mpr (h label hlabel)

/-- What is left of the fields without the exempt ones. -/
def SendsUnless : List Bool → List (Text × Json) → Prop
  | false :: flags, field :: fields => Sends field.2 ∧ SendsUnless flags fields
  | true :: flags, _ :: fields => SendsUnless flags fields
  | _, _ => True

theorem sendsFields_iff {names : List Text} {flags : List Bool} {fields : List (Text × Json)}
    (hflags : names.map (decide <| · ∈ exempt) = flags) (hnames : fields.map (·.1) = names) :
    SendsFields fields ↔ SendsUnless flags fields := by
  subst hflags hnames
  induction fields with
  | nil => exact iff_of_true (fun _ h => absurd h List.not_mem_nil) trivial
  | cons field fields ih =>
    rw [List.map_cons, List.map_cons]
    by_cases h : field.1 ∈ exempt
    · rw [decide_eq_true h, SendsUnless, ← ih]
      simp only [SendsFields, fieldStrings, if_pos h, List.nil_append]
    · rw [decide_eq_false h, SendsUnless, ← ih]
      simp only [SendsFields, Sends, fieldStrings, if_neg h, List.mem_append, or_imp, forall_and]

theorem entryNames_exempt :
    ["endLine".toList, "estimatedTokens".toList, "includedByteLength".toList, "mediaType".toList, "path".toList,
    "purpose".toList, "redacted".toList, "redactions".toList, "sha256".toList, "sourceByteLength".toList,
    "startLine".toList, "truncated".toList].map (decide <| · ∈ exempt) =
      [false, false, false, false, false, false, false, false, true, false, false, false] := by
  decide

theorem entryJson_sends {file : ContextFile} (h : FileRedacted file) : Sends file.entryJson ↔ Redacted file.path := by
  refine sends_obj.trans ((sendsFields_iff entryNames_exempt (by rfl)).trans ?_)
  simp only [SendsUnless, sends_str]
  constructor
  · exact fun hall => hall.2.2.2.2.1
  · exact fun hpath => ⟨sends_num _, sends_num _, sends_num _, h.mediaType, hpath, h.purpose, sends_bool _,
      sends_labels h.redactions, sends_num _, sends_num _, sends_bool _, trivial⟩

theorem contentNames_exempt :
    ["content".toList, "includedSha256".toList, "mediaType".toList, "path".toList, "quotedUntrustedData".toList,
    "sourceSha256".toList].map (decide <| · ∈ exempt) =
      [false, true, false, false, false, true] := by
  decide

theorem contentJson_sends {file : ContextFile} (h : FileRedacted file) :
    Sends file.contentJson ↔ Redacted file.path := by
  refine sends_obj.trans ((sendsFields_iff contentNames_exempt (by rfl)).trans ?_)
  simp only [SendsUnless, sends_str]
  constructor
  · exact fun hall => hall.2.2.1
  · exact fun hpath => ⟨h.content, h.mediaType, hpath, sends_bool _, trivial⟩

theorem sends_files {files : List ContextFile} {toJson : ContextFile → Json}
    (h : ∀ file ∈ files, (Sends (toJson file) ↔ Redacted file.path)) :
    Sends (.arr (files.map toJson)) ↔ ∀ path ∈ files.map (·.path), Redacted path := by
  rw [sends_arr]
  constructor
  · intro hall path hpath
    obtain ⟨file, hfile, rfl⟩ := List.mem_map.mp hpath
    exact (h file hfile).mp (hall _ (List.mem_map_of_mem hfile))
  · intro hall item hitem
    obtain ⟨file, hfile, rfl⟩ := List.mem_map.mp hitem
    exact (h file hfile).mpr (hall _ (List.mem_map_of_mem hfile))

theorem manifestNames_exempt :
    ["entries".toList, "estimatedTokens".toList, "screenshotIncluded".toList, "totalIncludedBytes".toList].map
      (decide <| · ∈ exempt) = [false, false, false, false] := by
  decide

theorem manifestJson_sends {files : List ContextFile} (h : ∀ file ∈ files, FileRedacted file) :
    Sends (manifestJson files) ↔ ∀ path ∈ files.map (·.path), Redacted path := by
  refine sends_obj.trans ((sendsFields_iff manifestNames_exempt (by rfl)).trans ?_)
  simp only [SendsUnless]
  rw [sends_files fun file hfile => entryJson_sends (h file hfile)]
  constructor
  · exact fun hall => hall.1
  · exact fun hpaths => ⟨hpaths, sends_num _, sends_bool _, sends_num _, trivial⟩

theorem providerNames_exempt :
    ["adapterVersion".toList, "credentialBindingId".toList, "credentialSourceId".toList, "external".toList,
    "providerId".toList, "requestedModel".toList].map (decide <| · ∈ exempt) =
      [false, true, false, false, false, false] := by
  decide

theorem providerJson_sends {provider : ProviderBinding} : Sends provider.toJson ↔
    ∀ t ∈ [provider.providerId, provider.adapterVersion, provider.requestedModel, provider.credentialSourceId],
      Redacted t := by
  refine sends_obj.trans ((sendsFields_iff providerNames_exempt (by rfl)).trans ?_)
  simp only [SendsUnless, sends_str]
  constructor
  · rintro ⟨hadapter, hsource, -, hprovider, hmodel, -⟩
    simp [hadapter, hsource, hprovider, hmodel]
  · intro hall
    simp only [List.mem_cons, List.not_mem_nil, or_false, forall_eq_or_imp, forall_eq] at hall
    exact ⟨hall.2.1, hall.2.2.2, sends_bool _, hall.1, hall.2.2.1, trivial⟩

theorem contractNames_exempt :
    ["kind".toList, "schema".toList, "version".toList].map (decide <| · ∈ exempt) =
      [false, false, false] := by
  decide

theorem outputContract_sends : Sends (.obj [("kind".toList, .str "change_set".toList),
    ("schema".toList, .str "org.synapsegit-lp-studio.change-set".toList), ("version".toList, .num 1)]) := by
  refine sends_obj.trans (sendsFields_iff contractNames_exempt (by rfl)) |>.mpr ?_
  simp only [SendsUnless, sends_str]
  exact ⟨literal_redacted (by simp [literals]), literal_redacted (by simp [literals]), sends_num 1, trivial⟩

theorem redactJsonStrings_sends (value : Json) : Sends (redactJsonStrings value []).1 :=
  (redactJsonStrings_redacted exempt value []).1

theorem redactJsonStrings_labels (value : Json) : Sends (labelsJson (redactJsonStrings value []).2) :=
  sends_labels fun label hlabel => labels_redacted label
    (((redactJsonStrings_redacted exempt value []).2 label hlabel).resolve_left List.not_mem_nil)

theorem redactSensitiveText_labels_sends (value : Text) : Sends (labelsJson (redactSensitiveText value).2) :=
  sends_labels fun label hlabel => labels_redacted label (redactSensitiveText_labels value label hlabel)

theorem rootNames_exempt :
    ["attemptId".toList, "baseRevisionId".toList, "contextId".toList, "instruction".toList,
    "instructionRedactions".toList, "manifest".toList, "mode".toList, "numericEncoding".toList,
    "outputContract".toList, "projectId".toList, "provider".toList, "providerContractVersion".toList,
    "providerSystemInstruction".toList, "schema".toList, "selectedElementId".toList, "selectedText".toList,
    "selectedTextRedactions".toList, "target".toList, "targetId".toList, "targetRedactions".toList,
    "targetResolution".toList, "targetResolutionId".toList, "targetResolutionRedactions".toList,
    "untrustedSiteContent".toList, "version".toList].map (decide <| · ∈ exempt) =
      [false, true, true, false, false, false, false, false, false, true, false, false, true, false, false, false,
        false, false, true, false, false, true, false, false, false] := by
  decide

section
variable (K : Crates) (S : Serde) (project : Project) (contextId attemptId : Text) (target : TargetRecord)
  (resolution : TargetResolution) (instruction : Text) (provider : ProviderBinding)

/-- Field by field: what is redacted or fixed, and what is neither. -/
theorem contextRoot_sends {files : List ContextFile} (hfiles : ∀ file ∈ files, FileRedacted file) :
    Sends (contextRoot K S project contextId attemptId target resolution instruction provider files) ↔
      Redacted attemptId ∧ (∀ path ∈ files.map (·.path), Redacted path) ∧ Redacted (contextElementId target) ∧
        ∀ t ∈ [provider.providerId, provider.adapterVersion, provider.requestedModel, provider.credentialSourceId],
          Redacted t := by
  rw [contextRoot, sends_obj]
  refine (sendsFields_iff rootNames_exempt ?_).trans ?_
  · rfl
  constructor
  · rintro ⟨hattempt, -, -, hmanifest, -, -, -, hprovider, -, -, hselected, -⟩
    exact ⟨sends_str.mp hattempt, (manifestJson_sends hfiles).mp hmanifest, sends_str.mp hselected,
      providerJson_sends.mp hprovider⟩
  · rintro ⟨hattempt, hpaths, hselected, hprovider⟩
    have hcontents := (sends_files fun file hfile => contentJson_sends (hfiles file hfile)).mpr hpaths
    exact ⟨sends_str.mpr hattempt, sends_str.mpr (redactSensitiveText_redacted instruction),
      redactSensitiveText_labels_sends instruction, (manifestJson_sends hfiles).mpr hpaths,
      sends_literal (by simp [literals]), sends_literal (by simp [literals]), outputContract_sends,
      providerJson_sends.mpr hprovider, sends_literal (by simp [literals]), sends_literal (by simp [literals]),
      sends_str.mpr hselected, sends_str.mpr (redactSensitiveText_redacted _), redactSensitiveText_labels_sends _,
      redactJsonStrings_sends _, redactJsonStrings_labels _, redactJsonStrings_sends _, redactJsonStrings_labels _,
      hcontents, sends_num 1, trivial⟩

variable {K S project contextId attemptId target resolution instruction provider}

theorem sendsRedacted_render {root : Json} : SendsRedacted root.render ↔ Sends root := by
  constructor
  · exact fun h => h root rfl
  · intro h other hrender
    rw [Json.render_injective hrender]
    exact h

theorem assembled_sends {assembled : AssembledContext}
    (h : assembleProviderContext K S project contextId attemptId target resolution instruction provider = .ok assembled) :
    SendsRedacted assembled.canonicalJson ↔ PlainParts project target attemptId provider := by
  obtain ⟨files, hfiles, hassembled⟩ := Outcome.bind_ok.mp h
  obtain rfl := Outcome.pure_ok.mp hassembled
  obtain ⟨hpaths, hredacted⟩ := assembleContextFiles_ok hfiles
  rw [sendsRedacted_render, contextRoot_sends K S project contextId attemptId target resolution instruction provider
    hredacted, hpaths]
  constructor
  · rintro ⟨hattempt, hpaths, hselected, hprovider⟩
    exact ⟨hpaths, hselected, hattempt, hprovider⟩
  · rintro ⟨hpaths, hselected, hattempt, hprovider⟩
    exact ⟨hattempt, hpaths, hselected, hprovider⟩

/-- What goes out is redacted exactly when the values that nothing redacts hold no token. -/
theorem context_redacted_iff {assembled : AssembledContext} (_ : validateTargetShape K target = .ok ())
    (h : assembleProviderContext K S project contextId attemptId target resolution instruction provider = .ok assembled) :
    SendsRedacted assembled.canonicalJson ↔ PlainParts project target attemptId provider :=
  assembled_sends h

end

/-! ## A path that holds a token -/

def sampleViewport : TargetViewport := ⟨1280, 720, 0, 0, 1, 1, 1⟩

def sampleTarget : TargetRecord where
  schemaVersion := 1
  targetId := "tgt_0123456789abcdef0123456789abcdef".toList
  captureRevisionId := "rev_0123456789abcdef0123456789abcdef".toList
  captureSource := .accepted
  captureProposalId := none
  pagePath := "index.html".toList
  kind := .page
  label := "Page".toList
  viewport := sampleViewport
  document := ⟨1280, 2000, 1⟩
  geometry := none
  point := none
  elementAnchor := none
  textAnchor := none
  regionAnchor := none
  block := none

def sampleResolution : TargetResolution where
  schemaVersion := 1
  resolverVersion := 1
  targetId := sampleTarget.targetId
  captureRevisionId := sampleTarget.captureRevisionId
  resolvedRevisionId := sampleTarget.captureRevisionId
  status := .resolved
  selectedCandidateId := some "candidate-1".toList
  candidates := [⟨"candidate-1".toList, 1, ["semantic_fingerprint".toList, "dom_path".toList], "Page".toList⟩]

def sampleProvider : ProviderBinding :=
  ⟨"fake".toList, "fake-change-set/1".toList, "deterministic-v1".toList, false, "not_applicable".toList,
    "not_applicable".toList⟩

/-- A page and a second file. -/
def sampleProject (path : Text) : Project where
  id := "prj_0123456789abcdef0123456789abcdef".toList
  revisionId := sampleTarget.captureRevisionId
  acceptedFiles := (∅ : Files).insert "index.html".toList (encode "<p>A</p>".toList) |>.insert path (encode "note".toList)

/-- The numbers of the sample are whole. -/
def sampleSerde : Serde where
  decimal value := (toString value.num).toList ++ ".0".toList
  resolutionBytes resolution := encode (resolution.toJson fun value => (toString value.num).toList ++ ".0".toList).render

/-- The Target of the sample is valid, and the files of the page go out with it. -/
theorem sample_checks : validateTargetShape sampleCrates sampleTarget = .ok () ∧
    (∀ path ∈ ["notes/a.txt".toList, "notes/sk-abcdef.txt".toList],
      (assembleContextFiles sampleCrates (sampleProject path) sampleTarget).isOk = true ∧
      contextFilePaths (sampleProject path) sampleTarget = ["index.html".toList, path]) := by
  decide +kernel

def sampleAssembled (path : Text) : Except ApiError AssembledContext :=
  assembleProviderContext sampleCrates sampleSerde (sampleProject path) "ctx_1".toList "att_1".toList sampleTarget
    sampleResolution "Please update.".toList sampleProvider

theorem sampleAssembled_ok (path : Text)
    (h : (assembleContextFiles sampleCrates (sampleProject path) sampleTarget).isOk = true) :
    ∃ assembled, sampleAssembled path = .ok assembled := by
  cases hfiles : assembleContextFiles sampleCrates (sampleProject path) sampleTarget with
  | error error =>
    rw [hfiles] at h
    cases h
  | ok files => exact ⟨_, by rw [sampleAssembled, assembleProviderContext, hfiles]; rfl⟩

/-- With a harmless path everything that goes out is redacted. -/
theorem context_redacted_note : ∃ assembled, sampleAssembled "notes/a.txt".toList = .ok assembled ∧
    SendsRedacted assembled.canonicalJson := by
  obtain ⟨hvalid, hfiles⟩ := sample_checks
  obtain ⟨hok, hpaths⟩ := hfiles "notes/a.txt".toList (by simp)
  obtain ⟨assembled, h⟩ := sampleAssembled_ok _ hok
  refine ⟨assembled, h, (context_redacted_iff hvalid h).mpr ⟨?_, ?_, ?_, ?_⟩⟩
  · rw [hpaths]
    decide
  · decide
  · decide
  · decide

/-- The path of a file goes out with the token in it. -/
theorem path_not_redacted : validateTargetShape sampleCrates sampleTarget = .ok () ∧
    ∃ assembled, sampleAssembled "notes/sk-abcdef.txt".toList = .ok assembled ∧
      ¬SendsRedacted assembled.canonicalJson := by
  obtain ⟨hvalid, hfiles⟩ := sample_checks
  obtain ⟨hok, hpaths⟩ := hfiles "notes/sk-abcdef.txt".toList (by simp)
  obtain ⟨assembled, h⟩ := sampleAssembled_ok _ hok
  refine ⟨hvalid, assembled, h, fun hsends => ?_⟩
  have hpath := ((assembled_sends h).mp hsends).paths "notes/sk-abcdef.txt".toList (by rw [hpaths]; simp)
  exact absurd hpath (by decide)

end LpStudio.Server.Context
