import LpStudio.Lib.Totals
import LpStudio.Storage.CreationFailure

/-! # Collections of generated artifacts
What `persist_generated_artifact` and `delete_generated_artifact` leave, `load_generated_collection` reads: the writer
admits a record by the totals of what it has loaded, the loader accepts one by what is left of the budgets.
-/
namespace LpStudio.Storage
open Str Fault Fault.Program Totals DisplayName RecoveryReader

namespace Store

/-! ## Deletion -/

structure DeleteGenerated where
  projectId : Text
  artifactId : Text
  expectedSha256 : Text
  expectedBytes : Bytes
  kind : GeneratedArtifactKind
  nonce : Text

def DeleteGenerated.deleting (d : DeleteGenerated) : GeneratedStagingName := ⟨true, d.artifactId, d.nonce⟩

inductive DeleteGeneratedStep where
  | validate
  | load (step : CollectionStep)
  | check
  | rename | sync
  | remove | syncRemoved
  deriving DecidableEq, Repr

def DeleteGenerated.validate (K : Crates) (d : DeleteGenerated) : Except StorageError Unit := do
  validateIdentifier d.projectId "prj_".toList
  validateIdentifier d.artifactId d.kind.idPrefix
  validateSha256 d.expectedSha256
  ensure (d.expectedBytes ≠ [] ∧ d.expectedBytes.length ≤ maxGeneratedArchiveBytes ∧
    K.sha256 d.expectedBytes = d.expectedSha256) .corrupt

/-- The record is the one that the caller expects, and its directory is there. -/
def matchesExpected (d : DeleteGenerated) (records : List LoadedGeneratedArtifact) (s : Store) :
    Except StorageError Unit := do
  let record ← Root.present (records.find? (·.manifest.artifactId = d.artifactId))
  ensure (record.manifest.archiveSha256 = d.expectedSha256 ∧ record.archiveZip = d.expectedBytes) .corrupt
  ensure (d.artifactId ∈ (s.generated d.projectId d.kind).records) .corrupt

/-- The rename of the record's directory to a staging name. -/
def retireArtifact (d : DeleteGenerated) : Store → Store :=
  modifyGenerated d.projectId d.kind fun collection =>
    { records := collection.records.erase d.artifactId
      staging := (collection.records[d.artifactId]?).elim collection.staging fun tree =>
        (d.deleting, tree) :: collection.staging }

def deleteGeneratedArtifact (K : Crates) (isObject : ObjectCheck) (d : DeleteGenerated) :
    Program DeleteGeneratedStep Store StorageError Unit := do
  Program.look .io .validate fun _ => d.validate K
  let records ← (loadGeneratedCollection K isObject d.projectId d.kind).relabel .load
  Program.look .io .check (matchesExpected d records)
  .atomic .io .rename (retireArtifact d)
  .atomic .io .sync id
  .atomic .io .remove (dropStaging d.projectId d.kind d.deleting)
  .atomic .io .syncRemoved id

/-! ## Runs of both operations -/

inductive GeneratedOperation where
  | persist (r : PersistGenerated)
  | delete (d : DeleteGenerated)

inductive GeneratedOperationStep where
  | persist (step : GeneratedStep)
  | delete (step : DeleteGeneratedStep)
  deriving DecidableEq, Repr

def GeneratedOperation.run (K : Crates) (isObject : ObjectCheck) :
    GeneratedOperation → Program GeneratedOperationStep Store StorageError Unit
  | .persist r => (persistGeneratedArtifact K isObject r).relabel .persist
  | .delete d => (deleteGeneratedArtifact K isObject d).relabel .delete

/-- Each of the operations returns `Ok`, whatever becomes of its steps. -/
inductive Returns (K : Crates) (isObject : ObjectCheck) : List GeneratedOperation → Store → Store → Prop where
  | nil (s : Store) : Returns K isObject [] s s
  | cons {operation : GeneratedOperation} {operations : List GeneratedOperation}
      {faults : GeneratedOperationStep → Fault.Outcome} {s t u : Store}
      (hrun : operation.run K isObject faults s = (.value (), t)) (hrest : Returns K isObject operations t u) :
      Returns K isObject (operation :: operations) s u

/-! ## What survives -/

abbrev Contents := Std.ExtTreeMap Text LoadedGeneratedArtifact compare

/-- The record of a directory that has all its files. -/
def complete (tree : ArtifactTree) : Option LoadedGeneratedArtifact := do
  return ⟨← tree.manifest, ← tree.archiveZip, ← tree.metadataJson⟩

def contents (projectId : Text) (kind : GeneratedArtifactKind) (s : Store) : Contents :=
  (s.generated projectId kind).records.filterMap fun _ tree => complete tree

def PersistGenerated.record (K : Crates) (r : PersistGenerated) : LoadedGeneratedArtifact :=
  ⟨r.manifest K, r.archiveZip, r.metadataJson⟩

/-- What an operation that returns `Ok` is for. -/
def GeneratedOperation.survivors (K : Crates) (projectId : Text) (kind : GeneratedArtifactKind) :
    Contents → GeneratedOperation → Contents
  | records, .persist r =>
    if projectId = r.projectId ∧ kind = r.kind then records.insert r.artifactId (r.record K) else records
  | records, .delete d =>
    if projectId = d.projectId ∧ kind = d.kind then records.erase d.artifactId else records

def survivors (K : Crates) (projectId : Text) (kind : GeneratedArtifactKind) (operations : List GeneratedOperation)
    (records : Contents) : Contents :=
  operations.foldl (GeneratedOperation.survivors K projectId kind) records

/-! ## What the loader accepts -/

def treeOf (record : LoadedGeneratedArtifact) : ArtifactTree :=
  ⟨some record.archiveZip, some record.metadataJson, some record.manifest⟩

/-- What the loader asks of a record, the budgets apart. -/
structure Intact (K : Crates) (isObject : ObjectCheck) (revisions : Option (List RevisionManifest)) (projectId : Text)
    (kind : GeneratedArtifactKind) (artifactId : Text) (record : LoadedGeneratedArtifact) : Prop where
  manifest : record.manifest = ⟨kind, projectId, artifactId, record.manifest.revisionId, K.sha256 record.archiveZip,
    record.archiveZip.length, K.sha256 record.metadataJson, record.metadataJson.length⟩
  project : validateIdentifier projectId "prj_".toList = .ok ()
  artifact : validateIdentifier artifactId kind.idPrefix = .ok ()
  revision : validateIdentifier record.manifest.revisionId "rev_".toList = .ok ()
  retained : ∃ manifest, readRetainedRevisionManifest K revisions record.manifest.revisionId = .ok manifest
  payload : validateGeneratedPayload isObject record.archiveZip record.metadataJson = .ok ()

section
variable {K : Crates} {isObject : ObjectCheck} {revisions : Option (List RevisionManifest)} {projectId artifactId : Text}
  {kind : GeneratedArtifactKind} {tree : ArtifactTree} {record : LoadedGeneratedArtifact} {a m : ℕ}

theorem payload_ok {archiveZip metadataJson : Bytes} :
    validateGeneratedPayload isObject archiveZip metadataJson = .ok () ↔
      (archiveZip ≠ [] ∧ archiveZip.length ≤ maxGeneratedArchiveBytes ∧ metadataJson ≠ [] ∧
        metadataJson.length ≤ maxGeneratedMetadataBytes) ∧ isObject metadataJson = true := by
  unfold validateGeneratedPayload
  rw [Outcome.check_ok, ensure_ok, ensure_ok]

theorem complete_eq_some : complete tree = some record ↔ tree = treeOf record := by
  obtain ⟨archiveZip, metadataJson, manifest⟩ := tree
  obtain ⟨manifest', archiveZip', metadataJson'⟩ := record
  unfold complete treeOf
  cases manifest <;> cases archiveZip <;> cases metadataJson <;> simp
  tauto

theorem treeOf_injective : Function.Injective treeOf := fun _ _ h =>
  Option.some.inj ((complete_eq_some.mpr rfl).symm.trans (complete_eq_some.mpr h))

/-- A record is read if it is complete and intact and both its files are within what is left. -/
theorem readGeneratedArtifact_ok :
    validateIdentifier artifactId kind.idPrefix = .ok () ∧
        readGeneratedArtifact K isObject revisions projectId artifactId kind tree a m = .ok record ↔
      tree = treeOf record ∧ Intact K isObject revisions projectId kind artifactId record ∧
        record.archiveZip.length ≤ a ∧ record.metadataJson.length ≤ m := by
  constructor
  · rintro ⟨hartifact, h⟩
    simp only [readGeneratedArtifact, Outcome.bind_ok] at h
    obtain ⟨manifest, hmanifest, ⟨⟩, hids, ⟨⟩, hproject, ⟨⟩, -, ⟨⟩, hrevision, ⟨⟩, -, ⟨⟩, -, ⟨⟩, hbounds, retained, hretained,
      archiveZip, harchive, metadataJson, hmetadata, ⟨⟩, hlengths, ⟨⟩, hpayload, ⟨⟩, hdigests, h⟩ := h
    obtain rfl := Outcome.pure_ok.mp h
    obtain ⟨hkind, hprojectId, hartifactId⟩ := ensure_ok.mp hids
    obtain ⟨-, hleft, -, hleft'⟩ := ensure_ok.mp hbounds
    obtain ⟨hlength, hlength'⟩ := ensure_ok.mp hlengths
    obtain ⟨hsha, hsha'⟩ := ensure_ok.mp hdigests
    obtain ⟨archiveZip', metadataJson', manifest'⟩ := tree
    obtain rfl := Root.present_ok.mp hmanifest
    obtain rfl := Root.present_ok.mp harchive
    obtain rfl := Root.present_ok.mp hmetadata
    obtain ⟨kind', projectId', artifactId', revisionId, archiveSha256, archiveByteLength, metadataSha256,
      metadataByteLength⟩ := manifest
    dsimp only at hkind hprojectId hartifactId hlength hlength' hsha hsha' hleft hleft' hproject hrevision hretained
    subst hkind hprojectId hartifactId hlength hlength' hsha hsha'
    exact ⟨rfl, ⟨rfl, hproject, hartifact, hrevision, ⟨retained, hretained⟩, hpayload⟩,
      Nat.le_trans hleft (Nat.min_le_right _ _), Nat.le_trans hleft' (Nat.min_le_right _ _)⟩
  · rintro ⟨rfl, hintact, ha, hm⟩
    refine ⟨hintact.artifact, ?_⟩
    obtain ⟨retained, hretained⟩ := hintact.retained
    obtain ⟨⟨harchive, harchive', hmetadata, hmetadata'⟩, -⟩ := payload_ok.mp hintact.payload
    have hmanifest := hintact.manifest
    obtain ⟨manifest, archiveZip, metadataJson⟩ := record
    dsimp only at hmanifest ha hm hretained harchive harchive' hmetadata hmetadata'
    simp only [readGeneratedArtifact, Outcome.bind_ok]
    refine ⟨manifest, rfl, ⟨⟩, ?_, ⟨⟩, ?_, ⟨⟩, ?_, ⟨⟩, hintact.revision, ⟨⟩, ?_, ⟨⟩, ?_, ⟨⟩, ?_, retained, hretained,
      archiveZip, rfl, metadataJson, rfl, ⟨⟩, ?_, ⟨⟩, hintact.payload, ⟨⟩, ?_, rfl⟩
    · rw [hmanifest]
      exact ensure_ok.mpr ⟨rfl, rfl, rfl⟩
    · rw [hmanifest]
      exact hintact.project
    · rw [hmanifest]
      exact hintact.artifact
    · rw [hmanifest]
      exact sha256_valid K archiveZip
    · rw [hmanifest]
      exact sha256_valid K metadataJson
    · rw [hmanifest]
      exact ensure_ok.mpr ⟨List.length_pos_of_ne_nil harchive, Nat.le_min.mpr ⟨harchive', ha⟩,
        List.length_pos_of_ne_nil hmetadata, Nat.le_min.mpr ⟨hmetadata', hm⟩⟩
    · rw [hmanifest]
      exact ensure_ok.mpr ⟨rfl, rfl⟩
    · rw [hmanifest]
      exact ensure_ok.mpr ⟨rfl, rfl⟩

/-- The loader goes through the budgets record by record; in the end the sums decide. -/
theorem readRecords_ok {entries : List (Text × ArtifactTree)} {records : List LoadedGeneratedArtifact} :
    readRecords K isObject revisions projectId kind a m entries = .ok records ↔
      List.Forall₂ (fun entry record => entry.2 = treeOf record ∧
        Intact K isObject revisions projectId kind entry.1 record) entries records ∧
      (records.map (·.archiveZip.length)).sum ≤ maxGeneratedArchiveBytes - a ∧
      (records.map (·.metadataJson.length)).sum ≤ maxGeneratedCollectionMetadataBytes - m := by
  induction entries generalizing a m records with
  | nil =>
    rw [readRecords, Outcome.pure_ok, List.forall₂_nil_left_iff, eq_comm]
    constructor
    · rintro rfl
      exact ⟨rfl, Nat.zero_le _, Nat.zero_le _⟩
    · exact fun h => h.1
  | cons entry entries ih =>
    obtain ⟨artifactId, tree⟩ := entry
    simp only [readRecords, Outcome.bind_ok, Outcome.pure_ok, List.forall₂_cons_left_iff]
    constructor
    · rintro ⟨⟨⟩, hartifact, record, hrecord, rest, hrest, rfl⟩
      obtain ⟨htree, hintact, ha, hm⟩ := readGeneratedArtifact_ok.mp ⟨hartifact, hrecord⟩
      obtain ⟨hforall, ha', hm'⟩ := ih.mp hrest
      refine ⟨⟨record, rest, ⟨htree, hintact⟩, hforall, rfl⟩, ?_, ?_⟩
      · rw [List.map_cons, List.sum_cons]
        omega
      · rw [List.map_cons, List.sum_cons]
        omega
    · rintro ⟨⟨record, rest, ⟨htree, hintact⟩, hforall, rfl⟩, ha, hm⟩
      rw [List.map_cons, List.sum_cons] at ha hm
      obtain ⟨hartifact, hrecord⟩ := readGeneratedArtifact_ok.mpr ⟨htree, hintact, Nat.le_trans (Nat.le_add_right _ _) ha,
        Nat.le_trans (Nat.le_add_right _ _) hm⟩
      exact ⟨(), hartifact, record, hrecord, rest, ih.mpr ⟨hforall, by omega, by omega⟩, rfl⟩

end

/-- The collection is made of the records, which the loader accepts. -/
structure Holds (K : Crates) (isObject : ObjectCheck) (projectId : Text) (kind : GeneratedArtifactKind)
    (records : Contents) (s : Store) : Prop where
  stored : (s.generated projectId kind).records = records.map fun _ record => treeOf record
  size : records.size ≤ kind.maxRecords
  intact : ∃ tree, s.root.projects[projectId]? = some tree ∧ ∀ artifactId record, records[artifactId]? = some record →
    Intact K isObject tree.revisions projectId kind artifactId record
  archives : total (·.archiveZip.length) records ≤ maxGeneratedArchiveBytes
  metadata : total (·.metadataJson.length) records ≤ maxGeneratedCollectionMetadataBytes

section
variable {K : Crates} {isObject : ObjectCheck} {projectId : Text} {kind : GeneratedArtifactKind} {records : Contents}
  {s t : Store} {found : List LoadedGeneratedArtifact}

theorem Holds.contents_eq (h : Holds K isObject projectId kind records s) : contents projectId kind s = records := by
  refine Std.ExtTreeMap.ext_getElem? fun artifactId => ?_
  rw [contents, h.stored, Std.ExtTreeMap.getElem?_filterMap', Std.ExtTreeMap.getElem?_map]
  cases records[artifactId]? with
  | none => rfl
  | some record => rfl

theorem Holds.reads (h : Holds K isObject projectId kind records s) :
    readGenerated K isObject projectId kind s = .ok (values records) := by
  obtain ⟨tree, htree, hintact⟩ := h.intact
  refine Outcome.bind_ok.mpr ⟨tree, Root.present_ok.mpr htree, Outcome.bind_ok.mpr ⟨(), ?_, ?_⟩⟩
  · rw [h.stored, Std.ExtTreeMap.size_map]
    exact boundedDirectoryEntries_ok.mpr h.size
  · refine readRecords_ok.mpr ⟨?_, h.archives, h.metadata⟩
    rw [h.stored, Std.ExtTreeMap.toList_map, values, List.forall₂_map_left_iff, List.forall₂_map_right_iff,
      List.forall₂_same]
    rintro ⟨artifactId, record⟩ hrecord
    exact ⟨rfl, hintact artifactId record (Std.ExtTreeMap.mem_toList_iff_getElem?_eq_some.mp hrecord)⟩

/-- What the loader accepts is intact and within the budgets. -/
theorem holds_of_reads (h : readGenerated K isObject projectId kind s = .ok found) :
    Holds K isObject projectId kind (contents projectId kind s) s ∧ values (contents projectId kind s) = found := by
  obtain ⟨tree, htree, h⟩ := Outcome.bind_ok.mp h
  obtain ⟨⟨⟩, hsize, h⟩ := Outcome.bind_ok.mp h
  obtain ⟨hforall, harchives, hmetadata⟩ := readRecords_ok.mp h
  have hentry : ∀ artifactId tree', (s.generated projectId kind).records[artifactId]? = some tree' →
      ∃ record, tree' = treeOf record ∧ Intact K isObject tree.revisions projectId kind artifactId record := by
    intro artifactId tree' hentry
    obtain ⟨i, hi, heq⟩ := List.getElem_of_mem (Std.ExtTreeMap.mem_toList_iff_getElem?_eq_some.mpr hentry)
    have hrecord := hforall.get hi (hforall.length_eq ▸ hi)
    rw [List.get_eq_getElem, heq] at hrecord
    exact ⟨_, hrecord⟩
  have hrecords : (s.generated projectId kind).records = (contents projectId kind s).map fun _ record => treeOf record := by
    refine Std.ExtTreeMap.ext_getElem? fun artifactId => ?_
    rw [Std.ExtTreeMap.getElem?_map, contents, Std.ExtTreeMap.getElem?_filterMap']
    cases hget : (s.generated projectId kind).records[artifactId]? with
    | none => rfl
    | some tree' =>
      obtain ⟨record, rfl, -⟩ := hentry artifactId tree' hget
      rfl
  have hvalues : values (contents projectId kind s) = found := by
    rw [hrecords, Std.ExtTreeMap.toList_map, List.forall₂_map_left_iff] at hforall
    have hsame : List.Forall₂ (fun entry record => entry.2 = record) (contents projectId kind s).toList found :=
      hforall.imp fun entry record h => treeOf_injective h.1
    rw [← List.forall₂_map_left_iff, List.forall₂_eq_eq_eq] at hsame
    exact hsame
  refine ⟨⟨hrecords, ?_, ⟨tree, Root.present_ok.mp htree, fun artifactId record hrecord => ?_⟩, ?_, ?_⟩, hvalues⟩
  · rw [← Std.ExtTreeMap.size_map (f := fun _ record => treeOf record), ← hrecords]
    exact boundedDirectoryEntries_ok.mp hsize
  · obtain ⟨record', htree', hintact⟩ := hentry artifactId (treeOf record) (by
      rw [hrecords, Std.ExtTreeMap.getElem?_map, hrecord]; rfl)
    rw [treeOf_injective htree']
    exact hintact
  · rw [total, hvalues]
    exact harchives
  · rw [total, hvalues]
    exact hmetadata

theorem Holds.fewer (hfewer : Fewer s t) (h : Holds K isObject projectId kind records s) :
    Holds K isObject projectId kind records t := by
  refine ⟨(hfewer.records projectId kind).trans h.stored, h.size, ?_, h.archives, h.metadata⟩
  rw [hfewer.root]
  exact h.intact

end

/-! ## What the operations do when they return -/

/-- The collection with the record. -/
def added (K : Crates) (r : PersistGenerated) : Store → Store :=
  modifyGenerated r.projectId r.kind fun collection =>
    { collection with records := collection.records.insert r.artifactId (treeOf (r.record K)) }

/-- The collection without the record. -/
def removed (d : DeleteGenerated) : Store → Store :=
  modifyGenerated d.projectId d.kind fun collection =>
    { collection with records := collection.records.erase d.artifactId }

section
variable {K : Crates} {isObject : ObjectCheck} {projectId : Text} {kind : GeneratedArtifactKind} {records : Contents}
  {s t : Store} {r : PersistGenerated} {d : DeleteGenerated} {f g : GeneratedCollection → GeneratedCollection}

theorem modifyGenerated_modifyGenerated :
    modifyGenerated projectId kind f (modifyGenerated projectId kind g s) = modifyGenerated projectId kind (f ∘ g) s := by
  unfold modifyGenerated
  congr 1
  funext id other
  by_cases h : id = projectId ∧ other = kind
  · simp only [if_pos h, Function.comp_apply]
  · simp only [if_neg h]

theorem modifyGenerated_congr (h : f (s.generated projectId kind) = g (s.generated projectId kind)) :
    modifyGenerated projectId kind f s = modifyGenerated projectId kind g s := by
  unfold modifyGenerated
  congr 1
  funext id other
  split
  · obtain ⟨rfl, rfl⟩ := ‹_ ∧ _›
    exact h
  · rfl

/-- What the writer has built when it renames. -/
def drafted (K : Crates) (r : PersistGenerated) : Store → Store :=
  modifyGenerated r.projectId r.kind fun collection =>
    { collection with staging := [(r.staging, treeOf (r.record K))] }

theorem publishArtifact_drafted (hnone : (t.generated r.projectId r.kind).staging = []) :
    publishArtifact r (drafted K r t) = added K r t := by
  unfold publishArtifact drafted added
  rw [modifyGenerated_modifyGenerated]
  refine modifyGenerated_congr ?_
  dsimp only [Function.comp_apply]
  rw [List.lookup_cons_self, hnone]
  simp

theorem buildArtifact_value {faults : GeneratedStep → Fault.Outcome}
    (hnone : (t.generated r.projectId r.kind).staging = []) :
    Ends (buildArtifact K r) faults (modifyGenerated r.projectId r.kind (fun collection =>
      { collection with staging := (r.staging, ⟨none, none, none⟩) :: collection.staging }) t)
      (fun _ u => u = drafted K r t) (fun _ _ => True) fun _ => True := by
  unfold buildArtifact
  refine Ends.bind (Ends.atomic (fun _ => ?_) (fun _ => trivial) (fun _ _ => trivial) (fun _ => trivial) fun _ _ => trivial)
  refine Ends.bind (Ends.atomic (fun _ => ?_) (fun _ => trivial) (fun _ _ => trivial) (fun _ => trivial) fun _ _ => trivial)
  refine Ends.bind (Ends.atomic (fun _ => ?_) (fun _ => trivial) (fun _ _ => trivial) (fun _ => trivial) fun _ _ => trivial)
  refine Ends.bind (Ends.atomic (fun _ => ?_) (fun _ => trivial) (fun _ _ => trivial) (fun _ => trivial) fun _ _ => trivial)
  refine Ends.look (fun _ _ _ => ?_) (fun _ _ => trivial) (fun _ _ => trivial) fun _ _ => trivial
  unfold changeArtifact drafted
  simp only [id_eq, modifyGenerated_modifyGenerated]
  refine modifyGenerated_congr ?_
  simp only [Function.comp_apply, changeEntry_cons, hnone, List.map_nil]
  rfl

/-- A `persist_generated_artifact` that returns `Ok` has found the record or room for it. -/
theorem persistGeneratedArtifact_value (faults : GeneratedStep → Fault.Outcome) :
    Ends (persistGeneratedArtifact K isObject r) faults s
      (fun _ u => r.validate K isObject s = .ok () ∧ ∃ t existing, Fewer s t ∧
        (t.generated r.projectId r.kind).staging = [] ∧ readGenerated K isObject r.projectId r.kind t = .ok existing ∧
        (u = t ∧ r.record K ∈ existing ∨
          r.admit existing = .ok () ∧ r.artifactId ∉ (t.generated r.projectId r.kind).records ∧ u = added K r t))
      (fun _ _ => True) fun _ => True := by
  unfold persistGeneratedArtifact
  refine Ends.bind (Ends.look (fun _ hvalid _ => ?_) (fun _ _ => trivial) (fun _ _ => trivial) fun _ _ => trivial)
  refine Ends.bind (Ends.relabel ((loadGeneratedCollection_ends _).mono (fun existing t ht => ?_) (fun _ _ _ => trivial)
    fun _ h => h))
  obtain ⟨hfewer, hnone, hread⟩ := ht
  split
  · next record hfind =>
    split
    · next hsame =>
      refine Ends.pure ⟨hvalid, t, existing, hfewer, hnone, hread, .inl ⟨rfl, ?_⟩⟩
      rw [PersistGenerated.record, ← hsame]
      exact List.mem_of_find?_eq_some hfind
    · exact Ends.throw trivial
  · refine Ends.bind (Ends.look (fun _ hstat _ => ?_) (fun _ _ => trivial) (fun _ _ => trivial) fun _ _ => trivial)
    obtain ⟨⟨⟩, hadmitted, habsent⟩ := Outcome.bind_ok.mp hstat
    refine Ends.bind (Ends.atomic (fun _ => ?_) (fun _ => trivial) (fun _ _ => trivial) (fun _ => trivial)
      fun _ _ => trivial)
    refine Ends.bind (Ends.atomic (fun _ => ?_) (fun _ => trivial) (fun _ _ => trivial) (fun _ => trivial)
      fun _ _ => trivial)
    refine publishing_value (buildArtifact_value hnone) ?_
    rintro u rfl
    exact ⟨hvalid, t, existing, hfewer, hnone, hread, .inr ⟨hadmitted, ensure_ok.mp habsent, publishArtifact_drafted hnone⟩⟩

theorem dropStaging_retireArtifact (hnone : (t.generated d.projectId d.kind).staging = []) :
    dropStaging d.projectId d.kind d.deleting (retireArtifact d t) = removed d t := by
  unfold dropStaging retireArtifact removed
  rw [modifyGenerated_modifyGenerated]
  refine modifyGenerated_congr ?_
  dsimp only [Function.comp_apply]
  rw [hnone]
  cases (t.generated d.projectId d.kind).records[d.artifactId]? with
  | none => rfl
  | some tree => simp

theorem deleteGeneratedArtifact_value (faults : DeleteGeneratedStep → Fault.Outcome) :
    Ends (deleteGeneratedArtifact K isObject d) faults s
      (fun _ u => ∃ t, Fewer s t ∧ (t.generated d.projectId d.kind).staging = [] ∧ u = removed d t)
      (fun _ _ => True) fun _ => True := by
  unfold deleteGeneratedArtifact
  refine Ends.bind (Ends.look (fun _ _ _ => ?_) (fun _ _ => trivial) (fun _ _ => trivial) fun _ _ => trivial)
  refine Ends.bind (Ends.relabel ((loadGeneratedCollection_ends _).mono (fun existing t ht => ?_) (fun _ _ _ => trivial)
    fun _ h => h))
  obtain ⟨hfewer, hnone, -⟩ := ht
  refine Ends.bind (Ends.look (fun _ _ _ => ?_) (fun _ _ => trivial) (fun _ _ => trivial) fun _ _ => trivial)
  refine Ends.bind (Ends.atomic (fun _ => ?_) (fun _ => trivial) (fun _ _ => trivial) (fun _ => trivial) fun _ _ => trivial)
  refine Ends.bind (Ends.atomic (fun _ => ?_) (fun _ => trivial) (fun _ _ => trivial) (fun _ => trivial) fun _ _ => trivial)
  refine Ends.bind (Ends.atomic (fun _ => ?_) (fun _ => trivial) (fun _ _ => trivial) (fun _ => trivial) fun _ _ => trivial)
  refine Ends.atomic (fun _ => ?_) (fun _ => trivial) (fun _ _ => trivial) (fun _ => trivial) fun _ _ => trivial
  exact ⟨t, hfewer, hnone, dropStaging_retireArtifact hnone⟩

/-! ## The invariant -/

/-- What an operation on another collection leaves. -/
theorem Holds.modifyGenerated_other {other : Text} {otherKind : GeneratedArtifactKind}
    (h : Holds K isObject projectId kind records s) (hother : ¬ (projectId = other ∧ kind = otherKind)) :
    Holds K isObject projectId kind records (modifyGenerated other otherKind f s) :=
  ⟨(congrArg _ (Store.modifyGenerated_other hother)).trans h.stored, h.size, h.intact, h.archives, h.metadata⟩

/-- The checks of the writer are those of the loader. -/
theorem PersistGenerated.intact {tree : ProjectTree} (hvalid : r.validate K isObject s = .ok ())
    (htree : s.root.projects[r.projectId]? = some tree) :
    Intact K isObject tree.revisions r.projectId r.kind r.artifactId (r.record K) := by
  simp only [PersistGenerated.validate, Outcome.bind_ok] at hvalid
  obtain ⟨⟨⟩, hproject, ⟨⟩, hartifact, ⟨⟩, hrevision, ⟨⟩, hpayload, tree', htree', manifest, hretained, -⟩ := hvalid
  rw [htree] at htree'
  obtain rfl := Option.some.inj (Root.present_ok.mp htree')
  exact ⟨rfl, hproject, hartifact, hrevision, ⟨manifest, hretained⟩, hpayload⟩

theorem Holds.absent (h : Holds K isObject projectId kind records s) {artifactId : Text} :
    artifactId ∉ (s.generated projectId kind).records ↔ artifactId ∉ records := by
  rw [h.stored, Std.ExtTreeMap.mem_map]

/-- The writer admits a record that is not there if and only if the loader accepts the collection with it. -/
theorem Holds.admit_iff (h : Holds K isObject r.projectId r.kind records s) (hvalid : r.validate K isObject s = .ok ())
    (habsent : r.artifactId ∉ records) :
    r.admit (values records) = .ok () ↔
      Holds K isObject r.projectId r.kind (records.insert r.artifactId (r.record K)) (added K r s) := by
  have hsize : (records.insert r.artifactId (r.record K)).size = records.size + 1 := by
    rw [Std.ExtTreeMap.size_insert, if_neg (by simpa using habsent)]
  unfold PersistGenerated.admit
  rw [Outcome.check_ok, ensure_ok, ensure_ok, length_values]
  constructor
  · rintro ⟨hroom, harchives, hmetadata⟩
    refine ⟨?_, ?_, ?_, ?_, ?_⟩
    · rw [added, modifyGenerated_same, h.stored]
      refine Std.ExtTreeMap.ext_getElem? fun artifactId => ?_
      rw [Std.ExtTreeMap.getElem?_map, Std.ExtTreeMap.getElem?_insert, Std.ExtTreeMap.getElem?_insert,
        Std.ExtTreeMap.getElem?_map]
      split
      · rfl
      · rfl
    · rw [hsize]
      exact hroom
    · obtain ⟨tree, htree, hintact⟩ := h.intact
      refine ⟨tree, htree, fun artifactId record hrecord => ?_⟩
      rw [Std.ExtTreeMap.getElem?_insert] at hrecord
      split at hrecord
      · rw [← Std.LawfulEqCmp.eq_of_compare ‹compare r.artifactId artifactId = .eq›, ← Option.some.inj hrecord]
        exact PersistGenerated.intact hvalid htree
      · exact hintact artifactId record hrecord
    · rw [total_insert habsent, Nat.add_comm]
      exact harchives
    · rw [total_insert habsent, Nat.add_comm]
      exact hmetadata
  · intro hadded
    have hroom := hadded.size
    have harchives := hadded.archives
    have hmetadata := hadded.metadata
    rw [hsize] at hroom
    rw [total_insert habsent, Nat.add_comm] at harchives hmetadata
    exact ⟨hroom, harchives, hmetadata⟩

theorem Holds.removed (h : Holds K isObject d.projectId d.kind records s) :
    Holds K isObject d.projectId d.kind (records.erase d.artifactId) (Store.removed d s) := by
  refine ⟨?_, Nat.le_trans Std.ExtTreeMap.size_erase_le h.size, ?_, Nat.le_trans total_erase_le h.archives,
    Nat.le_trans total_erase_le h.metadata⟩
  · rw [Store.removed, modifyGenerated_same, h.stored]
    refine Std.ExtTreeMap.ext_getElem? fun artifactId => ?_
    rw [Std.ExtTreeMap.getElem?_map, Std.ExtTreeMap.getElem?_erase, Std.ExtTreeMap.getElem?_erase,
      Std.ExtTreeMap.getElem?_map]
    split
    · rfl
    · rfl
  · obtain ⟨tree, htree, hintact⟩ := h.intact
    refine ⟨tree, htree, fun artifactId record hrecord => ?_⟩
    rw [Std.ExtTreeMap.getElem?_erase] at hrecord
    split at hrecord
    · cases hrecord
    · exact hintact artifactId record hrecord

end

/-! ## The size of a manifest -/

def maxGeneratedManifestBytes : ℕ := 16 * 1024

def kindName : GeneratedArtifactKind → Text
  | .staticExport => "static_export".toList
  | .publicationDraft => "publication_draft".toList

def manifestFields (manifest : GeneratedArtifactManifest) : List (Text × Json) :=
  [("schemaVersion".toList, .str Backup.storageSchema), ("kind".toList, .str (kindName manifest.kind)),
    ("projectId".toList, .str manifest.projectId), ("artifactId".toList, .str manifest.artifactId),
    ("revisionId".toList, .str manifest.revisionId), ("archiveSha256".toList, .str manifest.archiveSha256),
    ("archiveByteLength".toList, .num manifest.archiveByteLength),
    ("metadataSha256".toList, .str manifest.metadataSha256),
    ("metadataByteLength".toList, .num manifest.metadataByteLength)]

/-- What `manifest.json` holds. -/
def manifestBytes (manifest : GeneratedArtifactManifest) : Bytes := Backup.canonicalBytes (.obj (manifestFields manifest))

theorem length_renderFields (fields : List (Text × Json)) : (encode (Json.renderFields fields)).length ≤
    (fields.map fun field => (encode (Json.quote field.1)).length + (encode field.2.render).length + 2).sum := by
  have hcolon : (encode [':']).length = 1 := by decide
  have hcomma : (encode [',']).length = 1 := by decide
  induction fields with
  | nil => exact Nat.le_refl _
  | cons field fields ih =>
    obtain ⟨name, value⟩ := field
    rw [List.map_cons, List.sum_cons]
    dsimp only
    cases fields with
    | nil =>
      rw [Json.renderFields, ← List.singleton_append, encode_append, encode_append, List.length_append, List.length_append]
      omega
    | cons next fields =>
      rw [Json.renderFields, ← List.singleton_append (x := ':'), ← List.singleton_append (x := ','), encode_append,
        encode_append, encode_append, encode_append, List.length_append, List.length_append, List.length_append,
        List.length_append]
      · omega
      · exact List.cons_ne_nil next fields

theorem length_encode_sha256 (K : Crates) (bytes : Bytes) : (encode (K.sha256 bytes)).length = 64 := by
  have hvalid := sha256_valid K bytes
  unfold validateSha256 at hvalid
  split at hvalid
  · rename_i h
    rw [length_encode_lowerHex h.2, h.1]
  · cases hvalid

theorem length_encode_toDigits {n : ℕ} (h : n ≤ maxGeneratedArchiveBytes) : (encode (Nat.toDigits 10 n)).length ≤ 8 := by
  have hdigits : ∀ digits : Text, (∀ c ∈ digits, c.isDigit = true) → (encode digits).length = digits.length := by
    intro digits hdigits
    refine length_encode_lowerHex (List.all_eq_true.mpr fun c hc => ?_)
    have hc := hdigits c hc
    simp only [Char.isDigit, Bool.and_eq_true, decide_eq_true_eq, ge_iff_le] at hc
    simp only [isLowerHex, isAsciiDigit, Bool.or_eq_true, Bool.and_eq_true, decide_eq_true_eq]
    exact .inl hc
  rw [hdigits _ fun c hc => Nat.isDigit_of_mem_toDigits (by decide) (by decide) hc,
    Nat.length_toDigits_le_iff (by decide) (by decide)]
  unfold maxGeneratedArchiveBytes at h
  omega

/-- The manifest of an intact record is within the bound of its reads. -/
theorem Intact.manifest_length {K : Crates} {isObject : ObjectCheck} {revisions : Option (List RevisionManifest)}
    {projectId artifactId : Text} {kind : GeneratedArtifactKind} {record : LoadedGeneratedArtifact}
    (h : Intact K isObject revisions projectId kind artifactId record) :
    (manifestBytes record.manifest).length ≤ maxGeneratedManifestBytes := by
  have hproject := validateIdentifier_length h.project
  have hartifact := validateIdentifier_length h.artifact
  have hrevision := validateIdentifier_length h.revision
  have hkind : (encode (kindName kind)).length ≤ 17 := by cases kind <;> decide
  have hprefix : (encode kind.idPrefix).length = 4 := by cases kind <;> decide
  have hprefixes : (encode "prj_".toList).length = 4 ∧ (encode "rev_".toList).length = 4 := by decide
  have hsha := length_encode_sha256 K
  obtain ⟨⟨-, harchive, -, hmetadata⟩, -⟩ := payload_ok.mp h.payload
  have hmetadata : record.metadataJson.length ≤ maxGeneratedArchiveBytes := Nat.le_trans hmetadata (by decide)
  have hstr : ∀ value, (encode value).length ≤ 64 → (encode (Json.str value).render).length ≤ 386 := by
    intro value hvalue
    have hquote := length_encode_quote value
    rw [Json.render]
    omega
  have hnum : ∀ n, n ≤ maxGeneratedArchiveBytes → (encode (Json.num n).render).length ≤ 386 := by
    intro n hn
    rw [Json.render]
    exact Nat.le_trans (length_encode_toDigits hn) (by decide)
  have hnames : ∀ field ∈ manifestFields record.manifest, (encode (Json.quote field.1)).length ≤ 20 := by
    simp only [manifestFields, List.forall_mem_cons]
    exact ⟨by decide, by decide, by decide, by decide, by decide, by decide, by decide, by decide, by decide, by simp⟩
  have hvalues : ∀ field ∈ manifestFields record.manifest, (encode field.2.render).length ≤ 386 := by
    rw [h.manifest]
    simp only [manifestFields, List.forall_mem_cons]
    exact ⟨hstr _ (by decide), hstr _ (by omega), hstr _ (by omega), hstr _ (by omega), hstr _ (by omega),
      hstr _ (by rw [hsha]), hnum _ harchive, hstr _ (by rw [hsha]), hnum _ hmetadata, by simp⟩
  have hfields := length_renderFields (manifestFields record.manifest)
  have hsum := List.sum_le_card_nsmul ((manifestFields record.manifest).map fun field =>
    (encode (Json.quote field.1)).length + (encode field.2.render).length + 2) 408 (by
      intro length hlength
      obtain ⟨field, hfield, rfl⟩ := List.mem_map.mp hlength
      have := hnames field hfield
      have := hvalues field hfield
      omega)
  have hcount : ((manifestFields record.manifest).map fun field =>
    (encode (Json.quote field.1)).length + (encode field.2.render).length + 2).length = 9 := rfl
  rw [hcount, smul_eq_mul] at hsum
  have hbrace : (encode ['\x7b']).length = 1 ∧ (encode ['\x7d']).length = 1 := by decide
  rw [manifestBytes, Backup.canonicalBytes, Json.render, ← List.singleton_append, encode_append, encode_append,
    List.length_append, List.length_append]
  unfold maxGeneratedManifestBytes
  omega

/-! ## Machine arithmetic -/

/-- `usize::checked_add` -/
def checkedAdd (bits a b : ℕ) : Option ℕ := if a + b < 2 ^ bits then some (a + b) else none

/-- `-` of a `usize`, with `none` where it overflows. -/
def checkedSub (a b : ℕ) : Option ℕ := if b ≤ a then some (a - b) else none

theorem checkedAdd_eq {bits a b : ℕ} (h : a + b < 2 ^ bits) : checkedAdd bits a b = some (a + b) := if_pos h

theorem checkedSub_eq {a b : ℕ} (h : b ≤ a) : checkedSub a b = some (a - b) := if_pos h

/-- The loop of the loader, with `none` where its arithmetic overflows. -/
def readRecordsChecked (bits : ℕ) (K : Crates) (isObject : ObjectCheck) (revisions : Option (List RevisionManifest))
    (projectId : Text) (kind : GeneratedArtifactKind) :
    ℕ → ℕ → List (Text × ArtifactTree) → Option (Except StorageError (List LoadedGeneratedArtifact))
  | _, _, [] => some (.ok [])
  | archiveTotal, metadataTotal, (artifactId, tree) :: rest =>
    match validateIdentifier artifactId kind.idPrefix with
    | .error e => some (.error e)
    | .ok () => do
      let remainingArchiveBytes ← checkedSub maxGeneratedArchiveBytes archiveTotal
      let remainingMetadataBytes ← checkedSub maxGeneratedCollectionMetadataBytes metadataTotal
      match readGeneratedArtifact K isObject revisions projectId artifactId kind tree remainingArchiveBytes
          remainingMetadataBytes with
      | .error e => some (.error e)
      | .ok record => do
        let archiveTotal ← checkedAdd bits archiveTotal record.archiveZip.length
        let metadataTotal ← checkedAdd bits metadataTotal record.metadataJson.length
        let records ← readRecordsChecked bits K isObject revisions projectId kind archiveTotal metadataTotal rest
        return records.map (record :: ·)

/-- The totals of the writer, with `none` where they overflow. -/
def PersistGenerated.admitChecked (bits : ℕ) (r : PersistGenerated) (existing : List LoadedGeneratedArtifact) :
    Option (Except StorageError Unit) :=
  if existing.length < r.kind.maxRecords then do
    let archiveTotal ← existing.foldlM (fun total record => checkedAdd bits total record.archiveZip.length) 0
    let metadataTotal ← existing.foldlM (fun total record => checkedAdd bits total record.metadataJson.length) 0
    let archiveTotal ← checkedAdd bits archiveTotal r.archiveZip.length
    let metadataTotal ← checkedAdd bits metadataTotal r.metadataJson.length
    return ensure (archiveTotal ≤ maxGeneratedArchiveBytes ∧ metadataTotal ≤ maxGeneratedCollectionMetadataBytes) .corrupt
  else some (.error .corrupt)

section
variable {K : Crates} {isObject : ObjectCheck} {revisions : Option (List RevisionManifest)} {projectId : Text}
  {kind : GeneratedArtifactKind} {bits : ℕ}

/-- Twice a budget fits into a word. -/
theorem budgets_fit (hbits : 32 ≤ bits) : 2 * maxGeneratedArchiveBytes < 2 ^ bits :=
  Nat.lt_of_lt_of_le (by decide) (Nat.pow_le_pow_right (by decide) hbits)

theorem readRecordsChecked_eq (hbits : 32 ≤ bits) {entries : List (Text × ArtifactTree)} {a m : ℕ}
    (ha : a ≤ maxGeneratedArchiveBytes) (hm : m ≤ maxGeneratedCollectionMetadataBytes) :
    readRecordsChecked bits K isObject revisions projectId kind a m entries =
      some (readRecords K isObject revisions projectId kind a m entries) := by
  have hfit := budgets_fit hbits
  have hsmaller : maxGeneratedCollectionMetadataBytes ≤ maxGeneratedArchiveBytes := by decide
  induction entries generalizing a m with
  | nil => rfl
  | cons entry entries ih =>
    obtain ⟨artifactId, tree⟩ := entry
    rw [readRecordsChecked, readRecords, checkedSub_eq ha, checkedSub_eq hm]
    cases hartifact : validateIdentifier artifactId kind.idPrefix with
    | error e => rfl
    | ok _ =>
      cases hrecord : readGeneratedArtifact K isObject revisions projectId artifactId kind tree
          (maxGeneratedArchiveBytes - a) (maxGeneratedCollectionMetadataBytes - m) with
      | error e =>
        simp [hrecord, bind, Except.bind]
      | ok record =>
        obtain ⟨-, -, hleft, hleft'⟩ := readGeneratedArtifact_ok.mp ⟨hartifact, hrecord⟩
        have hrest := ih (a := a + record.archiveZip.length) (m := m + record.metadataJson.length) (by omega) (by omega)
        have hadd : checkedAdd bits a record.archiveZip.length = some (a + record.archiveZip.length) :=
          checkedAdd_eq (by omega)
        have hadd' : checkedAdd bits m record.metadataJson.length = some (m + record.metadataJson.length) :=
          checkedAdd_eq (by omega)
        simp only [Option.bind_eq_bind, Option.bind_some, hrecord, hadd, hadd', hrest]
        rfl

theorem foldlM_checkedAdd {existing : List LoadedGeneratedArtifact} {weight : LoadedGeneratedArtifact → ℕ} {total : ℕ}
    (h : total + (existing.map weight).sum < 2 ^ bits) :
    existing.foldlM (fun total record => checkedAdd bits total (weight record)) total =
      some (total + (existing.map weight).sum) := by
  induction existing generalizing total with
  | nil => rfl
  | cons record existing ih =>
    rw [List.map_cons, List.sum_cons] at h ⊢
    rw [List.foldlM_cons, checkedAdd_eq (by omega)]
    exact (ih (by omega)).trans (by rw [Nat.add_assoc])

theorem PersistGenerated.admitChecked_eq (hbits : 32 ≤ bits) {r : PersistGenerated}
    {existing : List LoadedGeneratedArtifact}
    (harchives : (existing.map (·.archiveZip.length)).sum ≤ maxGeneratedArchiveBytes)
    (hmetadata : (existing.map (·.metadataJson.length)).sum ≤ maxGeneratedCollectionMetadataBytes)
    (hpayload : validateGeneratedPayload isObject r.archiveZip r.metadataJson = .ok ()) :
    r.admitChecked bits existing = some ( r.admit existing) := by
  have hfit := budgets_fit hbits
  have hsmaller : maxGeneratedCollectionMetadataBytes ≤ maxGeneratedArchiveBytes := by decide
  have hsmaller' : maxGeneratedMetadataBytes ≤ maxGeneratedArchiveBytes := by decide
  obtain ⟨⟨-, harchive, -, hmetadata'⟩, -⟩ := payload_ok.mp hpayload
  unfold PersistGenerated.admitChecked PersistGenerated.admit
  by_cases hroom : existing.length < r.kind.maxRecords
  · rw [if_pos hroom, foldlM_checkedAdd (by omega), foldlM_checkedAdd (by omega)]
    simp only [Option.bind_eq_bind, Option.bind_some, Nat.zero_add]
    rw [checkedAdd_eq (by omega), checkedAdd_eq (by omega)]
    rw [ensure, if_pos hroom]
    rfl
  · rw [if_neg hroom, ensure, if_neg hroom]
    rfl

end

/-! ## Runs -/

/-- The collection holds the records, with no more in staging than an open allows. -/
structure Keeps (K : Crates) (isObject : ObjectCheck) (projectId : Text) (kind : GeneratedArtifactKind)
    (records : Contents) (s : Store) : Prop where
  holds : Holds K isObject projectId kind records s
  staging : (s.generated projectId kind).staging.length ≤ maxGeneratedStagingEntries

section
variable {K : Crates} {isObject : ObjectCheck} {projectId : Text} {kind : GeneratedArtifactKind} {records : Contents}
  {s t : Store} {operations : List GeneratedOperation}

theorem Keeps.fewer (h : Keeps K isObject projectId kind records s) (hfewer : Fewer s t) :
    Keeps K isObject projectId kind records t :=
  ⟨h.holds.fewer hfewer, Nat.le_trans (hfewer.staging projectId kind) h.staging⟩

theorem Keeps.modifyGenerated_other {other : Text} {otherKind : GeneratedArtifactKind}
    {f : GeneratedCollection → GeneratedCollection} (h : Keeps K isObject projectId kind records s)
    (hother : ¬ (projectId = other ∧ kind = otherKind)) :
    Keeps K isObject projectId kind records (modifyGenerated other otherKind f s) := by
  refine ⟨h.holds.modifyGenerated_other hother, ?_⟩
  rw [Store.modifyGenerated_other hother]
  exact h.staging

/-- What persisting a record again does to the collection: nothing. -/
theorem Holds.insert_found {r : PersistGenerated} (h : Holds K isObject r.projectId r.kind records s)
    (hfound : r.record K ∈ values records) : records.insert r.artifactId (r.record K) = records := by
  obtain ⟨artifactId, hrecord⟩ := mem_values.mp hfound
  obtain ⟨tree, -, hintact⟩ := h.intact
  have hid : artifactId = r.artifactId :=
    (congrArg GeneratedArtifactManifest.artifactId (hintact artifactId _ hrecord).manifest).symm
  rw [hid] at hrecord
  exact insert_same hrecord

/-- One operation that returns `Ok`. -/
theorem Keeps.step {operation : GeneratedOperation} {faults : GeneratedOperationStep → Fault.Outcome}
    (h : Keeps K isObject projectId kind records s) (hrun : operation.run K isObject faults s = (.value (), t)) :
    Keeps K isObject projectId kind (operation.survivors K projectId kind records) t := by
  cases operation with
  | persist r =>
    obtain ⟨hvalid, u, existing, hfewer, hnone, hread, hcase⟩ :=
      ends_value (Ends.relabel (persistGeneratedArtifact_value _)) hrun
    have hu := h.fewer hfewer
    rw [GeneratedOperation.survivors]
    split
    · obtain ⟨rfl, rfl⟩ := ‹_ ∧ _›
      rw [hu.holds.reads] at hread
      obtain rfl := Except.ok.inj hread
      rcases hcase with ⟨rfl, hfound⟩ | ⟨hadmitted, habsent, rfl⟩
      · rw [hu.holds.insert_found hfound]
        exact hu
      · have hvalid' : r.validate K isObject u = .ok () := by
          unfold PersistGenerated.validate
          rw [hfewer.root]
          exact hvalid
        refine ⟨(hu.holds.admit_iff hvalid' (hu.holds.absent.mp habsent)).mp hadmitted, ?_⟩
        rw [added, modifyGenerated_same]
        exact hu.staging
    · rcases hcase with ⟨rfl, -⟩ | ⟨-, -, rfl⟩
      · exact hu
      · exact hu.modifyGenerated_other ‹_›
  | delete d =>
    obtain ⟨u, hfewer, hnone, rfl⟩ := ends_value (Ends.relabel (deleteGeneratedArtifact_value _)) hrun
    have hu := h.fewer hfewer
    rw [GeneratedOperation.survivors]
    split
    · obtain ⟨rfl, rfl⟩ := ‹_ ∧ _›
      refine ⟨hu.holds.removed, ?_⟩
      rw [Store.removed, modifyGenerated_same]
      exact hu.staging
    · exact hu.modifyGenerated_other ‹_›

theorem Keeps.run (hrun : Returns K isObject operations s t) (h : Keeps K isObject projectId kind records s) :
    Keeps K isObject projectId kind (survivors K projectId kind operations records) t := by
  induction hrun generalizing records with
  | nil s => exact h
  | cons hstep _ ih => exact ih (h.step hstep)

end

/-- After operations that return `Ok` on a collection that could be loaded, the loader returns the surviving records, and
no other value; it accepts a further record exactly if the writer admits it; the manifests are within the bound of their
reads; and no subtraction or addition overflows, of the writer on what was loaded or of the loader on any directory. -/
theorem generatedCollection_closed (K : Crates) (isObject : ObjectCheck) {bits : ℕ} (hbits : 32 ≤ bits) {projectId : Text}
    {kind : GeneratedArtifactKind} {operations : List GeneratedOperation} {s t : Store}
    {initial : List LoadedGeneratedArtifact} (hinitial : readGenerated K isObject projectId kind s = .ok initial)
    (hstaging : (s.generated projectId kind).staging.length ≤ maxGeneratedStagingEntries)
    (hrun : Returns K isObject operations s t) :
    let surviving := survivors K projectId kind operations (contents projectId kind s)
    Yields (loadGeneratedCollection K isObject projectId kind) t (fun found _ => found = values surviving) ∧
    (∀ faults found u, loadGeneratedCollection K isObject projectId kind faults t = (.value found, u) →
      found = values surviving) ∧
    (∀ r : PersistGenerated, r.projectId = projectId → r.kind = kind → r.validate K isObject t = .ok () →
      r.artifactId ∉ surviving → ((∃ found, readGenerated K isObject projectId kind (added K r t) = .ok found) ↔
        r.admit (values surviving) = .ok ())) ∧
    (∀ record ∈ values surviving, (manifestBytes record.manifest).length ≤ maxGeneratedManifestBytes) ∧
    (∀ r : PersistGenerated, validateGeneratedPayload isObject r.archiveZip r.metadataJson = .ok () →
      r.admitChecked bits (values surviving) = some ( r.admit (values surviving))) ∧
    ∀ revisions entries, readRecordsChecked bits K isObject revisions projectId kind 0 0 entries =
      some (readRecords K isObject revisions projectId kind 0 0 entries) := by
  intro surviving
  obtain ⟨hstart, -⟩ := holds_of_reads hinitial
  have h : Keeps K isObject projectId kind surviving t := Keeps.run hrun ⟨hstart, hstaging⟩
  refine ⟨?_, fun faults found u hload => ?_, ?_, fun record hrecord => ?_, fun r hpayload => ?_, fun _ _ => ?_⟩
  · exact (loadGeneratedCollection_yields h.staging h.holds.reads).mono fun _ _ hfound => hfound.1
  · obtain ⟨hfewer, -, hread⟩ := ends_value (loadGeneratedCollection_ends faults) hload
    rw [(h.holds.fewer hfewer).reads] at hread
    exact (Except.ok.inj hread).symm
  · rintro r rfl rfl hvalid habsent
    rw [h.holds.admit_iff hvalid habsent]
    refine ⟨fun hread => ?_, fun hadded => ⟨_, hadded.reads⟩⟩
    obtain ⟨found, hread⟩ := hread
    obtain ⟨hadded, -⟩ := holds_of_reads hread
    have hcontents : contents r.projectId r.kind (added K r t) = surviving.insert r.artifactId (r.record K) := by
      refine Std.ExtTreeMap.ext_getElem? fun artifactId => ?_
      rw [contents, added, modifyGenerated_same, h.holds.stored, Std.ExtTreeMap.getElem?_filterMap',
        Std.ExtTreeMap.getElem?_insert, Std.ExtTreeMap.getElem?_insert, Std.ExtTreeMap.getElem?_map]
      split
      · rfl
      · cases surviving[artifactId]? with
        | none => rfl
        | some record => rfl
    rw [hcontents] at hadded
    exact hadded
  · obtain ⟨artifactId, hget⟩ := mem_values.mp hrecord
    obtain ⟨tree, -, hintact⟩ := h.holds.intact
    exact (hintact artifactId record hget).manifest_length
  · exact PersistGenerated.admitChecked_eq hbits h.holds.archives h.holds.metadata hpayload
  · exact readRecordsChecked_eq hbits (Nat.zero_le _) (Nat.zero_le _)

/-! ### A sample -/

def samplePersist : PersistGenerated where
  projectId := Root.sampleRevision.projectId
  artifactId := "exp_".toList ++ List.replicate 32 '0'
  revisionId := Root.sampleRevision.pointer.revisionId
  kind := .staticExport
  archiveZip := [1]
  metadataJson := [2]
  nonce := List.replicate 32 '0'

def sampleTree : ProjectTree where
  creating := false
  project := some samplePersist.projectId
  layoutMarker := true
  current := none
  site := none
  revisions := some [⟨samplePersist.revisionId, Root.sampleRevision.pointer.artifactManifestSha256, [],
    Root.sampleRevision.pointer.canonicalManifestSha256⟩]
  proposals := none
  directories := ["exports".toList]

def sampleStore : Store :=
  { emptyStore with root := { emptyStore.root with
    projects := (∅ : Std.ExtTreeMap Text ProjectTree compare).insert samplePersist.projectId sampleTree } }

theorem sample_valid : samplePersist.validate sampleCrates (fun _ => true) sampleStore = .ok () := by
  unfold PersistGenerated.validate
  refine Outcome.bind_ok.mpr ⟨(), by decide, Outcome.bind_ok.mpr ⟨(), by decide, Outcome.bind_ok.mpr ⟨(), by decide,
    Outcome.bind_ok.mpr ⟨(), by decide, Outcome.bind_ok.mpr ⟨sampleTree, ?_, ?_⟩⟩⟩⟩⟩
  · refine Root.present_ok.mpr ?_
    exact Std.ExtTreeMap.getElem?_insert_self
  · refine Outcome.bind_ok.mpr ⟨⟨samplePersist.revisionId, Root.sampleRevision.pointer.artifactManifestSha256, [],
      Root.sampleRevision.pointer.canonicalManifestSha256⟩, ?_, rfl⟩
    decide

theorem sample_reads : readGenerated sampleCrates (fun _ => true) samplePersist.projectId .staticExport sampleStore = .ok [] := by
  refine Outcome.bind_ok.mpr ⟨sampleTree, Root.present_ok.mpr Std.ExtTreeMap.getElem?_insert_self, Outcome.bind_ok.mpr
    ⟨(), boundedDirectoryEntries_ok.mpr ?_, ?_⟩⟩
  · change (∅ : Std.ExtTreeMap Text ArtifactTree compare).size ≤ _
    rw [Std.ExtTreeMap.size_empty]
    exact Nat.zero_le _
  · have hnone : (∅ : Std.ExtTreeMap Text ArtifactTree compare).toList = [] := rfl
    change readRecords _ _ _ _ _ 0 0 (∅ : Std.ExtTreeMap Text ArtifactTree compare).toList = _
    rw [hnone]
    rfl

/-- Where nothing fails, the first record is persisted. -/
theorem sample_returns : ∃ t, Returns sampleCrates (fun _ => true) [.persist samplePersist] sampleStore t := by
  have habsent : ∀ u : Store, (u.generated samplePersist.projectId samplePersist.kind).records = ∅ →
      artifactAbsent samplePersist u = .ok () := by
    intro u hu
    refine ensure_ok.mpr ?_
    rw [hu]
    exact Std.ExtTreeMap.not_mem_empty
  have hpersist : Yields (persistGeneratedArtifact sampleCrates (fun _ => true) samplePersist) sampleStore
      fun _ _ => True := by
    refine Yields.bind (Yields.look sample_valid (Yields.bind (Yields.relabel ((loadGeneratedCollection_yields
      (Nat.zero_le _) sample_reads).mono fun existing t ht => ?_))))
    obtain ⟨rfl, ht⟩ := ht
    have hrecords : (t.generated samplePersist.projectId samplePersist.kind).records = ∅ := ht.records _ _
    refine Yields.bind (Yields.look (a := ()) (Outcome.bind_ok.mpr ⟨(), by decide, habsent t hrecords⟩)
      (Yields.bind (Yields.atomic (Yields.bind (Yields.atomic ?_)))))
    have hbuild : Yields (buildArtifact sampleCrates samplePersist) (modifyGenerated samplePersist.projectId
        samplePersist.kind (fun collection =>
          { collection with staging := (samplePersist.staging, ⟨none, none, none⟩) :: collection.staging }) t)
        fun _ _ => True := by
      refine Yields.bind (Yields.atomic (Yields.bind (Yields.atomic (Yields.bind (Yields.atomic (Yields.bind (Yields.atomic
        (Yields.look (habsent _ ?_) trivial))))))))
      simp only [id_eq, changeArtifact, modifyGenerated_same]
      exact hrecords
    obtain ⟨a, u, heq, -⟩ := hbuild
    exact ⟨⟨⟩, _, publishing_smooth heq, trivial⟩
  obtain ⟨⟨⟩, t, heq, -⟩ := hpersist
  have hrun : (GeneratedOperation.persist samplePersist).run sampleCrates (fun _ => true) smooth sampleStore =
      (.value (), t) := heq
  exact ⟨t, .cons hrun (.nil t)⟩

/-- The loader returns the one record. -/
theorem generatedCollection_closed_first : ∃ t, Returns sampleCrates (fun _ => true) [.persist samplePersist] sampleStore t ∧
    Yields (loadGeneratedCollection sampleCrates (fun _ => true) samplePersist.projectId .staticExport) t
      fun found _ => found = values (survivors sampleCrates samplePersist.projectId .staticExport [.persist samplePersist]
        (contents samplePersist.projectId .staticExport sampleStore)) := by
  obtain ⟨t, hrun⟩ := sample_returns
  have hbits : 32 ≤ 64 := by decide
  exact ⟨t, hrun, (generatedCollection_closed sampleCrates (fun _ => true) hbits sample_reads (Nat.zero_le _) hrun).1⟩

end Store
end LpStudio.Storage
