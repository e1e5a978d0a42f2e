import LpStudio.Storage.Bindings

/-! # Sound roots
A root is sound if every check of an open holds of its published projects, and no two files that it mentions disagree
about an object. A sound root stays sound when objects go that no published project names.
-/
namespace LpStudio.Storage
open Str Fault Fault.Program

/-- The object of the file, if it is there, is the file's. -/
def Loose (K : Crates) (objects : Objects) (file : StoredFile) : Prop :=
  ∀ bytes, objects[file.sha256]? = some bytes → bytes.length = file.byteLength ∧ K.sha256 bytes = file.sha256

/-- The project names the file, or a tree of its staging does. -/
def ProjectTree.Mentions (K : Crates) (tree : ProjectTree) (file : StoredFile) : Prop :=
  tree.Names K file ∨ ∃ dir, tree.proposals = some dir ∧ ∃ entry ∈ dir.staging, file ∈ entry.2.files K

namespace Root

def Mentions (K : Crates) (s : Root) (file : StoredFile) : Prop :=
  (∃ (id : Text) (tree : ProjectTree), s.projects[id]? = some tree ∧ tree.Mentions K file) ∨
    ∃ entry ∈ s.deleting, entry.2.Mentions K file

/-! ## What an open reads -/

/-- The project that a load returns. -/
def readProject (K : Crates) (objects : Objects) (id : Text) (tree : ProjectTree) :
    Except StorageError PersistedProject := do
  let (pointer, files) ← validateProject K objects id tree
  let dir ← present tree.proposals
  let proposals ← loadRetained K { dir with staging := [] }
  return ⟨id, pointer.revisionId, pointer.artifactManifestSha256, files, proposals⟩

def readProjectOf (K : Crates) (s : Root) (id : Text) : Except StorageError PersistedProject := do
  readProject K s.objects id (← present s.projects[id]?)

/-- What an open returns. -/
def Loads (K : Crates) (s : Root) (projects : List PersistedProject) : Prop :=
  s.projects.keys.mapM (readProjectOf K s) = .ok projects

/-! ## Soundness -/

structure SoundProject (K : Crates) (objects : Objects) (id : Text) (tree : ProjectTree) : Prop where
  name : validateIdentifier id "prj_".toList = .ok ()
  valid : ∃ found, validateProject K objects id tree = .ok found
  inventory : ∀ dir, tree.proposals = some dir → preflightProposalInventory K dir = .ok ()

structure Sound (K : Crates) (s : Root) : Prop where
  projects : ∀ (id : Text) (tree : ProjectTree), s.projects[id]? = some tree → SoundProject K s.objects id tree
  count : s.projects.size ≤ maxPersistedProjects
  entries : s.projects.size + s.deleting.length ≤ maxPersistedProjects + 32
  backups : ∀ backup ∈ s.backups, validateIdentifier backup.id "bkp_".toList = .ok ()
  backupCount : s.backups.length ≤ maxRecoveryBackups
  agree : ∀ f g, s.Mentions K f → s.Mentions K g → f.sha256 = g.sha256 → f.byteLength = g.byteLength
  loose : ∀ f, s.Mentions K f → Loose K s.objects f

/-! ## The checks of a project -/

section
variable {K : Crates} {objects objects' : Objects} {tree : ProjectTree} {id : Text}

theorem validateAllRetainedRevisions_ok {revisions : List RevisionManifest} :
    validateAllRetainedRevisions K objects revisions = .ok () ↔
      revisions.length ≤ maxRetainedRevisions ∧ revisions ≠ [] ∧ ∀ manifest ∈ revisions,
        validateManifest K manifest = .ok () ∧ ∃ files, loadManifestFiles K objects manifest = .ok files := by
  have hforM : (revisions.forM fun manifest => do
      validateManifest K manifest
      let _ ← loadManifestFiles K objects manifest) = .ok ⟨⟩ ↔ ∀ manifest ∈ revisions,
        validateManifest K manifest = .ok () ∧ ∃ files, loadManifestFiles K objects manifest = .ok files := by
    rw [Outcome.forM_ok]
    refine forall₂_congr fun manifest _ => ?_
    rw [Outcome.bind_ok]
    constructor
    · rintro ⟨⟨⟩, hvalid, hload⟩
      obtain ⟨files, hfiles, -⟩ := Outcome.bind_ok.mp hload
      exact ⟨hvalid, files, hfiles⟩
    · rintro ⟨hvalid, files, hfiles⟩
      exact ⟨(), hvalid, Outcome.bind_ok.mpr ⟨files, hfiles, rfl⟩⟩
  unfold validateAllRetainedRevisions
  rw [Outcome.bind_ok]
  constructor
  · rintro ⟨⟨⟩, hcount, h⟩
    obtain ⟨⟨⟩, hnonempty, h⟩ := Outcome.bind_ok.mp h
    exact ⟨boundedDirectoryEntries_ok.mp hcount, ensure_ok.mp hnonempty, hforM.mp h⟩
  · rintro ⟨hcount, hnonempty, h⟩
    exact ⟨(), boundedDirectoryEntries_ok.mpr hcount, Outcome.bind_ok.mpr ⟨(), ensure_ok.mpr hnonempty, hforM.mpr h⟩⟩

/-- What the checks of a project find. -/
structure Found (K : Crates) (objects : Objects) (id : Text) (tree : ProjectTree) (pointer : CurrentPointer)
    (files : List (Text × Bytes)) (revisions : List RevisionManifest) (manifest : RevisionManifest) : Prop where
  stable : validateStableProject tree = .ok ()
  project : tree.project = some id
  current : tree.current = some pointer
  pointerValid : validatePointer pointer = .ok ()
  retained : tree.revisions = some revisions
  read : readManifest K revisions pointer = .ok manifest
  load : loadManifestFiles K objects manifest = .ok files
  site : validateSite K tree manifest = .ok ()
  all : validateAllRetainedRevisions K objects revisions = .ok ()

theorem validateProject_ok {pointer : CurrentPointer} {files : List (Text × Bytes)} :
    validateProject K objects id tree = .ok (pointer, files) ↔
      ∃ revisions manifest, Found K objects id tree pointer files revisions manifest := by
  simp only [validateProject, Outcome.bind_ok, present_ok]
  constructor
  · rintro ⟨⟨⟩, h1, ⟨⟩, h2, p, h3, ⟨⟩, h4, revisions, h5, manifest, h6, f, h7, ⟨⟩, h8, ⟨⟩, h9, h⟩
    cases h
    exact ⟨revisions, manifest, h1, ensure_ok.mp h2, h3, h4, h5, h6, h7, h8, h9⟩
  · rintro ⟨revisions, manifest, h1, h2, h3, h4, h5, h6, h7, h8, h9⟩
    exact ⟨(), h1, (), ensure_ok.mpr h2, pointer, h3, (), h4, revisions, h5, manifest, h6, files, h7, (), h8, (), h9, rfl⟩

theorem mem_of_readManifest {revisions : List RevisionManifest} {pointer : CurrentPointer}
    {manifest : RevisionManifest} (h : readManifest K revisions pointer = .ok manifest) : manifest ∈ revisions := by
  unfold readManifest at h
  split at h
  · cases h
  · rename_i found hfound
    obtain ⟨⟨⟩, -, h⟩ := Outcome.bind_ok.mp h
    obtain ⟨⟨⟩, -, h⟩ := Outcome.bind_ok.mp h
    cases h
    exact List.mem_of_find?_eq_some hfound

/-- The objects of what the project names are all kept. -/
def Kept (K : Crates) (objects objects' : Objects) (tree : ProjectTree) : Prop :=
  ∀ file, tree.Names K file → ∀ bytes, objects[file.sha256]? = some bytes → objects'[file.sha256]? = some bytes

theorem loadManifestFiles_kept {manifest : RevisionManifest} {files : List (Text × Bytes)}
    (h : loadManifestFiles K objects manifest = .ok files)
    (hkept : ∀ file ∈ manifest.files, ∀ bytes, objects[file.sha256]? = some bytes → objects'[file.sha256]? = some bytes) :
    loadManifestFiles K objects' manifest = .ok files := by
  refine Outcome.mapM_imp h fun file hfile found hfound => ?_
  unfold readObject at hfound ⊢
  split at hfound
  · cases hfound
  · rename_i bytes hbytes
    rw [hkept file hfile bytes hbytes]
    exact hfound

theorem validateProject_kept {found : CurrentPointer × List (Text × Bytes)}
    (h : validateProject K objects id tree = .ok found) (hkept : Kept K objects objects' tree) :
    validateProject K objects' id tree = .ok found := by
  obtain ⟨revisions, manifest, h⟩ := validateProject_ok.mp h
  have hload : ∀ manifest ∈ revisions, ∀ files, loadManifestFiles K objects manifest = .ok files →
      loadManifestFiles K objects' manifest = .ok files := by
    intro manifest hmanifest files hfiles
    refine loadManifestFiles_kept hfiles fun file hfile => hkept file (.inl ⟨revisions, h.retained, manifest, hmanifest, hfile⟩)
  obtain ⟨hcount, hnonempty, hall⟩ := validateAllRetainedRevisions_ok.mp h.all
  refine validateProject_ok.mpr ⟨revisions, manifest, { h with load := ?_, all := ?_ }⟩
  · exact hload manifest (mem_of_readManifest h.read) _ h.load
  · refine validateAllRetainedRevisions_ok.mpr ⟨hcount, hnonempty, fun manifest hmanifest => ?_⟩
    obtain ⟨hvalid, files, hfiles⟩ := hall manifest hmanifest
    exact ⟨hvalid, files, hload manifest hmanifest files hfiles⟩

/-- The checks of a project ask no more of its proposals than that they are there. -/
theorem validateProject_proposals {f : ProposalsDirectory → ProposalsDirectory} :
    validateProject K objects id { tree with proposals := tree.proposals.map f } = validateProject K objects id tree := by
  unfold validateProject validateStableProject validateDirectories validateSite
  rw [Option.isSome_map]

theorem proposals_isSome {found : CurrentPointer × List (Text × Bytes)}
    (h : validateProject K objects id tree = .ok found) : ∃ dir, tree.proposals = some dir := by
  obtain ⟨revisions, manifest, h⟩ := validateProject_ok.mp h
  obtain ⟨⟨⟩, hstable, -⟩ := Outcome.bind_ok.mp h.stable
  exact Option.isSome_iff_exists.mp (ensure_ok.mp hstable).2.2.2.2.2.2

theorem readProject_ok {project : PersistedProject} :
    readProject K objects id tree = .ok project ↔ ∃ pointer files dir proposals,
      validateProject K objects id tree = .ok (pointer, files) ∧ tree.proposals = some dir ∧
        loadRetained K { dir with staging := [] } = .ok proposals ∧
        (⟨id, pointer.revisionId, pointer.artifactManifestSha256, files, proposals⟩ : PersistedProject) = project := by
  unfold readProject
  simp only [Outcome.bind_ok, present_ok, Prod.exists]
  constructor
  · rintro ⟨pointer, files, h1, dir, h2, proposals, h3, h4⟩
    exact ⟨pointer, files, dir, proposals, h1, h2, h3, Except.ok.inj h4⟩
  · rintro ⟨pointer, files, dir, proposals, h1, h2, h3, rfl⟩
    exact ⟨pointer, files, h1, dir, h2, proposals, h3, rfl⟩

theorem validateProposalNames_ok {dir : ProposalsDirectory} : validateProposalNames dir = .ok () ↔
    (∀ entry ∈ dir.retained, validateIdentifier entry.1 "pro_".toList = .ok ()) ∧
      dir.retained.length ≤ maxPersistedProposals ∧ dir.staging.length ≤ maxStagingEntries := by
  have hids : (dir.retained.forM fun entry => validateIdentifier entry.1 "pro_".toList) = .ok ⟨⟩ ↔
      ∀ entry ∈ dir.retained, validateIdentifier entry.1 "pro_".toList = .ok () := Outcome.forM_ok
  unfold validateProposalNames
  rw [Outcome.bind_ok]
  constructor
  · rintro ⟨⟨⟩, h1, h⟩
    obtain ⟨⟨⟩, h2, h3⟩ := Outcome.bind_ok.mp h
    exact ⟨hids.mp h1, boundedDirectoryEntries_ok.mp h2, boundedDirectoryEntries_ok.mp h3⟩
  · rintro ⟨h1, h2, h3⟩
    exact ⟨(), hids.mpr h1, Outcome.bind_ok.mpr ⟨(), boundedDirectoryEntries_ok.mpr h2, boundedDirectoryEntries_ok.mpr h3⟩⟩

theorem preflightProposalInventory_ok {dir : ProposalsDirectory} :
    preflightProposalInventory K dir = .ok () ↔ validateProposalNames dir = .ok () ∧
      (∀ entry ∈ dir.staging, preflightProposalRoot K entry.2 entry.1.deleting = .ok ()) ∧
        ∀ entry ∈ dir.retained, preflightProposalRoot K entry.2 true = .ok () := by
  have hstaging : (dir.staging.forM fun entry => preflightProposalRoot K entry.2 entry.1.deleting) = .ok ⟨⟩ ↔
      ∀ entry ∈ dir.staging, preflightProposalRoot K entry.2 entry.1.deleting = .ok () := Outcome.forM_ok
  have hretained : (dir.retained.forM fun entry => preflightProposalRoot K entry.2 true) = .ok ⟨⟩ ↔
      ∀ entry ∈ dir.retained, preflightProposalRoot K entry.2 true = .ok () := Outcome.forM_ok
  unfold preflightProposalInventory
  rw [Outcome.bind_ok]
  constructor
  · rintro ⟨⟨⟩, h1, h⟩
    obtain ⟨⟨⟩, h2, h3⟩ := Outcome.bind_ok.mp h
    exact ⟨h1, hstaging.mp h2, hretained.mp h3⟩
  · rintro ⟨h1, h2, h3⟩
    exact ⟨(), h1, Outcome.bind_ok.mpr ⟨(), hstaging.mpr h2, hretained.mpr h3⟩⟩

end

/-! ## What a sound root lets collect -/

/-- The length that the files of a root give to a digest. -/
def Sizes (K : Crates) (s : Root) (digest : Text) (length : ℕ) : Prop :=
  ∃ file, s.Mentions K file ∧ file.sha256 = digest ∧ file.byteLength = length ∧ validateSha256 digest = .ok () ∧
    length ≤ maxFileBytes

section
variable {K : Crates} {s t : Root} {tree : ProjectTree} {bindings : ObjectBindings}

theorem Sound.sizing (hs : Sound K s) : Sizing (s.Sizes K) where
  functional := by
    rintro digest _ _ ⟨f, hf, hfd, rfl, -, -⟩ ⟨g, hg, hgd, rfl, -, -⟩
    exact hs.agree f g hf hg (hfd.trans hgd.symm)
  digest := by
    rintro digest length ⟨f, -, -, -, hdigest, -⟩
    exact hdigest
  length := by
    rintro digest length ⟨f, -, -, -, -, hlength⟩
    exact hlength

theorem sizes_of_valid {files : List StoredFile} (hvalid : validateStoredFiles K files = .ok ())
    (hmentions : ∀ file ∈ files, s.Mentions K file) : ∀ file ∈ files, s.Sizes K file.sha256 file.byteLength := by
  unfold validateStoredFiles at hvalid
  split at hvalid
  · rename_i h
    exact fun file hfile => ⟨file, hmentions file hfile, rfl, rfl, h.2.2.1 file hfile, h.2.2.2.2.1 file hfile⟩
  · cases hvalid

theorem validateManifest_files {manifest : RevisionManifest} (h : validateManifest K manifest = .ok ()) :
    validateStoredFiles K manifest.files = .ok () := by
  obtain ⟨⟨⟩, -, h⟩ := Outcome.bind_ok.mp h
  obtain ⟨⟨⟩, -, h⟩ := Outcome.bind_ok.mp h
  exact h

theorem files_valid {tree : ProposalTree} {requireComplete : Bool}
    (h : preflightProposalRoot K tree requireComplete = .ok ()) : validateStoredFiles K (tree.files K) = .ok () := by
  unfold ProposalTree.files
  cases hsite : tree.site with
  | none => exact if_pos (by simp)
  | some site => exact scan_valid ((preflightProposalRoot_ok.mp h).1 site hsite)

theorem names_of_files {dir : ProposalsDirectory} {entry : Text × ProposalTree} {file : StoredFile}
    (hdir : tree.proposals = some dir) (hentry : entry ∈ dir.retained) (hfile : file ∈ entry.2.files K) :
    tree.Names K file := by
  unfold ProposalTree.files at hfile
  obtain ⟨f, hf, rfl⟩ := List.mem_map.mp hfile
  cases hsite : entry.2.site with
  | none => simp [hsite] at hf
  | some site =>
    rw [hsite] at hf
    exact .inr ⟨dir, hdir, entry, hentry, site, hsite, f, hf, rfl⟩

variable (hs : Sound K s) (hmentions : ∀ file, tree.Mentions K file → s.Mentions K file)
include hs hmentions

theorem Sound.collectRevisionBindings {objects : Objects} {revisions : List RevisionManifest}
    (hrevisions : tree.revisions = some revisions)
    (hvalid : validateAllRetainedRevisions K objects revisions = .ok ()) (hb : Sized (s.Sizes K) bindings) :
    ∃ b, Root.collectRevisionBindings K revisions bindings = .ok b ∧ Sized (s.Sizes K) b := by
  obtain ⟨hcount, hnonempty, hall⟩ := validateAllRetainedRevisions_ok.mp hvalid
  refine collectRevisionBindings_sized hs.sizing hb hcount hnonempty (fun manifest h => (hall manifest h).1) ?_
  intro manifest hmanifest
  refine sizes_of_valid (validateManifest_files (hall manifest hmanifest).1) fun file hfile => ?_
  exact hmentions file (.inl (.inl ⟨revisions, hrevisions, manifest, hmanifest, hfile⟩))

theorem Sound.collectRetained {dir : ProposalsDirectory} (hdir : tree.proposals = some dir)
    (hinventory : preflightProposalInventory K dir = .ok ()) (hb : Sized (s.Sizes K) bindings) :
    ∃ b, collectActiveProposalBindings K dir bindings = .ok b ∧ Sized (s.Sizes K) b := by
  obtain ⟨hnames, -, hretained⟩ := preflightProposalInventory_ok.mp hinventory
  have hentries : ∀ entry ∈ dir.retained.map fun entry => (entry.2, true),
      preflightProposalRoot K entry.1 entry.2 = .ok () := List.forall_mem_map.mpr hretained
  have hfiles : ∀ entry ∈ dir.retained.map fun entry => (entry.2, true), ∀ file ∈ entry.1.files K,
      s.Sizes K file.sha256 file.byteLength := by
    refine List.forall_mem_map.mpr fun entry hentry => ?_
    refine sizes_of_valid (files_valid (hretained entry hentry)) fun file hfile => ?_
    exact hmentions file (.inl (names_of_files hdir hentry hfile))
  obtain ⟨b, hb', hsized⟩ := collectProposalBindings_sized hs.sizing hb hentries hfiles
  exact ⟨b, Outcome.bind_ok.mpr ⟨(), hnames, hb'⟩, hsized⟩

theorem Sound.collectAll {dir : ProposalsDirectory} (hdir : tree.proposals = some dir)
    (hinventory : preflightProposalInventory K dir = .ok ()) (hb : Sized (s.Sizes K) bindings) :
    ∃ b, collectAllProposalBindings K dir bindings = .ok b ∧ Sized (s.Sizes K) b := by
  obtain ⟨hnames, hstaging, hretained⟩ := preflightProposalInventory_ok.mp hinventory
  have hentries : ∀ entry ∈ (dir.staging.map fun entry => (entry.2, entry.1.deleting)) ++
      dir.retained.map fun entry => (entry.2, true), preflightProposalRoot K entry.1 entry.2 = .ok () ∧
        ∀ file ∈ entry.1.files K, s.Mentions K file := by
    refine List.forall_mem_append.mpr ⟨List.forall_mem_map.mpr fun entry hentry => ?_,
      List.forall_mem_map.mpr fun entry hentry => ?_⟩
    · exact ⟨hstaging entry hentry, fun file hfile => hmentions file (.inr ⟨dir, hdir, entry, hentry, hfile⟩)⟩
    · exact ⟨hretained entry hentry, fun file hfile => hmentions file (.inl (names_of_files hdir hentry hfile))⟩
  obtain ⟨b, hb', hsized⟩ := collectProposalBindings_sized hs.sizing hb (fun entry h => (hentries entry h).1)
    fun entry h => sizes_of_valid (files_valid (hentries entry h).1) (hentries entry h).2
  exact ⟨b, Outcome.bind_ok.mpr ⟨(), hnames, hb'⟩, hsized⟩

omit hmentions

theorem Sound.collectProject {id : Text} (htree : s.projects[id]? = some tree) (hb : Sized (s.Sizes K) bindings) :
    ∃ b, collectProjectBindings K id tree bindings = .ok b ∧ Sized (s.Sizes K) b := by
  have hmentions : ∀ file, tree.Mentions K file → s.Mentions K file := fun file h => .inl ⟨id, tree, htree, h⟩
  obtain ⟨hname, ⟨⟨pointer, files⟩, hvalid⟩, hinventory⟩ := hs.projects id tree htree
  obtain ⟨dir, hdir⟩ := proposals_isSome hvalid
  obtain ⟨revisions, manifest, hfound⟩ := validateProject_ok.mp hvalid
  obtain ⟨middle, hmiddle, hsized⟩ := hs.collectRevisionBindings hmentions hfound.retained hfound.all hb
  obtain ⟨b, hb', hsized'⟩ := hs.collectRetained hmentions hdir (hinventory dir hdir) hsized
  refine ⟨b, ?_, hsized'⟩
  unfold collectProjectBindings
  rw [hname, hfound.current]
  simp only [Outcome.bind_ok, present_ok]
  exact ⟨(), trivial, (), ensure_ok.mpr hfound.project, (), hfound.pointerValid, revisions, hfound.retained, manifest,
    hfound.read, middle, hmiddle, dir, hdir, hb'⟩

theorem Sound.collectActive : ∃ b, collectActiveObjectBindings K s = .ok b ∧ Sized (s.Sizes K) b := by
  have hstep : ∀ entry ∈ s.projects.toList, ∀ b, Sized (s.Sizes K) b →
      ∃ b', collectProjectBindings K entry.1 entry.2 b = .ok b' ∧ Sized (s.Sizes K) b' := fun entry hentry b hb =>
    hs.collectProject (Std.ExtTreeMap.mem_toList_iff_getElem?_eq_some.mp hentry) hb
  obtain ⟨b, hb, hsized⟩ := foldlM_sized hstep sized_empty
  exact ⟨b, Outcome.bind_ok.mpr ⟨(), boundedDirectoryEntries_ok.mpr hs.entries,
    Outcome.bind_ok.mpr ⟨(), boundedDirectoryEntries_ok.mpr hs.count, hb⟩⟩, hsized⟩

end
end Root
end LpStudio.Storage
