import LpStudio.Storage.AcceptedSites

/-! # The journal of a commit
`commit_revision_at` with its journal, `transaction.json`, and `recover_project`, which settles what a commit has left when
it did not end: the project is at its old revision or at its new one, whatever failed or stopped, and however often the
recovery itself did.
-/
namespace LpStudio.Storage.Transactions
open Str Fault Fault.Program Root Outcome
open Accepted (Commit)

/-- The directory of a project with the objects, as far as a commit and its recovery touch them. -/
structure CommitTree where
  objects : Objects
  revisions : List RevisionManifest
  current : Option CurrentPointer
  /-- The pointer that `transaction.json` names. -/
  transaction : Option CurrentPointer
  site : Option SiteTree
  /-- `site.staging` and `site.backup` -/
  staging : Option SiteTree
  backup : Option SiteTree

/-! ## Materialization -/

/-- The directories that `create_dir_all` makes for the files. -/
def createdDirectories (files : List (Text × Bytes)) : List Text :=
  ((files.map Prod.fst).flatMap fun path =>
    (Paths.segments path).dropLast.inits.tail.map (List.intercalate ['/'])).dedup

/-- The tree that `materialize_to` writes; a manifest lists its files in order. -/
def materialize (K : Crates) (objects : Objects) (manifest : RevisionManifest) : Except StorageError SiteTree := do
  let files ← loadManifestFiles K objects manifest
  if h : files.Pairwise fun a b => compare a.1 b.1 = .lt then return ⟨createdDirectories files, files, h⟩ else throw .corrupt

inductive MaterializeStep where
  | clear | load | fill | sync
  deriving DecidableEq, Repr

section
variable (K : Crates) (partly : ℕ → SiteTree → Option SiteTree)

/-- `materialize_to` of `site.staging`; what an early end leaves there is not read. -/
def materializeTo (manifest : RevisionManifest) : Program MaterializeStep CommitTree StorageError Unit := do
  .gradual .io .clear (fun n s => { s with staging := s.staging.bind (partly n) }) fun s => { s with staging := none }
  let site ← look .io .load fun s => materialize K s.objects manifest
  .gradual .io .fill (fun n s => { s with staging := partly n site }) fun s => { s with staging := some site }
  .atomic .io .sync id

/-- `remove_internal_tree_if_present` of `site` -/
def removeSite {M : Type} (label : M) : Program M CommitTree StorageError Unit :=
  .gradual .io label (fun n s => { s with site := s.site.bind (partly n) }) fun s => { s with site := none }

def removeStaging {M : Type} (label : M) : Program M CommitTree StorageError Unit :=
  .gradual .io label (fun n s => { s with staging := s.staging.bind (partly n) }) fun s => { s with staging := none }

def removeBackup {M : Type} (label : M) : Program M CommitTree StorageError Unit :=
  .gradual .io label (fun n s => { s with backup := s.backup.bind (partly n) }) fun s => { s with backup := none }

/-- The rename of `site.staging` to `site`. -/
def publishStaging (s : CommitTree) : CommitTree := { s with site := s.staging, staging := none }

/-- The rename of `site.backup` to `site`. -/
def restoreBackup (s : CommitTree) : CommitTree := { s with site := s.backup, backup := none }

/-! ## The commit -/

inductive CommitStep where
  | validate
  | find (path : Text) | write (path : Text)
  | manifest | writeManifest
  | transaction
  | materialize (step : MaterializeStep)
  | dropBackup | stat | backup | publish | restore
  | pointer | sync | removeBackup | finish
  deriving DecidableEq, Repr

def insertObject (digest : Text) (bytes : Bytes) (s : CommitTree) : CommitTree :=
  if digest ∈ s.objects then s else { s with objects := s.objects.insert digest bytes }

/-- `write_object` -/
def writeObject (file : Text × Bytes) : Program CommitStep CommitTree StorageError Unit := do
  look .io (.find file.1) fun s => if s.objects[K.sha256 file.2]?.any (· ≠ file.2) then .error .corrupt else .ok ()
  .atomic .io (.write file.1) (insertObject (K.sha256 file.2) file.2)

/-- Whether the immutable manifest is already there. -/
def manifestWritten (r : Commit) (s : CommitTree) : Except StorageError Bool :=
  match s.revisions.find? (·.revisionId = r.revisionId) with
  | none => .ok false
  | some manifest => if manifest = r.manifest K then .ok true else .error .corrupt

def addManifest (r : Commit) (s : CommitTree) : CommitTree := { s with revisions := s.revisions ++ [r.manifest K] }

def writeManifest (r : Commit) : Program CommitStep CommitTree StorageError Unit := do
  let written ← look .io .manifest (manifestWritten K r)
  if written then return () else .atomic .io .writeManifest (addManifest K r)

/-- The checks of `commit_revision_at`. -/
def validate (r : Commit) : Except StorageError Unit := do
  validateIdentifier r.revisionId "rev_".toList
  validateSha256 r.artifactManifestSha256
  (storedFiles K r.site.files).elim (.error .unsafeImport) fun _ => .ok ()

def writeRevision (r : Commit) : Program CommitStep CommitTree StorageError Unit := do
  look .io .validate fun _ => validate K r
  r.site.files.forM (writeObject K)
  writeManifest K r

def backUpSite : Program CommitStep CommitTree StorageError Unit := do
  removeBackup partly CommitStep.dropBackup
  let occupied ← look .io .stat fun s => .ok s.site.isSome
  if occupied then .atomic .io .backup fun s => { s with site := none, backup := s.site } else return ()

/-- After an error of the rename the backup goes back, if it is there and nothing is in its place. -/
def publishSite : Program CommitStep CommitTree StorageError Unit :=
  (Program.atomic .io CommitStep.publish publishStaging).rescue fun e => do
    (Program.atomic .io CommitStep.restore fun s =>
      if s.backup.isSome && s.site.isNone then restoreBackup s else s).ignore
    .throw e

def commitRevisionAt (r : Commit) : Program CommitStep CommitTree StorageError Unit := do
  writeRevision K r
  .atomic .io .transaction fun s => { s with transaction := some r.pointer }
  (materializeTo K partly (r.manifest K)).relabel .materialize
  backUpSite partly
  publishSite
  .atomic .io .pointer fun s => { s with current := some r.pointer }
  .atomic .io .sync id
  removeBackup partly .removeBackup
  .atomic .io .finish fun s => { s with transaction := none }

/-! ## The recovery -/

inductive RecoverStep where
  | transaction | current | manifest | scan
  | materialize (step : MaterializeStep)
  | removeSite | publish | pointer | stat | restore
  | removeBackup | removeStaging | finish | sync
  deriving DecidableEq, Repr

/-- The revision of a pointer, from its objects. -/
def rebuildSite (manifest : RevisionManifest) : Program RecoverStep CommitTree StorageError Unit := do
  (materializeTo K partly manifest).relabel .materialize
  removeSite partly .removeSite
  .atomic .io .publish publishStaging

/-- Whether the site is that of the manifest. -/
def siteShows (manifest : RevisionManifest) (site : Option SiteTree) : Bool :=
  site.any fun tree => (scanMaterialized K tree).toOption = some manifest.files

def ensureSite (pointer : CurrentPointer) : Program RecoverStep CommitTree StorageError Unit := do
  let manifest ← look .io .manifest fun s => readManifest K s.revisions pointer
  let shown ← look .io .scan fun s => .ok (siteShows K manifest s.site)
  if shown then return () else rebuildSite K partly manifest

/-- The site of the old revision, from its backup or from its objects. -/
def rollBack (pointer : CurrentPointer) : Program RecoverStep CommitTree StorageError Unit := do
  let backedUp ← look .io .stat fun s => .ok s.backup.isSome
  if backedUp then
    removeSite partly .removeSite
    .atomic .io .restore restoreBackup
  else
    let manifest ← look .io .manifest fun s => do
      validatePointer pointer
      readManifest K s.revisions pointer
    rebuildSite K partly manifest

def settleSite (target : CurrentPointer) (current : Option CurrentPointer) :
    Program RecoverStep CommitTree StorageError Unit :=
  match current with
  | none => do
    ensureSite K partly target
    .atomic .io .pointer fun s => { s with current := some target }
  | some pointer =>
    if pointer = target then ensureSite K partly pointer
    else if pointer.revisionId = target.revisionId then .throw .corrupt
    else rollBack K partly pointer

def recoverProject : Program RecoverStep CommitTree StorageError Unit := do
  let transaction ← look .io .transaction fun s => .ok s.transaction
  match transaction with
  | none => return ()
  | some target => do
    let current ← look .io .current fun s => do
      validatePointer target
      return s.current
    settleSite K partly target current
    removeBackup partly .removeBackup
    removeStaging partly .removeStaging
    .atomic .io .finish fun s => { s with transaction := none }
    .atomic .io .sync id

end

/-! ## The read-only phase of an open -/

/-- The revision of a pointer, whose objects are there. -/
def loadRevision (K : Crates) (s : CommitTree) (pointer : CurrentPointer) : Except StorageError RevisionManifest := do
  validatePointer pointer
  let manifest ← readManifest K s.revisions pointer
  let _ ← loadManifestFiles K s.objects manifest
  return manifest

def ensureShows (K : Crates) (manifest : RevisionManifest) (site : Option SiteTree) : Except StorageError Unit := do
  let files ← scanMaterialized K (← present site)
  ensure (files = manifest.files) .drift

def preflightTransaction (K : Crates) (s : CommitTree) : Except StorageError Unit := do
  let current ← s.current.mapM fun pointer => (loadRevision K s pointer).map fun manifest => (pointer, manifest)
  match s.transaction with
  | none =>
    let (_, manifest) ← present current
    ensureShows K manifest s.site
  | some target =>
    let _ ← loadRevision K s target
    match current with
    | none => return ()
    | some (pointer, manifest) =>
      ensure (pointer.revisionId = target.revisionId → pointer = target) .corrupt
      if pointer ≠ target ∧ s.backup.isSome then ensureShows K manifest s.backup else return ()

end LpStudio.Storage.Transactions
