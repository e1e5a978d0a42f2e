import LpStudio.Lib.Json
import LpStudio.Lib.PathOrder
import LpStudio.Storage.Sites

/-! # The scan of an import source
`scan_import` and `scan_import_directory` of `storage.rs`. The source directory belongs to someone else and may
change while it is read, so the scan is given the answers that the file system gave it, call by call.
-/
namespace LpStudio.Storage
open Str Fault

abbrev FileIdentity := ℕ × ℕ

inductive FileKind where
  | directory | file | symlink | other
  deriving DecidableEq

/-- What the scan reads of an `fs::Metadata`. -/
structure Metadata where
  kind : FileKind
  identity : FileIdentity
  hardLinkCount : ℕ
  len : ℕ

/-- The answers about a regular file: the metadata of the opened file, its bytes, its path's metadata afterwards. -/
structure FileRead where
  opened : Option Metadata
  bytes : Option Bytes
  after : Option Metadata

/-- The answers about a directory; `listed` is false where `read_dir` fails. -/
structure DirectoryRead where
  before : Option Metadata
  listed : Bool
  after : Option Metadata

/-- A turn of the loop over the entries of a directory. A name is `none` where it is not UTF-8. -/
inductive Entry where
  | unread
  | read (name : Option Text) (metadata : Metadata) (file : FileRead) (directory : DirectoryRead) (entries : List Entry)

structure ImportSource where
  metadata : Option Metadata
  fileName : Option Text
  directory : DirectoryRead
  entries : List Entry

structure ImportIncluded where
  path : Text
  byteLength : ℕ
  sha256 : Text
  deriving DecidableEq

structure ImportExcluded where
  path : Text
  reason : Text
  deriving DecidableEq

structure ImportScan where
  displayName : Text
  manifestSha256 : Text
  totalBytes : ℕ
  entryPoint : Option Text
  included : List ImportIncluded
  excluded : List ImportExcluded
  warnings : List Text
  files : List (Text × Bytes)

/-- `ImportWalk`, with the two counters of its `ScanBudget`. -/
structure ImportWalk where
  files : Std.ExtTreeMap Text Bytes compare := ∅
  excluded : List ImportExcluded := []
  identities : List FileIdentity := []
  foldedPaths : List Text := []
  visitedEntries : ℕ := 0
  totalBytes : ℕ := 0

def ImportWalk.visitImportEntry (walk : ImportWalk) : Except StorageError ImportWalk :=
  if maxFiles < walk.visitedEntries + 1 then .error .importLimit
  else .ok { walk with visitedEntries := walk.visitedEntries + 1 }

def ImportWalk.addImportFile (walk : ImportWalk) (byteLength : ℕ) : Except StorageError ImportWalk :=
  if walk.totalBytes + byteLength ≤ maxTotalBytes then .ok { walk with totalBytes := walk.totalBytes + byteLength }
  else .error .importLimit

/-- `validate_canonical_path`, with its errors. -/
def checkCanonicalPath (K : Crates) (path : Text) : Except StorageError Unit := do
  ensure (!(path.isEmpty || Paths.maxPathBytes < Paths.byteLength path || path.contains '\x00' || path.contains '\\' ||
    path.head? == some '/' || K.nfc path != path)) .unsafeImport
  ensure ((Paths.segments path).length ≤ Paths.maxDepth) .importLimit
  ensure ((Paths.segments path).all fun segment => !(Paths.badSegment segment || segment.any isControl)) .unsafeImport

/-- The components are those below the source root, `none` where one is not UTF-8. -/
def canonicalRelativePath (K : Crates) (components : List (Option Text)) : Except StorageError Text := do
  let parts ← components.mapM fun part => part.elim (.error .unsafeImport) fun part => .ok (K.nfc part)
  let canonical := PathOrder.join '/' parts
  checkCanonicalPath K canonical
  return canonical

def excludedReason (K : Crates) (path : Text) : Option Text :=
  let segments := Paths.segments (K.toLowercase path)
  let name := segments.getLast?.getD []
  if segments.any (· ∈ [".git".toList, ".studio".toList, ".ssh".toList, ".aws".toList, "__macosx".toList]) then
    some "reserved_metadata".toList
  else if name ∈ [".ds_store".toList, "thumbs.db".toList, "desktop.ini".toList] then some "os_metadata".toList
  else if name = ".env".toList ∨ ".env.".toList.isPrefixOf name ∨
      name ∈ [".envrc".toList, ".netrc".toList, ".npmrc".toList, ".pypirc".toList] ∨
      ".pem".toList.isSuffixOf name ∨ ".key".toList.isSuffixOf name ∨
      name ∈ ["id_rsa".toList, "id_ed25519".toList, "credentials".toList, "credentials.json".toList] then
    some "credential_material".toList
  else none

/-! ## The walk -/

/-- `scan_import_directory` around its loop over the entries. -/
def scanImportDirectory (depth : ℕ) (read : DirectoryRead) (visitEntries : ImportWalk → Except StorageError ImportWalk)
    (walk : ImportWalk) : Except StorageError ImportWalk := do
  ensure (depth ≤ Paths.maxDepth) .importLimit
  let some before := read.before | throw .unsafeImport
  ensure (before.kind = .directory) .unsafeImport
  ensure read.listed .io
  let walk ← visitEntries walk
  let some after := read.after | throw .unsafeImport
  ensure (after.kind = .directory ∧ after.identity = before.identity) .unsafeImport
  return walk

/-- The turn of the loop for what is neither a link, nor excluded, nor a directory. -/
def scanImportFile (path : Text) (metadata : Metadata) (file : FileRead) (walk : ImportWalk) :
    Except StorageError ImportWalk := do
  ensure (metadata.kind = .file ∧ metadata.hardLinkCount ≤ 1) .unsafeImport
  ensure (metadata.identity ∉ walk.identities) .unsafeImport
  let walk := { walk with identities := metadata.identity :: walk.identities }
  ensure (metadata.len ≤ maxFileBytes ∧ walk.files.size < maxFiles) .importLimit
  let walk ← walk.addImportFile metadata.len
  let some opened := file.opened | throw .unsafeImport
  ensure (opened.kind = .file ∧ opened.hardLinkCount ≤ 1 ∧ opened.identity = metadata.identity ∧
    opened.len = metadata.len) .unsafeImport
  let some bytes := file.bytes.map (·.take (maxFileBytes + 1)) | throw .io
  let some after := file.after | throw .unsafeImport
  ensure (after.kind = .file ∧ after.hardLinkCount ≤ 1 ∧ after.identity = metadata.identity ∧
    after.len = metadata.len ∧ bytes.length = metadata.len ∧ bytes.length ≤ maxFileBytes) .unsafeImport
  return { walk with files := walk.files.insert path bytes }

mutual
def scanImportEntry (K : Crates) (relative : List (Option Text)) (depth : ℕ) :
    Entry → ImportWalk → Except StorageError ImportWalk
  | .unread, walk => do
    let _ ← walk.visitImportEntry
    throw .io
  | .read name metadata file directory entries, walk => do
    let walk ← walk.visitImportEntry
    ensure (metadata.kind ≠ .symlink) .unsafeImport
    let path ← canonicalRelativePath K (relative ++ [name])
    match excludedReason K path with
    | some reason => return { walk with excluded := walk.excluded ++ [⟨path, reason⟩] }
    | none =>
      ensure (K.toFoldedCase path ∉ walk.foldedPaths) .unsafeImport
      let walk := { walk with foldedPaths := K.toFoldedCase path :: walk.foldedPaths }
      if metadata.kind = .directory then
        scanImportDirectory (depth + 1) directory (scanImportEntries K (relative ++ [name]) (depth + 1) entries) walk
      else scanImportFile path metadata file walk

def scanImportEntries (K : Crates) (relative : List (Option Text)) (depth : ℕ) :
    List Entry → ImportWalk → Except StorageError ImportWalk
  | [], walk => .ok walk
  | entry :: entries, walk => do
    let walk ← scanImportEntry K relative depth entry walk
    scanImportEntries K relative depth entries walk
end

/-! ## The scan -/

/-- The loop of `stored_files`, with its errors. -/
def storeFiles (K : Crates) (foldedPaths : List Text) (total : ℕ) :
    List (Text × Bytes) → Except StorageError (List StoredFile)
  | [] => .ok []
  | file :: files => do
    checkCanonicalPath K file.1
    ensure (K.toFoldedCase file.1 ∉ foldedPaths) .unsafeImport
    ensure (file.2.length ≤ maxFileBytes) .importLimit
    ensure (total + file.2.length ≤ maxTotalBytes) .importLimit
    let stored ← storeFiles K (K.toFoldedCase file.1 :: foldedPaths) (total + file.2.length) files
    return store K file :: stored

def hasHtmlExtension (path : Text) : Bool := ".html".toList.isSuffixOf path || ".htm".toList.isSuffixOf path

def importEntryPoint (files : List (Text × Bytes)) : Option Text :=
  if files.any (·.1 == "index.html".toList) then some "index.html".toList
  else (files.find? fun file => hasHtmlExtension file.1).map (·.1)

def importWarnings (files : List (Text × Bytes)) : List Text :=
  (if importEntryPoint files = some "index.html".toList then [] else ["root_index_html_missing".toList]) ++
  (if files.isEmpty then ["no_importable_files".toList] else [])

def ImportIncluded.toJson (entry : ImportIncluded) : Json := .obj [
  ("path".toList, .str entry.path), ("byteLength".toList, .num entry.byteLength), ("sha256".toList, .str entry.sha256)]

def ImportExcluded.toJson (entry : ImportExcluded) : Json := .obj [
  ("path".toList, .str entry.path), ("reason".toList, .str entry.reason)]

/-- `ReviewedImportProjection` of a scan. -/
def ImportScan.projection (scan : ImportScan) : Json := .obj [
  ("schemaVersion".toList, .str "1".toList),
  ("displayName".toList, .str scan.displayName),
  ("entryPoint".toList, scan.entryPoint.elim .null .str),
  ("included".toList, .arr (scan.included.map (·.toJson))),
  ("excluded".toList, .arr (scan.excluded.map (·.toJson))),
  ("warnings".toList, .arr (scan.warnings.map .str))]

/-- The bytes that `manifest_sha256` is the digest of: `canonical_json` of `storage.rs`, which does not fail here. -/
def ImportScan.reviewed (scan : ImportScan) : Bytes := encode scan.projection.render

/-- `scan_import` after its walk. -/
def finishScan (K : Crates) (displayName : Text) (walk : ImportWalk) : Except StorageError ImportScan := do
  let files := walk.files.toList
  ensure (files.length ≤ maxFiles) .importLimit
  let stored ← storeFiles K [] 0 files
  let scan : ImportScan := {
    displayName
    manifestSha256 := []
    totalBytes := (stored.map (·.byteLength)).sum
    entryPoint := importEntryPoint files
    included := stored.map fun entry => ⟨entry.path, entry.byteLength, entry.sha256⟩
    excluded := walk.excluded.mergeSort fun a b => compare a.path b.path != .gt
    warnings := importWarnings files
    files }
  return { scan with manifestSha256 := K.sha256 scan.reviewed }

def scanImport (K : Crates) (source : ImportSource) : Except StorageError ImportScan := do
  ensure (source.metadata.any (·.kind == .directory)) .unsafeImport
  let name := (source.fileName.filter (!·.isEmpty)).getD "Imported landing page".toList
  let walk ← scanImportDirectory 0 source.directory (scanImportEntries K [] 0 source.entries) {}
  finishScan K (K.nfc name) walk

/-! ## What a scan reports -/

section
variable {K : Crates}

theorem storeFiles_ok {foldedPaths : List Text} {total : ℕ} {files : List (Text × Bytes)} {stored : List StoredFile}
    (h : storeFiles K foldedPaths total files = .ok stored) : stored = files.map (store K) := by
  induction files generalizing foldedPaths total stored with
  | nil =>
    cases h
    rfl
  | cons file files ih =>
    simp only [storeFiles, Outcome.bind_ok, Outcome.pure_ok] at h
    obtain ⟨-, -, -, -, -, -, -, -, rest, hrest, rfl⟩ := h
    rw [ih hrest, List.map_cons]

/-- The files of a scan, as they are listed for a review. -/
def listed (K : Crates) (files : List (Text × Bytes)) : List ImportIncluded :=
  files.map fun file => ⟨file.1, file.2.length, K.sha256 file.2⟩

theorem importEntryPoint_index {files : List (Text × Bytes)}
    (h : importEntryPoint files = some "index.html".toList) : "index.html".toList ∈ files.map (·.1) := by
  unfold importEntryPoint at h
  split at h
  case isTrue hany =>
    obtain ⟨file, hfile, heq⟩ := List.any_eq_true.mp hany
    exact List.mem_map.mpr ⟨file, hfile, eq_of_beq heq⟩
  case isFalse =>
    obtain ⟨file, hfile, heq⟩ := Option.map_eq_some_iff.mp h
    exact List.mem_map.mpr ⟨file, List.mem_of_find?_eq_some hfile, heq⟩

/-- What a scan reports is computed from the files that it read. -/
structure Reports (K : Crates) (scan : ImportScan) : Prop where
  included : scan.included = listed K scan.files
  entryPoint : scan.entryPoint = importEntryPoint scan.files
  manifest : scan.manifestSha256 = K.sha256 scan.reviewed

theorem finishScan_reports {displayName : Text} {walk : ImportWalk} {scan : ImportScan}
    (h : finishScan K displayName walk = .ok scan) : Reports K scan := by
  simp only [finishScan, Outcome.bind_ok, Outcome.pure_ok] at h
  obtain ⟨-, -, stored, hstored, rfl⟩ := h
  refine ⟨?_, rfl, rfl⟩
  show stored.map _ = listed K walk.files.toList
  rw [storeFiles_ok hstored, List.map_map]
  rfl

theorem scanImport_reports {source : ImportSource} {scan : ImportScan} (h : scanImport K source = .ok scan) :
    Reports K scan := by
  simp only [scanImport, Outcome.bind_ok] at h
  obtain ⟨-, -, walk, -, h⟩ := h
  exact finishScan_reports h

theorem ImportIncluded.toJson_injective : Function.Injective ImportIncluded.toJson := by
  intro a b h
  simp only [toJson, Json.obj.injEq, List.cons.injEq, Prod.mk.injEq, Json.str.injEq, Json.num.injEq, true_and,
    and_true] at h
  cases a
  cases b
  simp_all

/-- The reviewed bytes determine the list of files. -/
theorem ImportScan.reviewed_included {a b : ImportScan} (h : a.reviewed = b.reviewed) : a.included = b.included := by
  have hprojection := Json.render_injective (encode_injective h)
  simp only [projection, Json.obj.injEq, List.cons.injEq, Prod.mk.injEq, Json.arr.injEq, true_and] at hprojection
  exact ImportIncluded.toJson_injective.list_map hprojection.2.2.1

end

end LpStudio.Storage
