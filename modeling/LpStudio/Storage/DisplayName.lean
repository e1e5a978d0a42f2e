import LpStudio.Storage.ProposalResumption
import LpStudio.Storage.RecoveryIsolation

/-! # The display name of a project
`update_project_display_name`, a compare-and-set on `project.json`, and what the next open finds there.
-/
namespace LpStudio.Storage.DisplayName
open Str Fault RecoveryReader Program

def maxDisplayNameCodePoints : ℕ := 256
def maxDisplayNameBytes : ℕ := 1024
def maxMetadataBytes : ℕ := 64 * 1024

/-! ## Names -/

def pathBoundary (c : Char) : Bool := isWhitespace c || c ∈ ['(', '"', '\x27', '=']

/-- The loop of `contains_absolute_path`, after the character `previous`. -/
def absolutePathAfter (previous : Option Char) : Text → Bool
  | [] => false
  | c :: rest =>
    (c == '/' && previous.all pathBoundary && rest.head? != some '/') ||
    (isAsciiAlphabetic c && rest.head? == some ':' && rest[1]?.any (· ∈ ['/', '\\'])) ||
    (c == '\\' && rest.head? == some '\\' && previous.all pathBoundary) ||
    absolutePathAfter (some c) rest

def containsAbsolutePath (value : Text) : Bool := absolutePathAfter none value

def validateProjectDisplayName (K : Crates) (value : Text) : Except StorageError Unit :=
  ensure (¬ (maxDisplayNameBytes < (encode value).length ∨ value = [] ∨ maxDisplayNameCodePoints < value.length ∨
    trim value = [] ∨ K.nfc value ≠ value ∨ value.any isControl ∨ containsAbsolutePath value)) .corrupt

/-! ## `project.json` -/

structure ProjectMetadata where
  schemaVersion : Text
  id : Text
  displayName : Text
  deriving DecidableEq

def ProjectMetadata.toJson (metadata : ProjectMetadata) : Json := .obj [
  ("schemaVersion".toList, .str metadata.schemaVersion), ("id".toList, .str metadata.id),
  ("displayName".toList, .str metadata.displayName)]

def ProjectMetadata.canonicalJson (metadata : ProjectMetadata) : Bytes := Backup.canonicalBytes metadata.toJson

/-- The files of the project that stand for its name, and how many others are in its directory. -/
structure MetadataFiles where
  /-- `project.json` -/
  content : Option Bytes
  /-- `.project.json.<nonce>.tmp`, each with whether it is a regular file that only its owner can read. -/
  temporaries : List (Text × Bool)
  /-- What the recovery removes before: temporaries of other files, journals and the marker of the creation. -/
  leftovers : ℕ
  others : ℕ

structure Stored where
  root : Root
  metadata : MetadataFiles

/-- `serde_json::from_slice` at the type of the record. -/
abbrev Reader := Bytes → Option ProjectMetadata

section
variable (parse : Reader) (K : Crates) (projectId : Text)

/-- `read_canonical_json_bounded` of `project.json`. -/
def readRecord (files : MetadataFiles) : Except StorageError ProjectMetadata := do
  let bytes ← readRegularFileBounded files.content maxMetadataBytes
  canonicalRecord parse ProjectMetadata.toJson bytes

def readMetadata (files : MetadataFiles) : Except StorageError ProjectMetadata := do
  let metadata ← readRecord parse files
  ensure (metadata.schemaVersion = Backup.storageSchema ∧ metadata.id = projectId) .corrupt
  validateProjectDisplayName K metadata.displayName
  return metadata

/-! ## The open -/

def MetadataFiles.entries (files : MetadataFiles) : ℕ :=
  files.content.toList.length + files.temporaries.length + files.leftovers + files.others

/-- What `preflight_project_inventory` checks of these files. -/
def preflightMetadata (files : MetadataFiles) : Except StorageError Unit := do
  boundedDirectoryEntries files.entries 32
  files.temporaries.forM fun (nonce, owned) => do
    validateNonce nonce
    ensure (owned = true) .corrupt
  (if files.content.isSome then do
    let _ ← readMetadata parse K projectId files
  else .ok ())

/-- `cleanup_exact_replace_temporary` of each file, and the removal of the marker of the creation. -/
def recoverMetadata (files : MetadataFiles) : MetadataFiles := { files with temporaries := [], leftovers := 0 }

/-- What `validate_stable_project_inventory` and `validate_project_core` check of these files. -/
def validateMetadata (files : MetadataFiles) : Except StorageError ProjectMetadata := do
  boundedDirectoryEntries files.entries 16
  readMetadata parse K projectId files

/-- The root, with the id that `project.json` holds. -/
def Stored.seen (s : Stored) : Root :=
  { s.root with projects := s.root.projects.modify projectId fun tree =>
      { tree with project := (readRecord parse s.metadata).toOption.map (·.id) } }

/-- An open in which nothing fails: the projects, and the display name of this one. -/
def reopen (rm : Remover) (s : Stored) : Except StorageError (List Root.PersistedProject × Text) := do
  preflightMetadata parse K projectId s.metadata
  match (Root.openRoot K rm smooth (s.seen parse projectId)).1 with
  | .value projects => do
    let metadata ← validateMetadata parse K projectId (recoverMetadata s.metadata)
    return (projects, metadata.displayName)
  | .error e => .error e
  | .stop => .error .io

end

/-! ## The update -/

inductive ProjectMetadataUpdate where
  | updated | idempotent | stale
  deriving DecidableEq, Repr

structure UpdateDisplayName where
  projectId : Text
  expectedDisplayName : Text
  displayName : Text
  /-- The UUID of the temporary. -/
  nonce : Text
  nonce_valid : validateNonce nonce = .ok ()

def UpdateDisplayName.record (r : UpdateDisplayName) : ProjectMetadata :=
  ⟨Backup.storageSchema, r.projectId, r.displayName⟩

inductive AtomicStep where
  | parent | inspect | create | write | fsync | discard | rename | discardRenamed | sync
  deriving DecidableEq, Repr

def onMetadata (f : MetadataFiles → MetadataFiles) (s : Stored) : Stored := { s with metadata := f s.metadata }

/-- `validate_real_directory` of the project's directory. -/
def validateProjectRoot (projectId : Text) (s : Stored) : Except StorageError Unit :=
  ensure (projectId ∈ s.root.projects) .io

/-- The temporary, created and written in part or in full. -/
def draft (nonce : Text) (files : MetadataFiles) : MetadataFiles :=
  { files with temporaries := (nonce, true) :: files.temporaries }

def discard (nonce : Text) (files : MetadataFiles) : MetadataFiles :=
  { files with temporaries := files.temporaries.filter (·.1 != nonce) }

/-- The rename of the temporary onto `project.json`. -/
def replace (nonce : Text) (bytes : Bytes) (files : MetadataFiles) : MetadataFiles :=
  { discard nonce files with content := some bytes }

/-- `write_new_file` of the temporary; nothing may have its name. -/
def writeTemporary (nonce : Text) : Program AtomicStep Stored StorageError Unit := do
  Program.look .io .create fun s => ensure (nonce ∉ s.metadata.temporaries.map (·.1)) .io
  .gradual .io .write (fun n s => if n = 0 then s else onMetadata (draft nonce) s) (onMetadata (draft nonce))
  .atomic .io .fsync id

/-- `write_atomic` of `project.json`, which is a regular file wherever it has been read. -/
def writeAtomic (projectId nonce : Text) (bytes : Bytes) : Program AtomicStep Stored StorageError Unit := do
  Program.look .io .parent (validateProjectRoot projectId)
  (Program.look .io .inspect fun _ => .ok ⟨⟩).ignore
  (writeTemporary nonce).rescue fun e => do
    (Program.atomic .io .discard (onMetadata (discard nonce))).ignore
    .throw e
  (Program.atomic .io .rename (onMetadata (replace nonce bytes))).rescue fun e => do
    (Program.atomic .io .discardRenamed (onMetadata (discard nonce))).ignore
    .throw e
  .atomic .io .sync id

inductive UpdateStep where
  | root | read | syncIdempotent
  | write (step : AtomicStep)
  | reread | syncUpdated
  deriving DecidableEq, Repr

/-- The checks of the arguments. -/
def UpdateDisplayName.validate (K : Crates) (r : UpdateDisplayName) : Except StorageError Unit := do
  validateIdentifier r.projectId "prj_".toList
  validateProjectDisplayName K r.expectedDisplayName
  validateProjectDisplayName K r.displayName

/-- What an error of the write comes to, by what `project.json` holds now. -/
def classify (parse : Reader) (current updated : ProjectMetadata) (writeError : StorageError) :
    Program UpdateStep Stored StorageError ProjectMetadataUpdate := do
  let actual ← (do
    let actual ← Program.look .corrupt .reread fun s => readRecord parse s.metadata
    return some actual : Program UpdateStep Stored StorageError (Option ProjectMetadata)).rescue fun _ => Pure.pure none
  match actual with
  | some actual =>
    if actual.canonicalJson = updated.canonicalJson then do
      .atomic .io .syncUpdated id
      return .updated
    else if actual.canonicalJson = current.canonicalJson then .throw writeError
    else .throw .corrupt
  | none => .throw writeError

def updateProjectDisplayName (parse : Reader) (K : Crates) (r : UpdateDisplayName) :
    Program UpdateStep Stored StorageError ProjectMetadataUpdate :=
  match r.validate K with
  | .error e => .throw e
  | .ok () => do
    Program.look .io .root (validateProjectRoot r.projectId)
    let current ← Program.look .corrupt .read fun s => readMetadata parse K r.projectId s.metadata
    if current.displayName = r.displayName then do
      .atomic .io .syncIdempotent id
      return .idempotent
    else if current.displayName ≠ r.expectedDisplayName then return .stale
    else
      (do
        (writeAtomic r.projectId r.nonce r.record.canonicalJson).relabel .write
        return .updated : Program UpdateStep Stored StorageError ProjectMetadataUpdate).rescue
          (classify parse current r.record)

/-! ## The size of a record -/

theorem length_encode_quote (value : Text) : (encode (Json.quote value)).length ≤ 6 * (encode value).length + 2 := by
  have hescape : ∀ c : Char, (encode (Json.escape c)).length ≤ 6 * (encode [c]).length := by
    intro c
    have hc : 1 ≤ (encode [c]).length := by
      rw [encode, List.flatMap_cons, List.flatMap_nil, List.append_nil, String.length_utf8EncodeChar]
      exact Char.utf8Size_pos c
    have hdigit : ∀ n < 16, (encode [hexDigit n]).length = 1 := by decide
    unfold Json.escape
    split_ifs with h1 h2 h3 h4 h5 h6 h7 h8
    all_goals try exact (show _ ≤ 6 by decide).trans (by omega)
    · rw [encode_append, List.length_append, show [hexDigit (c.toNat / 16), hexDigit (c.toNat % 16)] =
        [hexDigit (c.toNat / 16)] ++ [hexDigit (c.toNat % 16)] from rfl, encode_append, List.length_append,
        hdigit _ (by omega), hdigit _ (by omega)]
      exact (show _ ≤ 6 by decide).trans (by omega)
    · omega
  have hbody : (encode (value.flatMap Json.escape)).length ≤ 6 * (encode value).length := by
    induction value with
    | nil => exact Nat.zero_le _
    | cons c value ih =>
      rw [List.flatMap_cons, encode_append, List.length_append, ← List.singleton_append, encode_append,
        List.length_append]
      have := hescape c
      omega
  rw [Json.quote, ← List.singleton_append, encode_append, encode_append, List.length_append, List.length_append]
  have hquote : (encode ['"']).length = 1 := rfl
  omega

theorem validateIdentifier_length {id namePrefix : Text} (h : validateIdentifier id namePrefix = .ok ()) :
    (encode id).length = (encode namePrefix).length + 32 := by
  obtain ⟨suffix, rfl, hlength, hhex⟩ := validateIdentifier_ok h
  rw [encode_append, List.length_append, length_encode_lowerHex hhex, hlength]

theorem validateProjectDisplayName_ok {K : Crates} {value : Text} (h : validateProjectDisplayName K value = .ok ()) :
    (encode value).length ≤ maxDisplayNameBytes := by
  have := ensure_ok.mp h
  by_contra hlong
  exact this (.inl (Nat.lt_of_not_le hlong))

/-- A record with a name that passes the checks is within the bound of the reads. -/
theorem canonicalJson_length {K : Crates} {metadata : ProjectMetadata}
    (hschema : metadata.schemaVersion = Backup.storageSchema) (hid : validateIdentifier metadata.id "prj_".toList = .ok ())
    (hname : validateProjectDisplayName K metadata.displayName = .ok ()) :
    metadata.canonicalJson.length ≤ maxMetadataBytes := by
  have hid := validateIdentifier_length hid
  have hname := validateProjectDisplayName_ok hname
  have hquoteId := length_encode_quote metadata.id
  have hquoteName := length_encode_quote metadata.displayName
  have hprefix : (encode "prj_".toList).length = 4 := by decide
  have hrender : metadata.canonicalJson = encode (
      ('\x7b' :: (Json.quote "schemaVersion".toList ++ ':' :: (Json.quote Backup.storageSchema ++ ',' ::
        (Json.quote "id".toList ++ [':'])))) ++ (Json.quote metadata.id ++
      ((',' :: (Json.quote "displayName".toList ++ [':'])) ++ (Json.quote metadata.displayName ++ ['\x7d'])))) := by
    rw [ProjectMetadata.canonicalJson, Backup.canonicalBytes, ProjectMetadata.toJson, hschema]
    simp only [Json.render, Json.renderFields, List.append_assoc, List.cons_append, List.nil_append]
  rw [hrender, encode_append, encode_append, encode_append, encode_append, List.length_append, List.length_append,
    List.length_append, List.length_append]
  have hhead : (encode ('\x7b' :: (Json.quote "schemaVersion".toList ++ ':' :: (Json.quote Backup.storageSchema ++
      ',' :: (Json.quote "id".toList ++ [':']))))).length = 26 := by decide
  have hmiddle : (encode (',' :: (Json.quote "displayName".toList ++ [':']))).length = 15 := by decide
  have hend : (encode ['\x7d']).length = 1 := by decide
  unfold maxMetadataBytes maxDisplayNameBytes at *
  omega

/-! ## Reading -/

section
variable {parse : Reader} {K : Crates} {projectId : Text} {files files' : MetadataFiles} {metadata : ProjectMetadata}

theorem readRecord_ok : readRecord parse files = .ok metadata ↔
    files.content = some metadata.canonicalJson ∧ metadata.canonicalJson.length ≤ maxMetadataBytes ∧
      parse metadata.canonicalJson = some metadata := by
  unfold readRecord
  rw [Outcome.bind_ok]
  constructor
  · rintro ⟨bytes, hbytes, h⟩
    have hparse := canonicalRecord_ok h
    unfold readRegularFileBounded at hbytes
    split at hbytes
    · split at hbytes
      · cases hbytes
        rename_i hcontent hlength
        unfold canonicalRecord at h
        rw [hparse] at h
        change (if Backup.canonicalBytes metadata.toJson = bytes then _ else _) = _ at h
        split at h
        · rename_i hcanonical
          have hcanonical : metadata.canonicalJson = bytes := hcanonical
          rw [hcanonical]
          exact ⟨hcontent, hlength, hparse⟩
        · cases h
      · cases hbytes
    · cases hbytes
  · rintro ⟨hcontent, hlength, hparse⟩
    refine ⟨metadata.canonicalJson, ?_, ?_⟩
    · rw [hcontent]
      exact if_pos hlength
    · unfold canonicalRecord
      rw [hparse]
      exact if_pos rfl

theorem readRecord_congr (h : files'.content = files.content) : readRecord parse files' = readRecord parse files := by
  unfold readRecord
  rw [h]

theorem readMetadata_ok : readMetadata parse K projectId files = .ok metadata ↔
    readRecord parse files = .ok metadata ∧
      (metadata.schemaVersion = Backup.storageSchema ∧ metadata.id = projectId) ∧
      validateProjectDisplayName K metadata.displayName = .ok () := by
  unfold readMetadata
  constructor
  · intro h
    obtain ⟨found, hfound, h⟩ := Outcome.bind_ok.mp h
    obtain ⟨hid, h⟩ := Outcome.check_ok.mp h
    obtain ⟨hname, h⟩ := Outcome.check_ok.mp h
    cases h
    exact ⟨hfound, ensure_ok.mp hid, hname⟩
  · rintro ⟨hfound, hid, hname⟩
    exact Outcome.bind_ok.mpr ⟨metadata, hfound,
      Outcome.check_ok.mpr ⟨ensure_ok.mpr hid, Outcome.check_ok.mpr ⟨hname, rfl⟩⟩⟩

theorem readMetadata_congr (h : files'.content = files.content) :
    readMetadata parse K projectId files' = readMetadata parse K projectId files := by
  unfold readMetadata
  rw [readRecord_congr h]

end

section
variable {parse : Reader} {K : Crates} {r : UpdateDisplayName}

theorem UpdateDisplayName.validate_ok (h : r.validate K = .ok ()) :
    validateIdentifier r.projectId "prj_".toList = .ok () ∧
      validateProjectDisplayName K r.displayName = .ok () := by
  obtain ⟨hid, h⟩ := Outcome.check_ok.mp h
  obtain ⟨-, hname⟩ := Outcome.check_ok.mp h
  exact ⟨hid, hname⟩

/-- The new record, where it has been written, is read back. -/
theorem readMetadata_record {files : MetadataFiles} (hr : r.validate K = .ok ())
    (hparse : parse r.record.canonicalJson = some r.record) (hcontent : files.content = some r.record.canonicalJson) :
    readMetadata parse K r.projectId files = .ok r.record := by
  obtain ⟨hid, hname⟩ := UpdateDisplayName.validate_ok hr
  exact readMetadata_ok.mpr ⟨readRecord_ok.mpr ⟨hcontent, canonicalJson_length rfl hid hname, hparse⟩, ⟨rfl, rfl⟩, hname⟩

end

/-! ## What a write leaves -/

/-- Beside `project.json`, nothing of `s` has changed but its temporaries, which are some of the given ones. -/
structure Kept (temporaries : List (Text × Bool)) (s s' : Stored) : Prop where
  root : s'.root = s.root
  leftovers : s'.metadata.leftovers = s.metadata.leftovers
  others : s'.metadata.others = s.metadata.others
  temporaries : s'.metadata.temporaries.Sublist temporaries

/-- Without a temporary of this write. -/
def Clean (s s' : Stored) : Prop := Kept s.metadata.temporaries s s'

/-- With a temporary of this write at most. -/
def Littered (nonce : Text) (s s' : Stored) : Prop := Kept ((nonce, true) :: s.metadata.temporaries) s s'

/-- Two steps are not done. -/
def Twice {L : Type} (faults : L → Fault.Outcome) : Prop := ∃ l l', l ≠ l' ∧ faults l ≠ .done ∧ faults l' ≠ .done

/-- The file is as it was, or holds the new bytes. -/
def OldOrNew (bytes : Bytes) (s s' : Stored) : Prop :=
  s'.metadata.content = s.metadata.content ∨ s'.metadata.content = some bytes

section
variable {s s' : Stored} {nonce : Text} {bytes : Bytes}

theorem Clean.refl (s : Stored) : Clean s s := ⟨rfl, rfl, rfl, List.Sublist.refl _⟩

theorem Clean.littered (h : Clean s s') : Littered nonce s s' :=
  ⟨h.root, h.leftovers, h.others, h.temporaries.trans (List.sublist_cons_self _ _)⟩

theorem Clean.discard (h : Clean s s') : Clean s (onMetadata (discard nonce) s') :=
  ⟨h.root, h.leftovers, h.others, List.filter_sublist.trans h.temporaries⟩

theorem littered_draft (s : Stored) : Littered nonce s (onMetadata (draft nonce) s) :=
  ⟨rfl, rfl, rfl, List.Sublist.refl _⟩

theorem discard_draft (files : MetadataFiles) :
    (discard nonce (draft nonce files)).temporaries = files.temporaries.filter (·.1 != nonce) := by
  simp [discard, draft]

theorem clean_discard_draft (s : Stored) : Clean s (onMetadata (discard nonce) (onMetadata (draft nonce) s)) := by
  refine ⟨rfl, rfl, rfl, ?_⟩
  change (DisplayName.discard nonce (draft nonce s.metadata)).temporaries.Sublist _
  rw [discard_draft]
  exact List.filter_sublist

theorem clean_replace_draft (s : Stored) : Clean s (onMetadata (replace nonce bytes) (onMetadata (draft nonce) s)) :=
  ⟨rfl, rfl, rfl, (clean_discard_draft s).temporaries⟩

end

section
variable {faults : AtomicStep → Fault.Outcome} {s : Stored} {nonce projectId : Text} {bytes : Bytes}

theorem writeTemporary_ends : Ends (writeTemporary nonce) faults s
    (fun _ s' => s' = onMetadata (draft nonce) s)
    (fun _ s' => s' = s ∨ s' = onMetadata (draft nonce) s ∧ ∃ l ∈ [AtomicStep.write, .fsync], faults l ≠ .done)
    (fun s' => s' = s ∨ s' = onMetadata (draft nonce) s) := by
  unfold writeTemporary
  refine Ends.bind (Ends.look (fun _ _ _ => ?_) (fun _ _ => .inl rfl) (fun _ _ => .inl rfl) fun _ _ => .inl rfl)
  refine Ends.bind (Ends.gradual (fun _ => ?_) (fun n hn => ?_) fun n _ => ?_)
  · refine Ends.gradual (fun _ => rfl) (fun n hn => ?_) fun n _ => ?_
    · exact .inr ⟨ite_self _, .fsync, by simp, by simp [hn]⟩
    · exact .inr (ite_self _)
  · split
    · exact .inl rfl
    · exact .inr ⟨rfl, .write, by simp, by simp [hn]⟩
  · split
    · exact .inl rfl
    · exact .inr rfl

/-- The clean-up after an error of the write. -/
theorem cleanUp_ends {label : AtomicStep} {e : StorageError} {V : Unit → Stored → Prop} :
    Ends (do (Program.atomic .io label (onMetadata (discard nonce))).ignore; Program.throw e :
      Program AtomicStep Stored StorageError Unit) faults s V
      (fun _ s' => s' = onMetadata (discard nonce) s ∨ s' = s ∧ faults label ≠ .done)
      (fun s' => s' = onMetadata (discard nonce) s ∨ s' = s) := by
  refine Ends.bind (Ends.ignore (Ends.atomic (fun _ => ?_) (fun hf => ?_) (fun n _ => ?_) (fun _ => .inr rfl)
    fun n _ => .inl rfl))
  · exact Ends.throw (.inl rfl)
  · exact Ends.throw (.inr ⟨rfl, by simp [hf]⟩)
  · exact Ends.throw (.inl rfl)

theorem writeAtomic_ends : Ends (writeAtomic projectId nonce bytes) faults s
    (fun _ s' => Clean s s' ∧ s'.metadata.content = some bytes)
    (fun _ s' => OldOrNew bytes s s' ∧ (Clean s s' ∨ Littered nonce s s' ∧ Twice faults))
    (fun s' => OldOrNew bytes s s' ∧ Littered nonce s s') := by
  have hsame : OldOrNew bytes s s ∧ (Clean s s ∨ Littered nonce s s ∧ Twice faults) := ⟨.inl rfl, .inl (.refl s)⟩
  have hsame' : OldOrNew bytes s s ∧ Littered nonce s s := ⟨.inl rfl, (Clean.refl s).littered⟩
  unfold writeAtomic
  refine Ends.bind (Ends.look (fun _ _ _ => ?_) (fun _ _ => hsame) (fun _ _ => hsame) fun _ _ => hsame')
  have hinspect : Ends (Program.look .io .inspect fun _ => .ok ⟨⟩ : Program AtomicStep Stored StorageError Unit).ignore
      faults s (fun _ s' => s = s') (fun _ s' => s = s') (fun s' => s = s') :=
    Ends.ignore (Ends.look (fun _ _ _ => rfl) (fun _ _ => rfl) (fun _ _ => rfl) fun _ _ => rfl)
  refine Ends.bind (hinspect.mono ?_ (fun _ _ h => h ▸ hsame) fun _ h => h ▸ hsame')
  rintro - _ rfl
  refine Ends.bind (Ends.rescue (writeTemporary_ends.mono ?_ ?_ ?_))
  rotate_left
  -- An error of the write: the temporary is there only if a step failed, and stays only if the removal failed too.
  · rintro e s' (rfl | ⟨rfl, l, hl, hf⟩)
    · refine cleanUp_ends.mono (fun _ _ h => h) ?_ ?_
      · rintro _ s'' (rfl | ⟨rfl, -⟩)
        · exact ⟨.inl rfl, .inl (Clean.refl _).discard⟩
        · exact hsame
      · rintro s'' (rfl | rfl)
        · exact ⟨.inl rfl, (Clean.refl _).discard.littered⟩
        · exact hsame'
    · refine cleanUp_ends.mono (fun _ _ h => h) ?_ ?_
      · rintro _ s'' (rfl | ⟨rfl, hf'⟩)
        · exact ⟨.inl rfl, .inl (clean_discard_draft s)⟩
        · refine ⟨.inl rfl, .inr ⟨littered_draft s, l, .discard, ?_, hf, hf'⟩⟩
          rintro rfl
          simp at hl
      · rintro s'' (rfl | rfl)
        · exact ⟨.inl rfl, (clean_discard_draft s).littered⟩
        · exact ⟨.inl rfl, littered_draft s⟩
  · rintro s' (rfl | rfl)
    · exact hsame'
    · exact ⟨.inl rfl, littered_draft s⟩
  rintro - s' rfl
  have hnew : Clean s (onMetadata (replace nonce bytes) (onMetadata (draft nonce) s)) := clean_replace_draft s
  refine Ends.bind (Ends.rescue (Ends.atomic (fun _ => ?_) (fun hf => ?_) (fun n _ => ?_) (fun _ => ?_) fun n _ => ?_))
  · exact Ends.atomic (fun _ => ⟨hnew, rfl⟩) (fun _ => ⟨.inr rfl, .inl hnew⟩) (fun _ _ => ⟨.inr rfl, .inl hnew⟩)
      (fun _ => ⟨.inr rfl, hnew.littered⟩) fun _ _ => ⟨.inr rfl, hnew.littered⟩
  · refine cleanUp_ends.mono (fun _ _ h => h) ?_ ?_
    · rintro _ s'' (rfl | ⟨rfl, hf'⟩)
      · exact ⟨.inl rfl, .inl (clean_discard_draft s)⟩
      · exact ⟨.inl rfl, .inr ⟨littered_draft s, .rename, .discardRenamed, by decide, by simp [hf], hf'⟩⟩
    · rintro s'' (rfl | rfl)
      · exact ⟨.inl rfl, (clean_discard_draft s).littered⟩
      · exact ⟨.inl rfl, littered_draft s⟩
  · refine cleanUp_ends.mono (fun _ _ h => h) ?_ ?_
    · rintro _ s'' (rfl | ⟨rfl, -⟩)
      · exact ⟨.inr rfl, .inl hnew.discard⟩
      · exact ⟨.inr rfl, .inl hnew⟩
    · rintro s'' (rfl | rfl)
      · exact ⟨.inr rfl, hnew.discard.littered⟩
      · exact ⟨.inr rfl, hnew.littered⟩
  · exact ⟨.inl rfl, littered_draft s⟩
  · exact ⟨.inr rfl, hnew.littered⟩

end

/-! ## The next open -/

/-- The next open loads what it would have loaded before, with the name that `project.json` holds now. -/
def StillLoads (parse : Reader) (K : Crates) (rm : Remover) (r : UpdateDisplayName) (s s' : Stored) : Prop :=
  ∀ projects name, reopen parse K r.projectId rm s = .ok (projects, name) →
    s'.metadata.content = s.metadata.content ∧ reopen parse K r.projectId rm s' = .ok (projects, name) ∨
      s'.metadata.content = some r.record.canonicalJson ∧
        reopen parse K r.projectId rm s' = .ok (projects, r.displayName)

section
variable {parse : Reader} {K : Crates} {rm : Remover} {projectId : Text} {s s' : Stored}
  {temporaries : List (Text × Bool)}

theorem reopen_ok {projects : List Root.PersistedProject} {name : Text} :
    reopen parse K projectId rm s = .ok (projects, name) ↔ preflightMetadata parse K projectId s.metadata = .ok () ∧
      (Root.openRoot K rm smooth (s.seen parse projectId)).1 = .value projects ∧
      ∃ metadata, validateMetadata parse K projectId (recoverMetadata s.metadata) = .ok metadata ∧
        metadata.displayName = name := by
  unfold reopen
  rw [Outcome.check_ok]
  refine and_congr_right fun _ => ?_
  cases hopen : (Root.openRoot K rm smooth (s.seen parse projectId)).1 with
  | value found =>
    dsimp only
    rw [Outcome.bind_ok]
    constructor
    · rintro ⟨metadata, hmetadata, h⟩
      cases h
      exact ⟨rfl, metadata, hmetadata, rfl⟩
    · rintro ⟨hfound, metadata, hmetadata, rfl⟩
      cases hfound
      exact ⟨metadata, hmetadata, rfl⟩
  | error e => exact ⟨fun h => (by cases h), fun h => (by cases h.1)⟩
  | stop => exact ⟨fun h => (by cases h), fun h => (by cases h.1)⟩

theorem preflightMetadata_ok {files : MetadataFiles} : preflightMetadata parse K projectId files = .ok () ↔
    files.entries ≤ 32 ∧ (∀ temporary ∈ files.temporaries, validateNonce temporary.1 = .ok () ∧ temporary.2 = true) ∧
      (files.content.isSome = true → ∃ metadata, readMetadata parse K projectId files = .ok metadata) := by
  unfold preflightMetadata
  rw [Outcome.check_ok, Outcome.check_ok, boundedDirectoryEntries_ok, Outcome.forM_ok]
  refine and_congr_right fun _ => and_congr ?_ ?_
  · refine forall₂_congr fun temporary _ => ?_
    rw [Outcome.check_ok, ensure_ok]
  · split
    · rename_i hsome
      rw [Outcome.bind_ok]
      exact ⟨fun h _ => h.imp fun _ h => h.1, fun h => (h hsome).imp fun _ h => ⟨h, rfl⟩⟩
    · rename_i hnone
      exact ⟨fun _ hsome => absurd hsome hnone, fun _ => rfl⟩

theorem validateMetadata_ok {files : MetadataFiles} {metadata : ProjectMetadata} :
    validateMetadata parse K projectId files = .ok metadata ↔
      files.entries ≤ 16 ∧ readMetadata parse K projectId files = .ok metadata := by
  unfold validateMetadata
  rw [Outcome.check_ok, boundedDirectoryEntries_ok]

/-- The open after a step that leaves a record of the same id and temporaries for which there is room. -/
theorem reopen_kept {projects : List Root.PersistedProject} {name : Text} {metadata : ProjectMetadata}
    (h : reopen parse K projectId rm s = .ok (projects, name)) (hkept : Kept temporaries s s')
    (hvalid : ∀ temporary ∈ temporaries,
      temporary ∈ s.metadata.temporaries ∨ validateNonce temporary.1 = .ok () ∧ temporary.2 = true)
    (hroom : temporaries.length ≤ s.metadata.temporaries.length ∨
      temporaries.length = s.metadata.temporaries.length + 1 ∧ s.metadata.entries < 32)
    (hread : readMetadata parse K projectId s'.metadata = .ok metadata) :
    reopen parse K projectId rm s' = .ok (projects, metadata.displayName) := by
  obtain ⟨hpreflight, hopen, old, hold, -⟩ := reopen_ok.mp h
  obtain ⟨hentries, htemporaries, -⟩ := preflightMetadata_ok.mp hpreflight
  obtain ⟨hstable, hold⟩ := validateMetadata_ok.mp hold
  have hold : readMetadata parse K projectId s.metadata = .ok old := hold
  obtain ⟨hrecord, ⟨-, hid⟩, -⟩ := readMetadata_ok.mp hold
  obtain ⟨hrecord', ⟨-, hid'⟩, -⟩ := readMetadata_ok.mp hread
  have hcontent : s'.metadata.content.toList.length = s.metadata.content.toList.length := by
    rw [(readRecord_ok.mp hrecord).1, (readRecord_ok.mp hrecord').1]
    rfl
  have hlength := hkept.temporaries.length_le
  refine reopen_ok.mpr ⟨preflightMetadata_ok.mpr ⟨?_, fun temporary hmem => ?_, fun _ => ⟨metadata, hread⟩⟩, ?_,
    metadata, validateMetadata_ok.mpr ⟨?_, hread⟩, rfl⟩
  · unfold MetadataFiles.entries at *
    rw [hcontent, hkept.leftovers, hkept.others]
    omega
  · rcases hvalid temporary (hkept.temporaries.subset hmem) with hmem | hvalid
    · exact htemporaries temporary hmem
    · exact hvalid
  · have hseen : s'.seen parse projectId = s.seen parse projectId := by
      unfold Stored.seen
      rw [hkept.root, hrecord, hrecord']
      change { s.root with projects := s.root.projects.modify projectId fun tree =>
        { tree with project := some metadata.id } } = { s.root with projects := s.root.projects.modify projectId fun tree =>
        { tree with project := some old.id } }
      rw [hid, hid']
    rw [hseen]
    exact hopen
  · unfold MetadataFiles.entries at *
    change _ + 0 + 0 + s'.metadata.others ≤ 16
    change _ + 0 + 0 + s.metadata.others ≤ 16 at hstable
    rw [hkept.others, show (recoverMetadata s'.metadata).content = s'.metadata.content from rfl, hcontent]
    exact hstable

end

section
variable {parse : Reader} {K : Crates} {rm : Remover} {r : UpdateDisplayName} {s s' : Stored}
  {temporaries : List (Text × Bool)}

theorem stillLoads_kept (hr : r.validate K = .ok ()) (hparse : parse r.record.canonicalJson = some r.record)
    (hcontent : OldOrNew r.record.canonicalJson s s') (hkept : Kept temporaries s s')
    (hvalid : ∀ temporary ∈ temporaries,
      temporary ∈ s.metadata.temporaries ∨ validateNonce temporary.1 = .ok () ∧ temporary.2 = true)
    (hroom : temporaries.length ≤ s.metadata.temporaries.length ∨
      temporaries.length = s.metadata.temporaries.length + 1 ∧ s.metadata.entries < 32) :
    StillLoads parse K rm r s s' := by
  intro projects name h
  rcases hcontent with hold | hnew
  · obtain ⟨-, -, metadata, hmetadata, hname⟩ := reopen_ok.mp h
    have hread : readMetadata parse K r.projectId s'.metadata = .ok metadata := by
      rw [readMetadata_congr hold]
      exact (validateMetadata_ok.mp hmetadata).2
    exact .inl ⟨hold, hname ▸ reopen_kept h hkept hvalid hroom hread⟩
  · exact .inr ⟨hnew, reopen_kept h hkept hvalid hroom (readMetadata_record hr hparse hnew)⟩

theorem stillLoads_clean (hr : r.validate K = .ok ()) (hparse : parse r.record.canonicalJson = some r.record)
    (hcontent : OldOrNew r.record.canonicalJson s s') (hclean : Clean s s') : StillLoads parse K rm r s s' :=
  stillLoads_kept hr hparse hcontent hclean (fun _ h => .inl h) (.inl le_rfl)

theorem stillLoads_littered (hr : r.validate K = .ok ()) (hparse : parse r.record.canonicalJson = some r.record)
    (hcontent : OldOrNew r.record.canonicalJson s s') (hlittered : Littered r.nonce s s')
    (hroom : s.metadata.entries < 32) : StillLoads parse K rm r s s' := by
  refine stillLoads_kept hr hparse hcontent hlittered (fun temporary hmem => ?_) (.inr ⟨rfl, hroom⟩)
  rcases List.mem_cons.mp hmem with rfl | hmem
  · exact .inr ⟨r.nonce_valid, rfl⟩
  · exact .inl hmem

theorem StillLoads.refl : StillLoads parse K rm r s s := fun _ _ h => .inl ⟨rfl, h⟩

end

/-! ## The update as a whole -/

section
variable {parse : Reader} {K : Crates} {rm : Remover} {r : UpdateDisplayName} {s s' : Stored}
  {faults : UpdateStep → Fault.Outcome}

/-- An error of the write is taken for a success only where the new record has been read. -/
theorem classify_ends {current updated : ProjectMetadata} {e : StorageError} :
    Ends (classify parse current updated e) faults s
      (fun result s' => s = s' ∧ result = .updated ∧ s.metadata.content = some updated.canonicalJson)
      (fun _ s' => s = s') (fun s' => s = s') := by
  unfold classify
  refine Ends.bind (Ends.rescue (Ends.bind (Ends.look (fun actual hactual _ => ?_) (fun _ _ => ?_) (fun _ _ => ?_)
    fun _ _ => rfl)))
  · refine Ends.pure ?_
    obtain ⟨hcontent, -⟩ := readRecord_ok.mp hactual
    dsimp only
    split
    · rename_i hsame
      refine Ends.bind (Ends.atomic (fun _ => ?_) (fun _ => rfl) (fun _ _ => rfl) (fun _ => rfl) fun _ _ => rfl)
      exact Ends.pure ⟨rfl, rfl, hcontent.trans (congrArg some hsame)⟩
    · split
      · exact Ends.throw rfl
      · exact Ends.throw rfl
  · exact Ends.pure (Ends.throw rfl)
  · exact Ends.pure (Ends.throw rfl)

theorem Twice.relabel {L M : Type} {f : M → L} (hf : Function.Injective f) {faults : L → Fault.Outcome}
    (h : Twice (faults ∘ f)) : Twice faults := by
  obtain ⟨l, l', hne, hl, hl'⟩ := h
  exact ⟨f l, f l', fun heq => hne (hf heq), hl, hl'⟩

/-- What a call leaves: nothing but the record changed, unless two steps failed. -/
def Left (K : Crates) (r : UpdateDisplayName) (faults : UpdateStep → Fault.Outcome) (s s' : Stored) : Prop :=
  s = s' ∨ r.validate K = .ok () ∧ OldOrNew r.record.canonicalJson s s' ∧
    (Clean s s' ∨ Littered r.nonce s s' ∧ Twice faults)

theorem Left.oldOrNew (h : Left K r faults s s') : OldOrNew r.record.canonicalJson s s' := by
  rcases h with rfl | ⟨-, h, -⟩
  · exact .inl rfl
  · exact h

theorem Left.stillLoads (h : Left K r faults s s') (hparse : parse r.record.canonicalJson = some r.record)
    (hroom : ¬ Twice faults ∨ s.metadata.entries < 32) : StillLoads parse K rm r s s' := by
  rcases h with rfl | ⟨hr, hcontent, hclean | ⟨hlittered, htwice⟩⟩
  · exact .refl
  · exact stillLoads_clean hr hparse hcontent hclean
  · exact stillLoads_littered hr hparse hcontent hlittered (hroom.resolve_left (not_not_intro htwice))

theorem updateProjectDisplayName_ends : Ends (updateProjectDisplayName parse K r) faults s
    (fun result s' => (result = .stale → s' = s) ∧
      (result ≠ .stale → s'.metadata.content = some r.record.canonicalJson) ∧ Left K r faults s s')
    (fun _ s' => Left K r faults s s')
    (fun s' => s = s' ∨ r.validate K = .ok () ∧ OldOrNew r.record.canonicalJson s s' ∧ Littered r.nonce s s') := by
  unfold updateProjectDisplayName
  split
  · exact Ends.throw (.inl rfl)
  rename_i hr
  refine Ends.bind (Ends.look (fun _ _ _ => ?_) (fun _ _ => .inl rfl) (fun _ _ => .inl rfl) fun _ _ => .inl rfl)
  refine Ends.bind (Ends.look (fun current hcurrent _ => ?_) (fun _ _ => .inl rfl) (fun _ _ => .inl rfl)
    fun _ _ => .inl rfl)
  obtain ⟨hrecord, ⟨hschema, hid⟩, -⟩ := readMetadata_ok.mp hcurrent
  split
  · rename_i hname
    have hnew : s.metadata.content = some r.record.canonicalJson := by
      have heq : current = r.record := by
        cases current
        cases hschema
        cases hid
        cases hname
        rfl
      exact heq ▸ (readRecord_ok.mp hrecord).1
    refine Ends.bind (Ends.atomic (fun _ => ?_) (fun _ => .inl rfl) (fun _ _ => .inl rfl) (fun _ => .inl rfl)
      fun _ _ => .inl rfl)
    exact Ends.pure ⟨fun h => (by cases h), fun _ => hnew, .inl rfl⟩
  split
  · exact Ends.pure ⟨fun _ => rfl, fun h => absurd rfl h, .inl rfl⟩
  refine Ends.rescue (Ends.bind (Ends.relabel (writeAtomic_ends.mono ?_ ?_ ?_)))
  · rintro - s' ⟨hclean, hcontent⟩
    exact Ends.pure ⟨fun h => (by cases h), fun _ => hcontent, .inr ⟨hr, .inr hcontent, .inl hclean⟩⟩
  · rintro e s' ⟨hcontent, hleft⟩
    have hlittered : Littered r.nonce s s' := hleft.elim Clean.littered And.left
    have hleft : Left K r faults s s' := .inr ⟨hr, hcontent,
      hleft.imp_right fun h => ⟨h.1, h.2.relabel fun _ _ => UpdateStep.write.inj⟩⟩
    refine classify_ends.mono ?_ ?_ ?_
    · rintro result _ ⟨rfl, rfl, hnew⟩
      exact ⟨fun h => (by cases h), fun _ => hnew, hleft⟩
    · rintro _ _ rfl
      exact hleft
    · rintro _ rfl
      exact .inr ⟨hr, hcontent, hlittered⟩
  · rintro s' ⟨hcontent, hlittered⟩
    exact .inr ⟨hr, hcontent, hlittered⟩

/-- Whatever steps fail: `Updated` and `Idempotent` come with the new record, `Stale` with nothing changed, an error
with the old or the new record; and the next open still loads, if one step fails at most or one more entry has room. -/
theorem updateProjectDisplayName_atomic (parse : Reader) (K : Crates) (rm : Remover) (r : UpdateDisplayName)
    (hparse : parse r.record.canonicalJson = some r.record) (faults : UpdateStep → Fault.Outcome) (s : Stored) :
    Ends (updateProjectDisplayName parse K r) faults s
      (fun result s' => (result = .stale → s' = s) ∧
        (result ≠ .stale → s'.metadata.content = some r.record.canonicalJson) ∧
        (¬ Twice faults ∨ s.metadata.entries < 32 → StillLoads parse K rm r s s'))
      (fun _ s' => OldOrNew r.record.canonicalJson s s' ∧
        (¬ Twice faults ∨ s.metadata.entries < 32 → StillLoads parse K rm r s s'))
      (fun s' => OldOrNew r.record.canonicalJson s s' ∧ (s.metadata.entries < 32 → StillLoads parse K rm r s s')) := by
  refine updateProjectDisplayName_ends.mono ?_ ?_ ?_
  · rintro result s' ⟨hstale, hnew, hleft⟩
    exact ⟨hstale, hnew, hleft.stillLoads hparse⟩
  · intro e s' hleft
    exact ⟨hleft.oldOrNew, hleft.stillLoads hparse⟩
  · rintro s' (rfl | ⟨hr, hcontent, hlittered⟩)
    · exact ⟨.inl rfl, fun _ => .refl⟩
    · exact ⟨hcontent, stillLoads_littered hr hparse hcontent hlittered⟩

end

/-! ## A sample -/

/-- The rename of the sample project from `Old` to `New`. -/
def sampleUpdate : UpdateDisplayName where
  projectId := Root.sampleRevision.projectId
  expectedDisplayName := "Old".toList
  displayName := "New".toList
  nonce := List.replicate 32 'a'
  nonce_valid := by decide

def sampleOld : ProjectMetadata := ⟨Backup.storageSchema, sampleUpdate.projectId, "Old".toList⟩

/-- The reader of the two records. -/
def sampleReader : Reader := fun bytes => [sampleOld, sampleUpdate.record].find? (·.canonicalJson = bytes)

def sampleStored : Stored := ⟨Root.sampleRoot, some sampleOld.canonicalJson, [], 0, 9⟩

/-- The directory cannot be synchronized after the rename. -/
def unsynced : UpdateStep → Fault.Outcome
  | .write .sync => .failed 0
  | _ => .done

theorem unsynced_once : ¬ Twice unsynced := by
  have hsync : ∀ {l}, unsynced l ≠ .done → l = .write .sync := by
    intro l hl
    unfold unsynced at hl
    split at hl
    · rfl
    · exact absurd rfl hl
  rintro ⟨l, l', hne, hl, hl'⟩
  exact hne ((hsync hl).trans (hsync hl').symm)

theorem sample_reopen :
    reopen sampleReader sampleCrates sampleUpdate.projectId Root.sampleRemover sampleStored =
      .ok ([Root.samplePersisted], "Old".toList) := by
  have hseen : sampleStored.seen sampleReader sampleUpdate.projectId = Root.sampleRoot := by
    have hrecord : readRecord sampleReader sampleStored.metadata = .ok sampleOld := by decide
    have hprojects : Root.sampleRoot.projects.modify sampleUpdate.projectId (fun tree =>
        { tree with project := (readRecord sampleReader sampleStored.metadata).toOption.map (·.id) }) =
        Root.sampleRoot.projects := by
      refine Std.ExtTreeMap.ext_getElem? fun {id} => ?_
      rw [Std.ExtTreeMap.getElem?_modify, hrecord]
      split
      · rename_i hid
        rw [← Std.LawfulEqCmp.eq_of_compare hid]
        change Option.map _ Root.sampleRoot.projects[Root.sampleRevision.projectId]? =
          Root.sampleRoot.projects[Root.sampleRevision.projectId]?
        rw [Root.sample_project]
        rfl
      · rfl
    unfold Stored.seen
    exact congrArg (fun projects => { Root.sampleRoot with projects }) hprojects
  have hyields : Yields (Root.openRoot sampleCrates Root.sampleRemover) Root.sampleRoot
      fun loaded _ => loaded = [Root.samplePersisted] :=
    (Root.openRoot_yields Root.sample_sound Root.sample_pending Root.sample_loads).mono fun _ _ h => h.1
  obtain ⟨projects, s', hopen, rfl⟩ := hyields
  refine reopen_ok.mpr ⟨by decide, ?_, sampleOld, by decide, rfl⟩
  rw [hseen, hopen]

theorem updateProjectDisplayName_atomic_unsynced : ∃ s',
    updateProjectDisplayName sampleReader sampleCrates sampleUpdate unsynced sampleStored = (.value .updated, s') ∧
      reopen sampleReader sampleCrates sampleUpdate.projectId Root.sampleRemover s' =
        .ok ([Root.samplePersisted], "New".toList) := by
  have hvalue : (updateProjectDisplayName sampleReader sampleCrates sampleUpdate unsynced sampleStored).1 =
      .value .updated := by decide
  have hchanged : some sampleUpdate.record.canonicalJson ≠ sampleStored.metadata.content := by decide
  have h := updateProjectDisplayName_atomic sampleReader sampleCrates Root.sampleRemover sampleUpdate (by decide)
    unsynced sampleStored
  unfold Ends at h
  split at h
  · rename_i result s' hrun
    rw [hrun] at hvalue
    cases hvalue
    obtain ⟨-, hnew, hloads⟩ := h
    have hnew := hnew fun h => (by cases h)
    rcases hloads (.inl unsynced_once) _ _ sample_reopen with ⟨hsame, -⟩ | ⟨-, hopen⟩
    · exact absurd (hnew.symm.trans hsame) hchanged
    · exact ⟨s', hrun, hopen⟩
  · rename_i hrun
    rw [hrun] at hvalue
    cases hvalue
  · rename_i hrun
    rw [hrun] at hvalue
    cases hvalue

end LpStudio.Storage.DisplayName
