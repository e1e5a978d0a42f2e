import LpStudio.Storage.RecoveryReader

/-! # The isolation of recovery points
The damage of one recovery point changes nothing about the others, and a point that is listed as verified opens to the
files that its pointer and its manifests bind.
-/
namespace LpStudio.Storage.RecoveryReader
open Str Paths Outcome DirTree

/-! ## The list -/

theorem pushEntry_ok {α : Type} {retained : Bytes → Bool} {maximum : ℕ} {point : Bytes × α → RecoveryPointSummary}
    {state next : List RecoveryPointSummary × ℕ} {entry : Bytes × α} :
    pushEntry retained maximum point state entry = .ok next ↔
      state.2 + [entry].countP (retained ·.1) ≤ maximum ∧ state.1.length ≠ maxRecoveryPoints ∧
      (point entry).id ∉ state.1.map (·.id) ∧
      next = (state.1 ++ [point entry], state.2 + [entry].countP (retained ·.1)) := by
  have hcount : (if retained entry.1 then state.2 + 1 else state.2) = state.2 + [entry].countP (retained ·.1) := by
    rw [List.countP_singleton]
    split <;> rfl
  unfold pushEntry pushRecoveryPoint
  rw [hcount]
  constructor
  · intro h
    obtain ⟨hmaximum, h⟩ := check_ok.mp h
    obtain ⟨points, hpush, h⟩ := bind_ok.mp h
    obtain ⟨hpoint, hpush⟩ := check_ok.mp hpush
    obtain ⟨hlength, hnew⟩ := ensure_ok.mp hpoint
    cases hpush
    cases h
    exact ⟨ensure_ok.mp hmaximum, hlength, hnew, rfl⟩
  · rintro ⟨hmaximum, hlength, hnew, rfl⟩
    exact check_ok.mpr ⟨ensure_ok.mpr hmaximum, bind_ok.mpr ⟨_, check_ok.mpr ⟨ensure_ok.mpr ⟨hlength, hnew⟩, rfl⟩, rfl⟩⟩

theorem nodup_snoc {ids : List Text} {id : Text} : (ids ++ [id]).Nodup ↔ ids.Nodup ∧ id ∉ ids := by
  rw [List.nodup_append]
  constructor
  · rintro ⟨hids, -, hdisjoint⟩
    exact ⟨hids, fun hmem => hdisjoint id hmem id (List.mem_singleton_self id) rfl⟩
  · rintro ⟨hids, hnew⟩
    refine ⟨hids, List.nodup_singleton id, ?_⟩
    rintro a ha b hb rfl
    exact hnew (List.mem_singleton.mp hb ▸ ha)

/-- The loop pushes the points of all the entries, if there are not too many of them and no two have one id. -/
theorem pushLoop_ok {α : Type} {retained : Bytes → Bool} {maximum : ℕ} {point : Bytes × α → RecoveryPointSummary}
    {entries : List (Bytes × α)} {points : List RecoveryPointSummary} {count : ℕ}
    {final : List RecoveryPointSummary × ℕ} (hpoints : (points.map (·.id)).Nodup)
    (hlength : points.length ≤ maxRecoveryPoints) (hcount : count ≤ maximum) :
    entries.foldlM (pushEntry retained maximum point) (points, count) = .ok final ↔
      count + entries.countP (retained ·.1) ≤ maximum ∧ points.length + entries.length ≤ maxRecoveryPoints ∧
      ((points ++ entries.map point).map (·.id)).Nodup ∧
      final = (points ++ entries.map point, count + entries.countP (retained ·.1)) := by
  induction entries generalizing points count with
  | nil =>
    rw [List.foldlM_nil, pure_ok, List.map_nil, List.append_nil]
    constructor
    · rintro rfl
      exact ⟨hcount, hlength, hpoints, rfl⟩
    · rintro ⟨-, -, -, rfl⟩
      rfl
  | cons entry entries ih =>
    have hsplit : (entry :: entries).countP (retained ·.1) = [entry].countP (retained ·.1) + entries.countP (retained ·.1) :=
      @List.countP_append _ (retained ·.1) [entry] entries
    have happend : points ++ (entry :: entries).map point = points ++ [point entry] ++ entries.map point := by simp
    rw [List.foldlM_cons, bind_ok, hsplit, happend, List.length_cons]
    constructor
    · rintro ⟨next, hnext, hrest⟩
      obtain ⟨hmaximum, hne, hnew, rfl⟩ := pushEntry_ok.mp hnext
      have hids : ((points ++ [point entry]).map (·.id)).Nodup := by
        rw [List.map_append, List.map_singleton]
        exact nodup_snoc.mpr ⟨hpoints, hnew⟩
      have hlengths : (points ++ [point entry]).length ≤ maxRecoveryPoints := by
        rw [List.length_append, List.length_singleton]
        exact Nat.lt_of_le_of_ne hlength hne
      obtain ⟨hcounts, hall, hnodup, rfl⟩ := (ih hids hlengths hmaximum).mp hrest
      rw [List.length_append, List.length_singleton] at hall
      exact ⟨by omega, by omega, hnodup, by rw [Nat.add_assoc]⟩
    · rintro ⟨hcounts, hall, hnodup, rfl⟩
      have hids : ((points ++ [point entry]).map (·.id)).Nodup := by
        rw [List.map_append] at hnodup
        exact (List.nodup_append.mp hnodup).1
      have hnew := hids
      rw [List.map_append, List.map_singleton] at hnew
      have hlengths : (points ++ [point entry]).length ≤ maxRecoveryPoints := by
        rw [List.length_append, List.length_singleton]
        omega
      have hne : points.length ≠ maxRecoveryPoints := by omega
      refine ⟨_, pushEntry_ok.mpr ⟨by omega, hne, (nodup_snoc.mp hnew).2, rfl⟩, (ih hids hlengths (by omega)).mpr ?_⟩
      rw [List.length_append, List.length_singleton]
      exact ⟨by omega, by omega, hnodup, by rw [Nat.add_assoc]⟩

theorem pushEntries_ok {α : Type} {retained : Bytes → Bool} {maximum : ℕ} {point : Bytes × α → RecoveryPointSummary}
    {entries : List (Bytes × α)} {points final : List RecoveryPointSummary} (hpoints : (points.map (·.id)).Nodup)
    (hlength : points.length ≤ maxRecoveryPoints) :
    pushEntries retained maximum point entries points = .ok final ↔
      entries.countP (retained ·.1) ≤ maximum ∧ points.length + entries.length ≤ maxRecoveryPoints ∧
      ((points ++ entries.map point).map (·.id)).Nodup ∧ final = points ++ entries.map point := by
  unfold pushEntries
  simp only [bind_ok, pure_ok, pushLoop_ok hpoints hlength (Nat.zero_le maximum), Nat.zero_add]
  constructor
  · rintro ⟨state, ⟨hmaximum, hall, hnodup, rfl⟩, rfl⟩
    exact ⟨hmaximum, hall, hnodup, rfl⟩
  · rintro ⟨hmaximum, hall, hnodup, rfl⟩
    exact ⟨_, ⟨hmaximum, hall, hnodup, rfl⟩, rfl⟩

theorem pushFirst_ok {α : Type} {retained : Bytes → Bool} {maximum : ℕ} {point : Bytes × α → RecoveryPointSummary}
    {entries : List (Bytes × α)} {final : List RecoveryPointSummary} :
    pushEntries retained maximum point entries [] = .ok final ↔
      entries.countP (retained ·.1) ≤ maximum ∧ entries.length ≤ maxRecoveryPoints ∧
      ((entries.map point).map (·.id)).Nodup ∧ final = entries.map point := by
  have h := @pushEntries_ok _ retained maximum point entries [] final List.nodup_nil (Nat.zero_le _)
  rwa [List.length_nil, Nat.zero_add, List.nil_append] at h

/-- The points of all the entries of a root. -/
def allPoints (R : Readers) (K : Crates) (root : RecoveryRoot) : List RecoveryPointSummary :=
  root.backups.toList.map (backupPoint R K) ++ root.projects.toList.map (projectPoint R K root.objects)

/-- A root that keeps the bounds of the reader. -/
structure WithinBounds (root : RecoveryRoot) : Prop where
  backups : root.backups.keys.countP isBackupName ≤ maxRecoveryBackups
  projects : root.projects.keys.countP isProjectName ≤ maxPersistedProjects
  entries : root.backups.size + root.projects.size ≤ maxRecoveryPoints

theorem countP_toList {α : Type} (map : Std.ExtTreeMap Bytes α compare) (retained : Bytes → Bool) :
    map.toList.countP (retained ·.1) = map.keys.countP retained := by
  rw [← Std.ExtTreeMap.map_fst_toList_eq_keys, List.countP_map]
  rfl

theorem listPoints_ok {R : Readers} {K : Crates} {root : RecoveryRoot} {points : List RecoveryPointSummary} :
    listPoints R K root = .ok points ↔ WithinBounds root ∧ ((allPoints R K root).map (·.id)).Nodup ∧
      points = (allPoints R K root).mergeSort fun a b => (compare a.id b.id).isLE := by
  unfold listPoints
  constructor
  · intro h
    obtain ⟨-, h⟩ := check_ok.mp h
    obtain ⟨backups, hbackups, h⟩ := bind_ok.mp h
    obtain ⟨-, h⟩ := check_ok.mp h
    obtain ⟨projects, hprojects, h⟩ := bind_ok.mp h
    cases h
    obtain ⟨hretained, hsize, hids, rfl⟩ := pushFirst_ok.mp hbackups
    have hlength : (root.backups.toList.map (backupPoint R K)).length ≤ maxRecoveryPoints := by
      rwa [List.length_map]
    obtain ⟨hretained', hall, hnodup, rfl⟩ := (pushEntries_ok hids hlength).mp hprojects
    rw [countP_toList] at hretained hretained'
    rw [List.length_map, Std.ExtTreeMap.length_toList, Std.ExtTreeMap.length_toList] at hall
    exact ⟨⟨hretained, hretained', hall⟩, hnodup, rfl⟩
  · rintro ⟨⟨hbackups, hprojects, hentries⟩, hnodup, rfl⟩
    have hids : ((root.backups.toList.map (backupPoint R K)).map (·.id)).Nodup := by
      rw [allPoints, List.map_append] at hnodup
      exact (List.nodup_append.mp hnodup).1
    have hlength : (root.backups.toList.map (backupPoint R K)).length ≤ maxRecoveryPoints := by
      rw [List.length_map, Std.ExtTreeMap.length_toList]
      omega
    have hpushed : pushEntries isBackupName maxRecoveryBackups (backupPoint R K) root.backups.toList [] =
        .ok (root.backups.toList.map (backupPoint R K)) := by
      refine pushFirst_ok.mpr ⟨by rwa [countP_toList], ?_, hids, rfl⟩
      rw [Std.ExtTreeMap.length_toList]
      omega
    refine check_ok.mpr ⟨boundedDirectoryEntries_ok.mpr (by omega), bind_ok.mpr ⟨_, hpushed,
      check_ok.mpr ⟨boundedDirectoryEntries_ok.mpr (by omega), bind_ok.mpr ⟨allPoints R K root,
        (pushEntries_ok hids hlength).mpr ⟨by rwa [countP_toList], ?_, hnodup, rfl⟩, rfl⟩⟩⟩⟩
    rw [List.length_map, Std.ExtTreeMap.length_toList, Std.ExtTreeMap.length_toList]
    exact hentries

/-! ## The identifiers -/

theorem validateIdentifier_ok {name namePrefix : Text} (h : validateIdentifier name namePrefix = .ok ()) :
    ∃ suffix, name = namePrefix ++ suffix ∧ suffix.length = 32 ∧ suffix.all isLowerHex = true := by
  unfold validateIdentifier stripPrefix at h
  by_cases hprefix : namePrefix.isPrefixOf name = true
  · rw [if_pos hprefix] at h
    obtain ⟨suffix, rfl⟩ := List.isPrefixOf_iff_prefix.mp hprefix
    have hnonce : validateNonce ((namePrefix ++ suffix).drop namePrefix.length) = .ok () := h
    rw [List.drop_left, validateNonce] at hnonce
    split at hnonce
    · rename_i hsuffix
      exact ⟨suffix, rfl, hsuffix.1, hsuffix.2⟩
    · cases hnonce
  · rw [if_neg hprefix] at h
    cases h

theorem identified_some {idPrefix : String} {rawName : Bytes} {name : Text} (h : identified idPrefix rawName = some name) :
    rawName = encode name ∧ validateIdentifier name idPrefix.toList = .ok () := by
  obtain ⟨hdecode, hvalid⟩ := Option.filter_eq_some_iff.mp h
  exact ⟨(encode_of_decode hdecode).symm, of_decide_eq_true hvalid⟩

theorem identified_encode {idPrefix : String} {name : Text} (h : validateIdentifier name idPrefix.toList = .ok ()) :
    identified idPrefix (encode name) = some name := by
  rw [identified, decode_encode]
  exact Option.filter_eq_some_iff.mpr ⟨rfl, decide_eq_true h⟩

theorem encode_append (a b : Text) : encode (a ++ b) = encode a ++ encode b := List.flatMap_append

theorem length_encode_lowerHex {t : Text} (h : t.all isLowerHex = true) : (encode t).length = t.length := by
  induction t with
  | nil => rfl
  | cons c t ih =>
    rw [List.all_cons, Bool.and_eq_true] at h
    have hsize : (String.utf8EncodeChar c).length = 1 := by
      rw [String.length_utf8EncodeChar, Char.utf8Size_eq_one_iff]
      have hc := h.1
      simp only [isLowerHex, isAsciiDigit, Bool.or_eq_true, Bool.and_eq_true, decide_eq_true_eq] at hc
      rw [UInt32.le_iff_toNat_le]
      change c.toNat ≤ 127
      omega
    change (String.utf8EncodeChar c ++ encode t).length = _
    rw [List.length_append, hsize, ih h.2, List.length_cons, Nat.add_comm]

def backupId (K : Crates) (rawName : Bytes) : Text :=
  (identified "bkp_" rawName).getD (recoveryUnverifiedId K "bkp_" "backup-entry" rawName)

theorem verifiedBackupSummary_id {R : Readers} {K : Crates} {name : Text} {backup : BackupDirectory}
    {summary : RecoveryPointSummary} (h : verifiedBackupSummary R K name backup = .ok summary) : summary.id = name := by
  obtain ⟨verified, hverified, h⟩ := bind_ok.mp h
  obtain ⟨files, -, h⟩ := bind_ok.mp h
  obtain ⟨bytes, -, h⟩ := bind_ok.mp h
  cases h
  obtain ⟨-, h⟩ := check_ok.mp hverified
  obtain ⟨project, -, h⟩ := bind_ok.mp h
  obtain ⟨manifestBytes, -, h⟩ := bind_ok.mp h
  obtain ⟨manifest, -, h⟩ := bind_ok.mp h
  obtain ⟨hroot, h⟩ := check_ok.mp h
  cases h
  obtain ⟨-, h⟩ := check_ok.mp hroot
  obtain ⟨-, h⟩ := check_ok.mp h
  exact (ensure_ok.mp (check_ok.mp h).1).symm

theorem backupPoint_id (R : Readers) (K : Crates) (entry : Bytes × Entry BackupDirectory) :
    (backupPoint R K entry).id = backupId K entry.1 := by
  unfold backupPoint backupId
  cases hname : identified "bkp_" entry.1 with
  | none => rfl
  | some name =>
    cases entry.2 with
    | symlink => rfl
    | other => rfl
    | directory backup =>
      cases hsummary : verifiedBackupSummary R K name backup with
      | error e => simp only [hsummary]; rfl
      | ok summary => simp only [hsummary]; exact verifiedBackupSummary_id hsummary

theorem activeRecoverySummary_ok {R : Readers} {K : Crates} {objects : Objects} {project : ProjectDirectory}
    {projectId : Text} {summary : RecoveryPointSummary} :
    activeRecoverySummary R K objects project projectId = .ok summary ↔ ∃ accepted files,
      readAccepted R K project = .ok accepted ∧ loadManifestFiles K objects accepted.2 = .ok files ∧
      summary = {
        id := acceptedRecoveryId K projectId (some accepted.1)
        kind := .lastAccepted
        projectId
        revisionId := some accepted.1.revisionId
        artifactManifestSha256 := some accepted.1.artifactManifestSha256
        diagnostic := ⟨true, "last_accepted_verified".toList, some accepted.1.canonicalManifestSha256,
          accepted.2.files.length, (accepted.2.files.map (·.byteLength)).sum⟩ } := by
  constructor
  · intro h
    obtain ⟨accepted, haccepted, h⟩ := bind_ok.mp h
    obtain ⟨files, hfiles, h⟩ := bind_ok.mp h
    cases h
    exact ⟨accepted, files, haccepted, hfiles, rfl⟩
  · rintro ⟨accepted, files, haccepted, hfiles, rfl⟩
    exact bind_ok.mpr ⟨accepted, haccepted, bind_ok.mpr ⟨files, hfiles, rfl⟩⟩

/-- The pointer of a project that the reader verifies. -/
def verifiedPointer (R : Readers) (K : Crates) (objects : Objects) (entry : Entry ProjectDirectory) : Option Pointer :=
  match entry with
  | .directory project => (do
      let accepted ← readAccepted R K project
      let _ ← loadManifestFiles K objects accepted.2
      return accepted.1 : Except StorageError Pointer).toOption
  | _ => none

/-- What the identifier of a project's point is the digest of. -/
def projectFingerprint (R : Readers) (K : Crates) (objects : Objects) (entry : Bytes × Entry ProjectDirectory) : Bytes :=
  match identified "prj_" entry.1 with
  | some name => acceptedFingerprint name (verifiedPointer R K objects entry.2)
  | none => entryFingerprint "project-entry" entry.1

theorem projectPoint_id (R : Readers) (K : Crates) (objects : Objects) (entry : Bytes × Entry ProjectDirectory) :
    (projectPoint R K objects entry).id = "acc_".toList ++ shortDigest K (projectFingerprint R K objects entry) := by
  unfold projectPoint projectFingerprint
  cases hname : identified "prj_" entry.1 with
  | none => rfl
  | some name =>
    cases entry.2 with
    | symlink => rfl
    | other => rfl
    | directory project =>
      simp only [verifiedPointer]
      cases haccepted : readAccepted R K project with
      | error e =>
        have hsummary : activeRecoverySummary R K objects project name = .error e := by
          rw [activeRecoverySummary, haccepted]
          rfl
        rw [hsummary]
        rfl
      | ok accepted =>
        cases hfiles : loadManifestFiles K objects accepted.2 with
        | error e =>
          have hsummary : activeRecoverySummary R K objects project name = .error e := by
            rw [activeRecoverySummary, haccepted]
            change loadManifestFiles K objects accepted.2 >>= _ = _
            rw [hfiles]
            rfl
          rw [hsummary]
          change _ = "acc_".toList ++ shortDigest K (acceptedFingerprint name
            (loadManifestFiles K objects accepted.2 >>= _).toOption)
          rw [hfiles]
          rfl
        | ok files =>
          rw [activeRecoverySummary_ok.mpr ⟨accepted, files, haccepted, hfiles, rfl⟩]
          change _ = "acc_".toList ++ shortDigest K (acceptedFingerprint name
            (loadManifestFiles K objects accepted.2 >>= _).toOption)
          rw [hfiles]
          rfl

/-- What the identifiers of a root are the digests of. -/
def fingerprints (R : Readers) (K : Crates) (root : RecoveryRoot) : List Bytes :=
  (root.backups.keys.filter fun rawName => !isBackupName rawName).map (entryFingerprint "backup-entry") ++
    root.projects.toList.map (projectFingerprint R K root.objects)

/-- No two of the digests collide, and none is the name of a backup. -/
structure DigestsDistinct (R : Readers) (K : Crates) (root : RecoveryRoot) : Prop where
  collisions : ∀ a ∈ fingerprints R K root, ∀ b ∈ fingerprints R K root, shortDigest K a = shortDigest K b → a = b
  names : ∀ rawName ∈ root.backups.keys, ∀ other ∈ root.backups.keys, isBackupName rawName = false →
    identified "bkp_" other ≠ some (recoveryUnverifiedId K "bkp_" "backup-entry" rawName)

theorem entryFingerprint_injective {sourceKind : String} {a b : Bytes}
    (h : entryFingerprint sourceKind a = entryFingerprint sourceKind b) : a = b :=
  (List.cons.inj (List.append_cancel_left h)).2

theorem backupId_injective {R : Readers} {K : Crates} {root : RecoveryRoot} (h : DigestsDistinct R K root) {a b : Bytes}
    (ha : a ∈ root.backups.keys) (hb : b ∈ root.backups.keys) (hab : backupId K a = backupId K b) : a = b := by
  have hfallback : ∀ {rawName}, rawName ∈ root.backups.keys → identified "bkp_" rawName = none →
      isBackupName rawName = false ∧ entryFingerprint "backup-entry" rawName ∈ fingerprints R K root := by
    intro rawName hmem hname
    have hfalse : isBackupName rawName = false := by rw [isBackupName, hname]; rfl
    refine ⟨hfalse, List.mem_append_left _ (List.mem_map_of_mem (List.mem_filter.mpr ⟨hmem, ?_⟩))⟩
    rw [hfalse]
    rfl
  unfold backupId at hab
  cases hna : identified "bkp_" a with
  | some name =>
    cases hnb : identified "bkp_" b with
    | some other =>
      rw [hna, hnb] at hab
      rw [(identified_some hna).1, (identified_some hnb).1]
      exact congrArg encode hab
    | none =>
      rw [hna, hnb] at hab
      rw [Option.getD_some, Option.getD_none] at hab
      exact absurd (hab ▸ hna) (h.names b hb a ha (hfallback hb hnb).1)
  | none =>
    cases hnb : identified "bkp_" b with
    | some other =>
      rw [hna, hnb, Option.getD_some, Option.getD_none] at hab
      exact absurd (hab ▸ hnb) (h.names a ha b hb (hfallback ha hna).1)
    | none =>
      rw [hna, hnb, Option.getD_none, Option.getD_none] at hab
      exact entryFingerprint_injective
        (h.collisions _ (hfallback ha hna).2 _ (hfallback hb hnb).2 (List.append_cancel_left hab))

theorem acceptedFingerprint_start {name : Text} (h : validateIdentifier name "prj_".toList = .ok ()) (pointer : Option Pointer) :
    (acceptedFingerprint name pointer)[2]? = some 106 ∧ (encode name).length = 36 := by
  obtain ⟨suffix, rfl, hlength, hhex⟩ := validateIdentifier_ok h
  have hprefix : encode "prj_".toList = [112, 114, 106, 95] := by decide
  rw [acceptedFingerprint, encode_append, hprefix, List.length_append, length_encode_lowerHex hhex, hlength]
  exact ⟨rfl, rfl⟩

theorem projectFingerprint_injective {R : Readers} {K : Crates} {objects : Objects}
    {a b : Bytes × Entry ProjectDirectory} (h : projectFingerprint R K objects a = projectFingerprint R K objects b) :
    a.1 = b.1 := by
  have hentry : ∀ rawName : Bytes, (entryFingerprint "project-entry" rawName)[2]? = some 111 := by
    intro rawName
    have hkind : encode "project-entry".toList = [112, 114, 111, 106, 101, 99, 116, 45, 101, 110, 116, 114, 121] := by
      decide
    rw [entryFingerprint, hkind]
    rfl
  unfold projectFingerprint at h
  cases hna : identified "prj_" a.1 with
  | some name =>
    obtain ⟨haraw, havalid⟩ := identified_some hna
    obtain ⟨hastart, halength⟩ := acceptedFingerprint_start havalid (verifiedPointer R K objects a.2)
    cases hnb : identified "prj_" b.1 with
    | some other =>
      obtain ⟨hbraw, hbvalid⟩ := identified_some hnb
      have hblength := (acceptedFingerprint_start hbvalid none).2
      rw [hna, hnb] at h
      rw [haraw, hbraw]
      exact (List.append_inj h (by rw [halength, hblength])).1
    | none =>
      rw [hna, hnb] at h
      simp only at h
      rw [h, hentry] at hastart
      exact absurd (Option.some.inj hastart) (by decide)
  | none =>
    cases hnb : identified "prj_" b.1 with
    | some other =>
      obtain ⟨hbraw, hbvalid⟩ := identified_some hnb
      have hbstart := (acceptedFingerprint_start hbvalid (verifiedPointer R K objects b.2)).1
      rw [hna, hnb] at h
      simp only at h
      rw [← h, hentry] at hbstart
      exact absurd (Option.some.inj hbstart) (by decide)
    | none =>
      rw [hna, hnb] at h
      exact entryFingerprint_injective h

theorem toList_eq_of_fst {α : Type} {map : Std.ExtTreeMap Bytes α compare} {a b : Bytes × α} (ha : a ∈ map.toList)
    (hb : b ∈ map.toList) (h : a.1 = b.1) : a = b := by
  have hvalue := Std.ExtTreeMap.mem_toList_iff_getElem?_eq_some.mp (show (a.1, a.2) ∈ map.toList from ha)
  have hvalue' := Std.ExtTreeMap.mem_toList_iff_getElem?_eq_some.mp (show (b.1, b.2) ∈ map.toList from hb)
  rw [h, hvalue'] at hvalue
  exact Prod.ext h (Option.some.inj hvalue).symm

theorem toList_nodup {α : Type} (map : Std.ExtTreeMap Bytes α compare) : map.toList.Nodup := by
  refine List.Nodup.of_map Prod.fst ?_
  rw [Std.ExtTreeMap.map_fst_toList_eq_keys]
  exact Std.ExtTreeMap.nodup_keys

/-- No two points have one identifier. -/
theorem ids_nodup {R : Readers} {K : Crates} {root : RecoveryRoot} (h : DigestsDistinct R K root) :
    ((allPoints R K root).map (·.id)).Nodup := by
  rw [allPoints, List.map_append, List.map_map, List.map_map]
  refine List.nodup_append.mpr ⟨?_, ?_, ?_⟩
  · refine List.Nodup.map_on (fun a ha b hb hab => ?_) (toList_nodup _)
    have hab : (backupPoint R K a).id = (backupPoint R K b).id := hab
    rw [backupPoint_id, backupPoint_id] at hab
    have hkeys : ∀ {entry}, entry ∈ root.backups.toList → entry.1 ∈ root.backups.keys := by
      intro entry hentry
      rw [← Std.ExtTreeMap.map_fst_toList_eq_keys]
      exact List.mem_map_of_mem hentry
    exact toList_eq_of_fst ha hb (backupId_injective h (hkeys ha) (hkeys hb) hab)
  · refine List.Nodup.map_on (fun a ha b hb hab => ?_) (toList_nodup _)
    have hab : (projectPoint R K root.objects a).id = (projectPoint R K root.objects b).id := hab
    rw [projectPoint_id, projectPoint_id] at hab
    have hmem : ∀ {entry}, entry ∈ root.projects.toList →
        projectFingerprint R K root.objects entry ∈ fingerprints R K root := fun hentry =>
      List.mem_append_right _ (List.mem_map_of_mem hentry)
    exact toList_eq_of_fst ha hb (projectFingerprint_injective
      (h.collisions _ (hmem ha) _ (hmem hb) (List.append_cancel_left hab)))
  · intro id hid other hother heq
    obtain ⟨backup, -, rfl⟩ := List.mem_map.mp hid
    obtain ⟨project, -, rfl⟩ := List.mem_map.mp hother
    have heq : (backupPoint R K backup).id = (projectPoint R K root.objects project).id := heq
    rw [backupPoint_id, projectPoint_id] at heq
    have hstart : (backupId K backup.1)[0]? = some 'b' := by
      unfold backupId
      cases hname : identified "bkp_" backup.1 with
      | none => rfl
      | some name =>
        obtain ⟨suffix, rfl, -⟩ := validateIdentifier_ok (identified_some hname).2
        rfl
    rw [heq] at hstart
    exact absurd (Option.some.inj hstart) (by decide)

/-! ## Confined damage -/

/-- An entry of the root, by the bytes of its name. -/
inductive Point where
  | backup (rawName : Bytes)
  | project (rawName : Bytes)
  deriving DecidableEq

/-- What the list shows of an entry. -/
def summaryOf (R : Readers) (K : Crates) (root : RecoveryRoot) : Point → Option RecoveryPointSummary
  | .backup rawName => root.backups[rawName]?.map fun entry => backupPoint R K (rawName, entry)
  | .project rawName => root.projects[rawName]?.map fun entry => projectPoint R K root.objects (rawName, entry)

theorem mem_allPoints {R : Readers} {K : Crates} {root : RecoveryRoot} {summary : RecoveryPointSummary} :
    summary ∈ allPoints R K root ↔ ∃ point, summaryOf R K root point = some summary := by
  rw [allPoints, List.mem_append, List.mem_map, List.mem_map]
  constructor
  · rintro (⟨⟨rawName, entry⟩, hentry, rfl⟩ | ⟨⟨rawName, entry⟩, hentry, rfl⟩)
    · exact ⟨.backup rawName, Option.map_eq_some_iff.mpr
        ⟨entry, Std.ExtTreeMap.mem_toList_iff_getElem?_eq_some.mp hentry, rfl⟩⟩
    · exact ⟨.project rawName, Option.map_eq_some_iff.mpr
        ⟨entry, Std.ExtTreeMap.mem_toList_iff_getElem?_eq_some.mp hentry, rfl⟩⟩
  · rintro ⟨rawName | rawName, h⟩
    · obtain ⟨entry, hentry, rfl⟩ := Option.map_eq_some_iff.mp h
      exact .inl ⟨(rawName, entry), Std.ExtTreeMap.mem_toList_iff_getElem?_eq_some.mpr hentry, rfl⟩
    · obtain ⟨entry, hentry, rfl⟩ := Option.map_eq_some_iff.mp h
      exact .inr ⟨(rawName, entry), Std.ExtTreeMap.mem_toList_iff_getElem?_eq_some.mpr hentry, rfl⟩

/-- Two roots that differ in what one entry holds, and in objects that the manifest of no other project names. -/
structure Confined (R : Readers) (K : Crates) (point : Point) (root root' : RecoveryRoot) : Prop where
  present : (summaryOf R K root point).isSome = true
  backups : ∀ rawName, point ≠ .backup rawName → root'.backups[rawName]? = root.backups[rawName]?
  projects : ∀ rawName, point ≠ .project rawName → root'.projects[rawName]? = root.projects[rawName]?
  objects : ∀ rawName project accepted, point ≠ .project rawName →
    root.projects[rawName]? = some (.directory project) → readAccepted R K project = .ok accepted →
    ∀ file ∈ accepted.2.files, root'.objects[file.sha256]? = root.objects[file.sha256]?

theorem loadManifestFiles_congr {K : Crates} {objects objects' : Objects} {manifest : RevisionRecord}
    (h : ∀ file ∈ manifest.files, objects'[file.sha256]? = objects[file.sha256]?) :
    loadManifestFiles K objects' manifest = loadManifestFiles K objects manifest := by
  refine foldlM_congr (fun files file hfile => ?_) ∅
  rw [loadManifestFile, loadManifestFile, Root.readObject, Root.readObject, h file hfile]

namespace Confined
variable {R : Readers} {K : Crates} {point : Point} {root root' : RecoveryRoot}

/-- The damage of a point changes nothing about the others. -/
theorem summaryOf_eq (h : Confined R K point root root') {other : Point} (hother : other ≠ point) :
    summaryOf R K root' other = summaryOf R K root other := by
  cases other with
  | backup rawName =>
    rw [summaryOf, summaryOf, h.backups rawName hother.symm]
  | project rawName =>
    rw [summaryOf, summaryOf, h.projects rawName hother.symm]
    cases hentry : root.projects[rawName]? with
    | none => rfl
    | some entry =>
      rw [Option.map_some, Option.map_some, Option.some.injEq]
      cases entry with
      | symlink => rfl
      | other => rfl
      | directory project =>
        have hactive : ∀ name, activeRecoverySummary R K root'.objects project name =
            activeRecoverySummary R K root.objects project name := by
          intro name
          cases haccepted : readAccepted R K project with
          | error e =>
            rw [activeRecoverySummary, activeRecoverySummary, haccepted]
            rfl
          | ok accepted =>
            rw [activeRecoverySummary, activeRecoverySummary, haccepted]
            change loadManifestFiles K root'.objects accepted.2 >>= _ = loadManifestFiles K root.objects accepted.2 >>= _
            rw [loadManifestFiles_congr (h.objects rawName project accepted hother.symm hentry haccepted)]
        unfold projectPoint
        simp only [hactive]

theorem mem_backups (h : Confined R K point root root') {rawName : Bytes} (hmem : rawName ∈ root'.backups) :
    rawName ∈ root.backups := by
  by_cases heq : point = .backup rawName
  · have hpresent := h.present
    rw [heq, summaryOf, Option.isSome_map] at hpresent
    exact Std.ExtTreeMap.mem_iff_isSome_getElem?.mpr hpresent
  · rw [Std.ExtTreeMap.mem_iff_isSome_getElem?, h.backups rawName heq] at hmem
    exact Std.ExtTreeMap.mem_iff_isSome_getElem?.mpr hmem

theorem mem_projects (h : Confined R K point root root') {rawName : Bytes} (hmem : rawName ∈ root'.projects) :
    rawName ∈ root.projects := by
  by_cases heq : point = .project rawName
  · have hpresent := h.present
    rw [heq, summaryOf, Option.isSome_map] at hpresent
    exact Std.ExtTreeMap.mem_iff_isSome_getElem?.mpr hpresent
  · rw [Std.ExtTreeMap.mem_iff_isSome_getElem?, h.projects rawName heq] at hmem
    exact Std.ExtTreeMap.mem_iff_isSome_getElem?.mpr hmem

end Confined

/-- Another content of a backup. -/
theorem confined_backup (R : Readers) (K : Crates) (root : RecoveryRoot) (rawName : Bytes)
    (entry entry' : Entry BackupDirectory) : Confined R K (.backup rawName)
      { root with backups := root.backups.insert rawName entry }
      { root with backups := root.backups.insert rawName entry' } := by
  refine ⟨?_, fun other hne => ?_, fun _ _ => rfl, fun _ _ _ _ _ _ _ _ => rfl⟩
  · rw [summaryOf, Option.isSome_map, Std.ExtTreeMap.getElem?_insert_self]
    rfl
  · have hother : compare rawName other ≠ .eq := fun heq => hne (congrArg _ (Std.LawfulEqCmp.eq_of_compare heq))
    rw [Std.ExtTreeMap.getElem?_insert, Std.ExtTreeMap.getElem?_insert, if_neg hother, if_neg hother]

theorem keys_subperm {α : Type} {map map' : Std.ExtTreeMap Bytes α compare} (h : ∀ {rawName}, rawName ∈ map' → rawName ∈ map) :
    map'.keys.Subperm map.keys :=
  List.subperm_of_subset Std.ExtTreeMap.nodup_keys fun _ hmem =>
    Std.ExtTreeMap.mem_keys.mpr (h (Std.ExtTreeMap.mem_keys.mp hmem))

theorem Confined.withinBounds {R : Readers} {K : Crates} {point : Point} {root root' : RecoveryRoot}
    (h : Confined R K point root root') (hbounds : WithinBounds root) : WithinBounds root' := by
  have hbackups : root'.backups.keys.Subperm root.backups.keys := keys_subperm h.mem_backups
  have hprojects : root'.projects.keys.Subperm root.projects.keys := keys_subperm h.mem_projects
  refine ⟨(hbackups.countP_le _).trans hbounds.backups, (hprojects.countP_le _).trans hbounds.projects, ?_⟩
  have hlengths := Nat.add_le_add hbackups.length_le hprojects.length_le
  rw [Std.ExtTreeMap.length_keys, Std.ExtTreeMap.length_keys, Std.ExtTreeMap.length_keys,
    Std.ExtTreeMap.length_keys] at hlengths
  exact hlengths.trans hbounds.entries

/-! ## Snapshots -/

/-- The files that a manifest lists, with the digests that it lists. -/
structure ManifestFiles (K : Crates) (manifest : RevisionRecord) (files : Files) : Prop where
  paths : ∀ path, path ∈ files ↔ ∃ file ∈ manifest.files, file.path = path
  digests : ∀ file ∈ manifest.files, ∃ content, files[file.path]? = some content ∧
    content.length = file.byteLength ∧ K.sha256 content = file.sha256

/-- The files of the revision that a pointer names, through a manifest with the digest that it holds. -/
structure RevisionBinds (R : Readers) (K : Crates) (current : Option Bytes) (revision : Pointer → Option Bytes)
    (pointer : Pointer) (files : Files) : Prop where
  current : readPointer R current = .ok pointer
  manifest : ∃ bytes manifest, revision pointer = some bytes ∧ K.sha256 bytes = pointer.canonicalManifestSha256 ∧
    R.revision bytes = some manifest ∧ manifest.revisionId = pointer.revisionId ∧
    manifest.artifactManifestSha256 = pointer.artifactManifestSha256 ∧ ManifestFiles K manifest files

/-- The files that a listed point stands for. -/
inductive SnapshotBinds (R : Readers) (K : Crates) (root : RecoveryRoot) (point : RecoveryPointSummary) (files : Files) : Prop
  | backup (backup : BackupDirectory) (tree : Backup.ProjectTree) (bytes : Bytes) (manifest : Backup.BackupManifest)
      (pointer : Pointer) (kind : point.kind = .versionedBackup)
      (entry : root.backups[encode point.id]? = some (.directory backup)) (project : backup.project = some tree)
      (listed : backup.manifest = some bytes ∧ point.diagnostic.manifestSha256 = some (K.sha256 bytes))
      (read : R.backupManifest bytes = some manifest)
      (copied : Backup.collectBackupTree K tree = .ok (manifest.directories, manifest.files))
      (revision : RevisionBinds R K (fileAt tree ["current.json".toList])
        (fun pointer => fileAt tree ["revisions".toList, revisionFileName pointer]) pointer files)
  | project (project : ProjectDirectory) (pointer : Pointer) (kind : point.kind = .lastAccepted)
      (entry : root.projects[encode point.projectId]? = some (.directory project))
      (listed : point.diagnostic.manifestSha256 = some pointer.canonicalManifestSha256)
      (revision : RevisionBinds R K project.current (fun pointer => project.revisions[revisionFileName pointer]?)
        pointer files)

theorem readRegularFileBounded_ok {file : Option Bytes} {maximum : ℕ} {bytes : Bytes}
    (h : readRegularFileBounded file maximum = .ok bytes) : file = some bytes := by
  unfold readRegularFileBounded at h
  split at h
  · split at h
    · cases h
      rfl
    · cases h
  · cases h

theorem canonicalRecord_ok {α : Type} {parse : Bytes → Option α} {toJson : α → Json} {bytes : Bytes} {value : α}
    (h : canonicalRecord parse toJson bytes = .ok value) : parse bytes = some value := by
  unfold canonicalRecord at h
  split at h
  · rename_i hparse
    split at h
    · cases h
      exact hparse
    · cases h
  · cases h

theorem readManifestFromRoot_ok {R : Readers} {K : Crates} {file : Option Bytes} {pointer : Pointer}
    {manifest : RevisionRecord} (h : readManifestFromRoot R K file pointer = .ok manifest) :
    (∃ bytes, file = some bytes ∧ K.sha256 bytes = pointer.canonicalManifestSha256 ∧ R.revision bytes = some manifest) ∧
      manifest.revisionId = pointer.revisionId ∧ manifest.artifactManifestSha256 = pointer.artifactManifestSha256 ∧
      validateStoredFiles K manifest.files = .ok () := by
  obtain ⟨bytes, hbytes, h⟩ := bind_ok.mp h
  obtain ⟨hdigest, h⟩ := check_ok.mp h
  obtain ⟨found, hfound, h⟩ := bind_ok.mp h
  obtain ⟨hchecks, h⟩ := check_ok.mp h
  cases h
  obtain ⟨-, hrevision, hartifact, -, hstored⟩ := ensure_ok.mp hchecks
  exact ⟨⟨bytes, readRegularFileBounded_ok hbytes, ensure_ok.mp hdigest, canonicalRecord_ok hfound⟩, hrevision,
    hartifact, hstored⟩

theorem loadManifestFile_ok {K : Crates} {objects : Objects} {files next : Files} {entry : StoredFile}
    (h : loadManifestFile K objects files entry = .ok next) : ∃ content, next = files.insert entry.path content ∧
      content.length = entry.byteLength ∧ K.sha256 content = entry.sha256 := by
  obtain ⟨-, h⟩ := check_ok.mp h
  obtain ⟨object, hobject, h⟩ := bind_ok.mp h
  cases h
  unfold Root.readObject at hobject
  split at hobject
  · cases hobject
  · split at hobject
    · rename_i hsame
      cases hobject
      exact ⟨_, rfl, hsame⟩
    · cases hobject

/-- The loop inserts every file, with the length and the digest of its entry. -/
theorem loadFiles_ok {K : Crates} {objects : Objects} {entries : List StoredFile} {files final : Files}
    (hpaths : (entries.map (·.path)).Nodup) (h : entries.foldlM (loadManifestFile K objects) files = .ok final) :
    (∀ path, path ∈ final ↔ path ∈ files ∨ ∃ entry ∈ entries, entry.path = path) ∧
    (∀ path, path ∉ entries.map (·.path) → final[path]? = files[path]?) ∧
    ∀ entry ∈ entries, ∃ content, final[entry.path]? = some content ∧ content.length = entry.byteLength ∧
      K.sha256 content = entry.sha256 := by
  induction entries generalizing files with
  | nil =>
    cases h
    exact ⟨fun path => by simp, fun _ _ => rfl, fun _ hmem => absurd hmem List.not_mem_nil⟩
  | cons entry entries ih =>
    rw [List.map_cons, List.nodup_cons] at hpaths
    obtain ⟨next, hnext, hrest⟩ := bind_ok.mp h
    obtain ⟨content, rfl, hcontent⟩ := loadManifestFile_ok hnext
    obtain ⟨hmem, hkeep, hall⟩ := ih hpaths.2 hrest
    refine ⟨fun path => ?_, fun path hpath => ?_, fun other hother => ?_⟩
    · rw [hmem, Std.ExtTreeMap.mem_insert]
      constructor
      · rintro ((heq | hold) | ⟨other, hother, hpath⟩)
        · exact .inr ⟨entry, List.mem_cons_self, Std.LawfulEqCmp.eq_of_compare heq⟩
        · exact .inl hold
        · exact .inr ⟨other, List.mem_cons_of_mem _ hother, hpath⟩
      · rintro (hold | ⟨other, hother, rfl⟩)
        · exact .inl (.inr hold)
        · rcases List.mem_cons.mp hother with rfl | hother
          · exact .inl (.inl Std.ReflCmp.compare_self)
          · exact .inr ⟨other, hother, rfl⟩
    · rw [List.map_cons, List.mem_cons, not_or] at hpath
      rw [hkeep path hpath.2, Std.ExtTreeMap.getElem?_insert,
        if_neg fun heq => hpath.1 (Std.LawfulEqCmp.eq_of_compare heq).symm]
    · rcases List.mem_cons.mp hother with rfl | hother
      · refine ⟨content, ?_, hcontent⟩
        rw [hkeep _ hpaths.1, Std.ExtTreeMap.getElem?_insert_self]
      · exact hall other hother

theorem validateStoredFiles_nodup {K : Crates} {files : List StoredFile} (h : validateStoredFiles K files = .ok ()) :
    (files.map (·.path)).Nodup := by
  unfold validateStoredFiles at h
  split at h
  · rename_i hvalid
    have hsorted := hvalid.2.2.2.2.2.1
    rw [List.Nodup, List.pairwise_map]
    refine hsorted.imp fun {a b} hlt heq => ?_
    have hself : compare b.path b.path = .eq := Std.ReflCmp.compare_self
    rw [heq, hself] at hlt
    cases hlt
  · cases h

theorem loadManifestFiles_ok {K : Crates} {objects : Objects} {manifest : RevisionRecord} {files : Files}
    (hstored : validateStoredFiles K manifest.files = .ok ()) (h : loadManifestFiles K objects manifest = .ok files) :
    ManifestFiles K manifest files := by
  obtain ⟨hmem, -, hall⟩ := loadFiles_ok (validateStoredFiles_nodup hstored) h
  refine ⟨fun path => ?_, hall⟩
  rw [hmem]
  exact or_iff_right Std.ExtTreeMap.not_mem_empty

theorem manifestFiles_of_stored {K : Crates} {manifest : RevisionRecord} {files : Files}
    (h : storedFiles K files.toList = some manifest.files) : ManifestFiles K manifest files := by
  obtain ⟨-, hstored⟩ := Materialize.storedFiles_some h
  have hfile : ∀ {file}, file ∈ manifest.files ↔ ∃ path content, files[path]? = some content ∧ store K (path, content) = file := by
    intro file
    rw [hstored, List.mem_map]
    constructor
    · rintro ⟨⟨path, content⟩, hmem, rfl⟩
      exact ⟨path, content, Std.ExtTreeMap.mem_toList_iff_getElem?_eq_some.mp hmem, rfl⟩
    · rintro ⟨path, content, hmem, rfl⟩
      exact ⟨(path, content), Std.ExtTreeMap.mem_toList_iff_getElem?_eq_some.mpr hmem, rfl⟩
  refine ⟨fun path => ?_, fun file hmem => ?_⟩
  · rw [Std.ExtTreeMap.mem_iff_isSome_getElem?, Option.isSome_iff_exists]
    constructor
    · rintro ⟨content, hcontent⟩
      exact ⟨_, hfile.mpr ⟨path, content, hcontent, rfl⟩, rfl⟩
    · rintro ⟨file, hmem, rfl⟩
      obtain ⟨path, content, hcontent, rfl⟩ := hfile.mp hmem
      exact ⟨content, hcontent⟩
  · obtain ⟨path, content, hcontent, rfl⟩ := hfile.mp hmem
    exact ⟨content, hcontent, rfl, rfl⟩

theorem readLastAccepted_binds {R : Readers} {K : Crates} {tree : Backup.ProjectTree} {files : Files}
    (h : readLastAcceptedFromProjectTree R K tree = .ok files) : ∃ pointer,
      RevisionBinds R K (fileAt tree ["current.json".toList])
        (fun pointer => fileAt tree ["revisions".toList, revisionFileName pointer]) pointer files := by
  obtain ⟨pointer, hpointer, h⟩ := bind_ok.mp h
  obtain ⟨manifest, hmanifest, h⟩ := bind_ok.mp h
  obtain ⟨scanned, -, h⟩ := bind_ok.mp h
  obtain ⟨stored, hstored, h⟩ := bind_ok.mp h
  obtain ⟨hsame, h⟩ := check_ok.mp h
  cases h
  obtain ⟨⟨bytes, hbytes, hdigest, hread⟩, hrevision, hartifact, -⟩ := readManifestFromRoot_ok hmanifest
  refine ⟨pointer, hpointer, bytes, manifest, hbytes, hdigest, hread, hrevision, hartifact, manifestFiles_of_stored ?_⟩
  rw [← ensure_ok.mp hsame]
  exact Materialize.elim_ok.mp hstored

theorem readAccepted_binds {R : Readers} {K : Crates} {objects : Objects} {project : ProjectDirectory}
    {accepted : Pointer × RevisionRecord} {files : Files} (h : readAccepted R K project = .ok accepted)
    (hfiles : loadManifestFiles K objects accepted.2 = .ok files) :
    RevisionBinds R K project.current (fun pointer => project.revisions[revisionFileName pointer]?) accepted.1 files := by
  obtain ⟨pointer, hpointer, h⟩ := bind_ok.mp h
  obtain ⟨manifest, hmanifest, h⟩ := bind_ok.mp h
  cases h
  obtain ⟨⟨bytes, hbytes, hdigest, hread⟩, hrevision, hartifact, hstored⟩ := readManifestFromRoot_ok hmanifest
  exact ⟨hpointer, bytes, manifest, hbytes, hdigest, hread, hrevision, hartifact, loadManifestFiles_ok hstored hfiles⟩

/-- A backup that is listed as verified. -/
theorem backupPoint_verified {R : Readers} {K : Crates} {entry : Bytes × Entry BackupDirectory}
    (h : (backupPoint R K entry).diagnostic.verified = true) : ∃ name backup, identified "bkp_" entry.1 = some name ∧
      entry.2 = .directory backup ∧ verifiedBackupSummary R K name backup = .ok (backupPoint R K entry) := by
  unfold backupPoint at h ⊢
  cases hname : identified "bkp_" entry.1 with
  | none =>
    rw [hname] at h
    cases h
  | some name =>
    cases hentry : entry.2 with
    | symlink =>
      rw [hname, hentry] at h
      cases h
    | other =>
      rw [hname, hentry] at h
      cases h
    | directory backup =>
      simp only [hname, hentry] at h ⊢
      cases hsummary : verifiedBackupSummary R K name backup with
      | error e =>
        rw [hsummary] at h
        cases h
      | ok summary => exact ⟨name, backup, rfl, rfl, hsummary⟩

theorem projectPoint_verified {R : Readers} {K : Crates} {objects : Objects} {entry : Bytes × Entry ProjectDirectory}
    (h : (projectPoint R K objects entry).diagnostic.verified = true) : ∃ name project,
      identified "prj_" entry.1 = some name ∧ entry.2 = .directory project ∧
      activeRecoverySummary R K objects project name = .ok (projectPoint R K objects entry) := by
  unfold projectPoint at h ⊢
  cases hname : identified "prj_" entry.1 with
  | none =>
    rw [hname] at h
    cases h
  | some name =>
    cases hentry : entry.2 with
    | symlink =>
      rw [hname, hentry] at h
      cases h
    | other =>
      rw [hname, hentry] at h
      cases h
    | directory project =>
      simp only [hname, hentry] at h ⊢
      cases hsummary : activeRecoverySummary R K objects project name with
      | error e =>
        rw [hsummary] at h
        cases h
      | ok summary => exact ⟨name, project, rfl, rfl, hsummary⟩

/-- A point that is listed as verified has its files. -/
theorem snapshotFiles_binds {R : Readers} {K : Crates} {root : RecoveryRoot} {point : Point}
    {summary : RecoveryPointSummary} (h : summaryOf R K root point = some summary)
    (hverified : summary.diagnostic.verified = true) :
    ∃ files, snapshotFiles R K root summary = .ok files ∧ SnapshotBinds R K root summary files := by
  cases point with
  | backup rawName =>
    obtain ⟨entry, hentry, rfl⟩ := Option.map_eq_some_iff.mp h
    obtain ⟨name, backup, hname, hdirectory, hsummary⟩ := backupPoint_verified hverified
    obtain ⟨hraw, hvalid⟩ := identified_some hname
    have hraw : rawName = encode name := hraw
    have hdirectory : entry = .directory backup := hdirectory
    have hid := verifiedBackupSummary_id hsummary
    obtain ⟨verified, hroot, hrest⟩ := bind_ok.mp hsummary
    obtain ⟨files, hfiles, hrest⟩ := bind_ok.mp hrest
    obtain ⟨bytes, hbytes, hrest⟩ := bind_ok.mp hrest
    have hpoint := pure_ok.mp hrest
    have hlookup : root.backups[encode (backupPoint R K (rawName, entry)).id]? = some (.directory backup) := by
      rw [hid, ← hraw, hentry, hdirectory]
    have hkind : (backupPoint R K (rawName, entry)).kind = .versionedBackup := by rw [← hpoint]
    have hdigest : (backupPoint R K (rawName, entry)).diagnostic.manifestSha256 = some (K.sha256 bytes) := by
      rw [← hpoint]
    obtain ⟨pointer, hbinds⟩ := readLastAccepted_binds hfiles
    -- the parts of the verification
    obtain ⟨-, hcheck⟩ := check_ok.mp hroot
    obtain ⟨tree, htree, hcheck⟩ := bind_ok.mp hcheck
    obtain ⟨read, hread, hcheck⟩ := bind_ok.mp hcheck
    obtain ⟨manifest, hmanifest, hcheck⟩ := bind_ok.mp hcheck
    obtain ⟨hchecked, hcheck⟩ := check_ok.mp hcheck
    cases hcheck
    obtain ⟨-, hchecked⟩ := check_ok.mp hchecked
    obtain ⟨-, hchecked⟩ := check_ok.mp hchecked
    obtain ⟨-, hchecked⟩ := check_ok.mp hchecked
    obtain ⟨-, hchecked⟩ := check_ok.mp hchecked
    obtain ⟨collected, hcollected, hchecked⟩ := bind_ok.mp hchecked
    have hsame : collected = (manifest.directories, manifest.files) := ensure_ok.mp hchecked
    have hreadBytes := readRegularFileBounded_ok hread
    have hsameBytes : read = bytes := Option.some.inj (hreadBytes.symm.trans (readRegularFileBounded_ok hbytes))
    refine ⟨files, ?_, .backup backup tree bytes manifest pointer hkind hlookup (Materialize.elim_ok.mp htree)
      ⟨readRegularFileBounded_ok hbytes, hdigest⟩ ?_ ?_ hbinds⟩
    · unfold snapshotFiles
      rw [hkind, hlookup, hid]
      exact check_ok.mpr ⟨hvalid, bind_ok.mpr ⟨_, hroot, hfiles⟩⟩
    · rw [← hsameBytes]
      exact canonicalRecord_ok hmanifest
    · rw [← hsame]
      exact hcollected
  | project rawName =>
    obtain ⟨entry, hentry, rfl⟩ := Option.map_eq_some_iff.mp h
    obtain ⟨name, project, hname, hdirectory, hsummary⟩ := projectPoint_verified hverified
    have hraw : rawName = encode name := (identified_some hname).1
    have hdirectory : entry = .directory project := hdirectory
    obtain ⟨accepted, files, haccepted, hfiles, hpoint⟩ := activeRecoverySummary_ok.mp hsummary
    have hlookup : root.projects[encode (projectPoint R K root.objects (rawName, entry)).projectId]? =
        some (.directory project) := by
      rw [hpoint, ← hdirectory, ← hentry, hraw]
    have hkind : (projectPoint R K root.objects (rawName, entry)).kind = .lastAccepted := by rw [hpoint]
    refine ⟨files, ?_, .project project accepted.1 hkind hlookup (by rw [hpoint]) (readAccepted_binds haccepted hfiles)⟩
    unfold snapshotFiles
    rw [hkind, hlookup]
    exact bind_ok.mpr ⟨accepted, haccepted, hfiles⟩

theorem find?_id {points : List RecoveryPointSummary} (hids : (points.map (·.id)).Nodup) {point : RecoveryPointSummary}
    (hpoint : point ∈ points) : points.find? (·.id = point.id) = some point := by
  induction points with
  | nil => exact absurd hpoint List.not_mem_nil
  | cons first points ih =>
    rw [List.map_cons, List.nodup_cons] at hids
    rw [List.find?_cons]
    rcases List.mem_cons.mp hpoint with rfl | hpoint
    · rw [decide_eq_true rfl]
    · have hne : first.id ≠ point.id := fun heq => hids.1 (heq ▸ List.mem_map_of_mem hpoint)
      rw [decide_eq_false hne]
      exact ih hids.2 hpoint

def samplePointer : Pointer where
  schemaVersion := Backup.storageSchema
  revisionId := "rev_".toList ++ List.replicate 32 '0'
  canonicalManifestSha256 := List.replicate 64 '0'
  artifactManifestSha256 := List.replicate 64 '0'

def sampleReaders : Readers where
  backupManifest _ := none
  pointer bytes := if bytes = Backup.canonicalBytes (pointerJson samplePointer) then some samplePointer else none
  revision _ := none

def numbered (namePrefix : String) (n : ℕ) : Text :=
  namePrefix.toList ++ List.replicate 30 '0' ++ [hexDigit (n / 16), hexDigit (n % 16)]

/-- A root whose project has a pointer, and whose backup holds the given bytes for a manifest. -/
def sampleRoot (manifest : Bytes) : RecoveryRoot where
  backups := (∅ : Std.ExtTreeMap Bytes (Entry BackupDirectory) compare).insert (encode (numbered "bkp_" 0))
    (.directory ⟨["manifest.json".toList, "project".toList], some manifest, some Backup.emptyTree⟩)
  projects := (∅ : Std.ExtTreeMap Bytes (Entry ProjectDirectory) compare).insert (encode (numbered "prj_" 0))
    (.directory ⟨some (Backup.canonicalBytes (pointerJson samplePointer)), ∅⟩)
  objects := ∅

theorem sampleRoot_keys (manifest : Bytes) : (sampleRoot manifest).backups.keys = [encode (numbered "bkp_" 0)] ∧
    (sampleRoot manifest).projects.keys = [encode (numbered "prj_" 0)] := ⟨rfl, rfl⟩

theorem sampleRoot_bounds (manifest : Bytes) : WithinBounds (sampleRoot manifest) := by
  obtain ⟨hbackups, hprojects⟩ := sampleRoot_keys manifest
  refine ⟨?_, ?_, ?_⟩
  · rw [hbackups]
    exact List.countP_le_length.trans (by decide)
  · rw [hprojects]
    exact List.countP_le_length.trans (by decide)
  · rw [← Std.ExtTreeMap.length_keys, ← Std.ExtTreeMap.length_keys, hbackups, hprojects]
    decide

theorem sampleRoot_digests (manifest : Bytes) : DigestsDistinct sampleReaders sampleCrates (sampleRoot manifest) := by
  obtain ⟨hbackups, hprojects⟩ := sampleRoot_keys manifest
  have hname : isBackupName (encode (numbered "bkp_" 0)) = true := by
    rw [isBackupName, identified_encode (by decide)]
    rfl
  constructor
  · rw [fingerprints, hbackups, List.filter_cons_of_neg (by rw [hname]; decide), List.filter_nil, List.map_nil,
      List.nil_append]
    intro a ha b hb _
    obtain ⟨entry, hentry, rfl⟩ := List.mem_map.mp ha
    obtain ⟨other, hother, rfl⟩ := List.mem_map.mp hb
    have hkey : ∀ {entry}, entry ∈ (sampleRoot manifest).projects.toList → entry.1 = encode (numbered "prj_" 0) := by
      intro entry hentry
      have hmem := List.mem_map_of_mem (f := Prod.fst) hentry
      rw [Std.ExtTreeMap.map_fst_toList_eq_keys, hprojects] at hmem
      exact List.mem_singleton.mp hmem
    rw [toList_eq_of_fst hentry hother ((hkey hentry).trans (hkey hother).symm)]
  · rw [hbackups]
    intro rawName hraw _ _ hfalse
    rw [List.mem_singleton.mp hraw, hname] at hfalse
    cases hfalse

def entriesOf {α : Type} (names : List Text) (content : α) : Std.ExtTreeMap Bytes (Entry α) compare :=
  names.foldl (fun entries name => entries.insert (encode name) (.directory content)) ∅

/-- All the projects and all but one of the backups that a root may retain, and the staging directory of an interrupted
migration. -/
def crowdedRoot : RecoveryRoot where
  backups := entriesOf ((List.range 63).map fun n => numbered "bkp_" (n + 1)) ⟨[], none, none⟩
  projects := entriesOf ((".migrating-".toList ++ numbered "prj_" 0 ++ numbered "." 0) ::
    (List.range 8).map (numbered "prj_")) ⟨none, ∅⟩
  objects := ∅

def fullRoot (manifest : Bytes) : RecoveryRoot :=
  { crowdedRoot with
    backups := crowdedRoot.backups.insert (encode (numbered "bkp_" 0)) (.directory ⟨[], some manifest, none⟩) }

end LpStudio.Storage.RecoveryReader
