import LpStudio.Site.Crates

/-! # File paths
The path checks of `change_set.rs` and of `storage.rs`, and the resolution of a relative path. Where two
files carry the same function, it stands here once.
-/
namespace LpStudio.Paths
open Str

def maxPathBytes : ℕ := 512
def maxDepth : ℕ := 16

/-- `str::len`. -/
def byteLength (t : Text) : ℕ := (encode t).length

def segments (path : Text) : List Text := path.splitOn '/'

/-- `windows_reserved` of `change_set.rs` and of `storage.rs`. -/
def windowsReserved (segment : Text) : Bool :=
  let stem := lower (segment.takeWhile (· != '.'))
  stem ∈ ["con".toList, "prn".toList, "aux".toList, "nul".toList] ||
  ((stripPrefix "com".toList stem).or (stripPrefix "lpt".toList stem)).any fun suffix =>
    suffix ∈ ["1".toList, "2".toList, "3".toList, "4".toList, "5".toList, "6".toList, "7".toList,
      "8".toList, "9".toList]

/-- `reserved_path` of `change_set.rs` and `reserved_export_path` of `static_export.rs`. -/
def reservedPath (K : Crates) (path : Text) : Bool :=
  let segments := segments (K.toLowercase path)
  let name := segments.getLast?.getD []
  segments.any (· ∈ [".studio".toList, ".git".toList, ".ssh".toList, ".aws".toList]) ||
  name == ".env".toList || ".env.".toList.isPrefixOf name ||
  name ∈ [".envrc".toList, ".netrc".toList, ".npmrc".toList, ".pypirc".toList] ||
  ".pem".toList.isSuffixOf name || ".key".toList.isSuffixOf name ||
  name ∈ ["id_rsa".toList, "id_ed25519".toList, "credentials".toList, "credentials.json".toList]

def badSegmentChar (c : Char) : Bool := c ∈ "<>:\"|?*".toList

/-- A segment that both `validate_path` and `validate_canonical_path` refuse. -/
def badSegment (segment : Text) : Bool :=
  segment.isEmpty || segment ∈ [".".toList, "..".toList] ||
  segment.getLast?.any (fun c => c == ' ' || c == '.') || segment.any badSegmentChar ||
  windowsReserved segment

/-- `validate_canonical_path` of `storage.rs`. -/
def validateCanonicalPath (K : Crates) (path : Text) : Bool :=
  !(path.isEmpty || maxPathBytes < byteLength path || path.contains '\x00' || path.contains '\\' ||
    path.head? == some '/' || K.nfc path != path) &&
  (segments path).length ≤ maxDepth &&
  (segments path).all fun segment => !(badSegment segment || segment.any isControl)

theorem mem_of_mem_segments {path segment : Text} {c : Char} (hs : segment ∈ segments path)
    (hc : c ∈ segment) : c ∈ path := by
  induction path generalizing segment with
  | nil =>
    rw [segments, List.splitOn_nil, List.mem_singleton] at hs
    rw [hs] at hc
    cases hc
  | cons d ds ih =>
    rw [segments, List.splitOn_cons_eq_if_modifyHead] at hs
    split at hs
    · rcases List.mem_cons.mp hs with rfl | hs
      · cases hc
      · exact List.mem_cons_of_mem _ (ih hs hc)
    · cases hsplit : ds.splitOn '/' with
      | nil => exact absurd hsplit (List.splitOn_ne_nil _ _)
      | cons head tail =>
        have hmem : ∀ s ∈ head :: tail, c ∈ s → c ∈ ds := fun s hs h =>
          ih (by rw [segments, hsplit]; exact hs) h
        rw [hsplit, List.modifyHead_cons] at hs
        rcases List.mem_cons.mp hs with rfl | hs
        · rcases List.mem_cons.mp hc with rfl | hc
          · exact List.mem_cons_self
          · exact List.mem_cons_of_mem _ (hmem head List.mem_cons_self hc)
        · exact List.mem_cons_of_mem _ (hmem segment (List.mem_cons_of_mem _ hs) hc)

theorem slash_not_mem_segments {path name : Text} (h : name ∈ segments path) : '/' ∉ name := by
  induction path generalizing name with
  | nil =>
    rw [segments, List.splitOn_nil, List.mem_singleton] at h
    rw [h]
    exact List.not_mem_nil
  | cons c path ih =>
    rw [segments, List.splitOn_cons_eq_if_modifyHead] at h
    split at h
    · rcases List.mem_cons.mp h with rfl | h
      · exact List.not_mem_nil
      · exact ih h
    · rename_i hc
      cases hsplit : path.splitOn '/' with
      | nil => exact absurd hsplit (List.splitOn_ne_nil _ _)
      | cons head tail =>
        rw [hsplit, List.modifyHead_cons] at h
        have hsegments : segments path = head :: tail := hsplit
        rw [hsegments] at ih
        rcases List.mem_cons.mp h with rfl | h
        · rw [List.mem_cons, not_or]
          exact ⟨fun heq => hc (beq_iff_eq.mpr heq.symm), ih List.mem_cons_self⟩
        · exact ih (List.mem_cons_of_mem _ h)

theorem exists_segment {path : Text} {c : Char} (hc : c ∈ path) (hne : c ≠ '/') :
    ∃ segment ∈ segments path, c ∈ segment := by
  induction path with
  | nil => cases hc
  | cons d ds ih =>
    rw [segments, List.splitOn_cons_eq_if_modifyHead]
    rcases List.mem_cons.mp hc with rfl | hc
    · rw [if_neg (by simpa using hne)]
      cases hsplit : ds.splitOn '/' with
      | nil => exact absurd hsplit (List.splitOn_ne_nil _ _)
      | cons head tail => exact ⟨c :: head, List.mem_cons_self, List.mem_cons_self⟩
    · obtain ⟨segment, hmem, hsegment⟩ := ih hc
      rw [segments] at hmem
      split
      · exact ⟨segment, List.mem_cons_of_mem _ hmem, hsegment⟩
      · cases hsplit : ds.splitOn '/' with
        | nil => exact absurd hsplit (List.splitOn_ne_nil _ _)
        | cons head tail =>
          rw [hsplit] at hmem
          rcases List.mem_cons.mp hmem with rfl | hmem
          · exact ⟨d :: segment, List.mem_cons_self, List.mem_cons_of_mem d hsegment⟩
          · exact ⟨segment, List.mem_cons_of_mem _ hmem, hsegment⟩

/-! ## Resolution -/

/-- `hex_value`. -/
def hexValue (c : Char) : Option ℕ :=
  if isAsciiDigit c then some (c.toNat - 0x30)
  else if 0x61 ≤ c.toNat ∧ c.toNat ≤ 0x66 then some (c.toNat - 0x61 + 10)
  else if 0x41 ≤ c.toNat ∧ c.toNat ≤ 0x46 then some (c.toNat - 0x41 + 10)
  else none

/-- The bytes that `percent_decode` pushes. -/
def percentDecodeBytes : Text → Option Bytes
  | [] => some []
  | '%' :: high :: low :: rest => do
    let high ← hexValue high
    let low ← hexValue low
    let decoded ← percentDecodeBytes rest
    return UInt8.ofNat (high * 16 + low) :: decoded
  | '%' :: _ => none
  | c :: rest => (percentDecodeBytes rest).map (String.utf8EncodeChar c ++ ·)

/-- `percent_decode`, up to the error of the caller. -/
def percentDecode (value : Text) : Option Text := (percentDecodeBytes value).bind decode

/-- The loop over the segments of a decoded reference; `none` where `..` leaves the site. -/
def pushSegments (directory : List Text) : List Text → Option (List Text)
  | [] => some directory
  | segment :: rest =>
    if segment = [] ∨ segment = ['.'] then pushSegments directory rest
    else if segment = ['.', '.'] then
      if directory = [] then none else pushSegments directory.dropLast rest
    else pushSegments (directory ++ [segment]) rest

/-- The path a decoded reference leads to from the page `sourcePath`, before it is validated. -/
def resolvePath (K : Crates) (sourcePath decoded : Text) : Option Text :=
  let directory :=
    if decoded.head? = some '/' then []
    else ((rsplitOnce '/' sourcePath).map fun (directory, _) => segments directory).getD []
  (pushSegments directory (segments (decoded.dropWhile (· == '/')))).map fun resolved =>
    K.nfc (['/'].intercalate resolved)

/-- `reference.split(['?', '#']).next()`. -/
def withoutSuffix (reference : Text) : Text := reference.takeWhile fun c => c != '?' && c != '#'

/-- `rsplit_once('.')` with a non-empty extension. -/
def extension (path : Text) : Option Text :=
  (rsplitOnce '.' path).bind fun (_, extension) => if extension.isEmpty then none else some extension

end LpStudio.Paths
