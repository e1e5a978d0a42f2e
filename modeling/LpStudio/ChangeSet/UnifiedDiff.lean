import LpStudio.ChangeSet.Review

/-! # What the review diff shows
The diff is a sequence of pieces, each pushed as far as it fits. A piece that is cut at a character leaves a gap of up to
three bytes, and only a diff without a gap is marked as truncated.
-/
namespace LpStudio.ChangeSet
open Str Paths

/-! ## Texts cut at a number of bytes -/

section
variable {m n : ℕ} {s t : Text}

theorem byteLength_cons (c : Char) (t : Text) : byteLength (c :: t) = c.utf8Size + byteLength t := by
  rw [byteLength, byteLength, encode, List.flatMap_cons, List.length_append, String.length_utf8EncodeChar, encode]

theorem byteLength_append (s t : Text) : byteLength (s ++ t) = byteLength s + byteLength t := by
  rw [byteLength, encode, List.flatMap_append, List.length_append]
  rfl

theorem takeBytes_prefix (n : ℕ) (t : Text) : takeBytes n t <+: t := by
  induction t generalizing n with
  | nil => exact List.nil_prefix
  | cons c t ih =>
    rw [takeBytes]
    split
    · exact (List.prefix_cons_inj c).mpr (ih _)
    · exact List.nil_prefix

theorem takeBytes_le (n : ℕ) (t : Text) : byteLength (takeBytes n t) ≤ n := by
  induction t generalizing n with
  | nil => exact Nat.zero_le n
  | cons c t ih =>
    rw [takeBytes]
    split
    · have := ih (n - c.utf8Size)
      rw [byteLength_cons]
      omega
    · exact Nat.zero_le n

theorem takeBytes_all (h : byteLength t ≤ n) : takeBytes n t = t := by
  induction t generalizing n with
  | nil => rfl
  | cons c t ih =>
    rw [byteLength_cons] at h
    rw [takeBytes, if_pos (by omega), ih (by omega)]

theorem takeBytes_zero (t : Text) : takeBytes 0 t = [] := by
  cases t with
  | nil => rfl
  | cons c t => rw [takeBytes, if_neg (Nat.not_le.mpr c.utf8Size_pos)]

theorem takeBytes_append (n : ℕ) (s t : Text) : takeBytes n (s ++ t) =
    if byteLength s ≤ n then s ++ takeBytes (n - byteLength s) t else takeBytes n s := by
  induction s generalizing n with
  | nil => exact (if_pos (Nat.zero_le n)).symm
  | cons c s ih =>
    rw [List.cons_append, takeBytes, takeBytes, byteLength_cons]
    by_cases hc : c.utf8Size ≤ n
    · rw [if_pos hc, if_pos hc, ih]
      split
      · rw [if_pos (by omega), Nat.sub_sub, List.cons_append]
      · rw [if_neg (by omega)]
    · rw [if_neg hc, if_neg hc, if_neg (by omega)]

theorem takeBytes_takeBytes (h : m ≤ n) (t : Text) : takeBytes m (takeBytes n t) = takeBytes m t := by
  induction t generalizing m n with
  | nil => rfl
  | cons c t ih =>
    rw [takeBytes]
    by_cases hc : c.utf8Size ≤ n
    · rw [if_pos hc, takeBytes, takeBytes]
      split
      · rw [ih (by omega)]
      · rfl
    · rw [if_neg hc, takeBytes, takeBytes, if_neg (by omega)]

/-- A cut leaves a gap of at most three bytes. -/
theorem takeBytes_near (h : n ≤ byteLength t) : n ≤ byteLength (takeBytes n t) + 3 := by
  induction t generalizing n with
  | nil => exact h.trans (Nat.zero_le _)
  | cons c t ih =>
    have hsize := c.utf8Size_le_four
    rw [byteLength_cons] at h
    rw [takeBytes]
    split
    · have := @ih (n - c.utf8Size) (by omega)
      rw [byteLength_cons]
      omega
    · omega

end

/-! ## Pieces pushed one after another -/

/-- Each piece as far as it fits into what the pieces before have left of `n` bytes. -/
def fill : ℕ → List Text → Text
  | _, [] => []
  | n, piece :: rest => takeBytes n piece ++ fill (n - byteLength (takeBytes n piece)) rest

/-- The pieces behind the first one that does not fit. -/
def behind : ℕ → List Text → List Text
  | _, [] => []
  | n, piece :: rest => if byteLength piece ≤ n then behind (n - byteLength piece) rest else rest

section
variable {n : ℕ} {pieces : List Text}

theorem fill_le (n : ℕ) (pieces : List Text) : byteLength (fill n pieces) ≤ n := by
  induction pieces generalizing n with
  | nil => exact Nat.zero_le n
  | cons piece rest ih =>
    have hpiece := takeBytes_le n piece
    have hrest := ih (n - byteLength (takeBytes n piece))
    rw [fill, byteLength_append]
    omega

theorem behind_all (h : byteLength pieces.flatten ≤ n) : behind n pieces = [] := by
  induction pieces generalizing n with
  | nil => rfl
  | cons piece rest ih =>
    rw [List.flatten_cons, byteLength_append] at h
    rw [behind, if_pos (by omega), ih (by omega)]

/-- What is pushed is the concatenation up to the cut, and what fits into the gap of the pieces behind. -/
theorem fill_eq (n : ℕ) (pieces : List Text) : fill n pieces = takeBytes n pieces.flatten ++
    fill (n - byteLength (takeBytes n pieces.flatten)) (behind n pieces) := by
  induction pieces generalizing n with
  | nil => rfl
  | cons piece rest ih =>
    rw [fill, behind, List.flatten_cons, takeBytes_append]
    by_cases hpiece : byteLength piece ≤ n
    · rw [if_pos hpiece, if_pos hpiece, takeBytes_all hpiece, ih, byteLength_append, List.append_assoc, Nat.sub_sub]
    · rw [if_neg hpiece, if_neg hpiece]

theorem fill_all (h : byteLength pieces.flatten ≤ n) : fill n pieces = pieces.flatten := by
  rw [fill_eq, behind_all h, takeBytes_all h, fill, List.append_nil]

theorem foldl_pushBounded (output : Text) (pieces : List Text) : pieces.foldl pushBounded output =
    output ++ fill (maxUnifiedDiffBytes - byteLength output) pieces := by
  induction pieces generalizing output with
  | nil => exact (List.append_nil output).symm
  | cons piece rest ih =>
    rw [List.foldl_cons, ih, fill, pushBounded, byteLength_append, List.append_assoc, Nat.sub_sub]

end

/-! ## The pieces of a diff -/

def beforePath (change : AppliedFileChange) : Option Text :=
  match change.kind with
  | .created => none
  | .renamed => change.fromPath
  | .deleted | .modified => some change.path

def afterPath (change : AppliedFileChange) : Option Text :=
  match change.kind with
  | .deleted => none
  | .created | .renamed | .modified => some change.path

/-- The header of a change. -/
def header (change : AppliedFileChange) : Text :=
  "--- ".toList ++ ((beforePath change).map ("a/".toList ++ ·)).getD "/dev/null".toList ++ "\n+++ ".toList ++
    ((afterPath change).map ("b/".toList ++ ·)).getD "/dev/null".toList ++ "\n@@ before=".toList ++
    change.beforeSha256.getD "none".toList ++ " after=".toList ++ change.afterSha256.getD "none".toList ++ " @@\n".toList

/-- The lines of a content behind their marker. -/
def contentPieces (marker : Char) (bytes : Bytes) : List Text :=
  match decode bytes with
  | none => [marker :: "[binary content omitted]\n".toList]
  | some text => (lines text).map fun line => marker :: line ++ ['\n']

def filePieces (marker : Char) (files : Files) (path : Option Text) : List Text :=
  ((path.bind (files[·]?)).map (contentPieces marker)).getD []

/-- The header, the removed and the added lines, and a blank line. -/
def changePieces (accepted proposed : Files) (change : AppliedFileChange) : List Text :=
  header change :: (filePieces '-' accepted (beforePath change) ++ filePieces '+' proposed (afterPath change) ++ [['\n']])

def diffPieces (accepted proposed : Files) (changes : List AppliedFileChange) : List Text :=
  changes.flatMap (changePieces accepted proposed)

/-- The lines of one side of a change after `output`. -/
def appendFile (output : Text) (marker : Char) (files : Files) (path : Option Text) : Text :=
  match path.bind (files[·]?) with
  | some bytes => appendDiffContent output marker bytes
  | none => output

/-- The whole of the headers and lines. -/
def fullDiff (accepted proposed : Files) (changes : List AppliedFileChange) : Text :=
  (diffPieces accepted proposed changes).flatten

section
variable {accepted proposed : Files}

/-- A full diff takes no more pieces. -/
theorem foldl_full {output : Text} (h : maxUnifiedDiffBytes ≤ byteLength output) (pieces : List Text) :
    pieces.foldl pushBounded output = output := by
  induction pieces with
  | nil => rfl
  | cons piece rest ih =>
    rw [List.foldl_cons, pushBounded, Nat.sub_eq_zero_of_le h, takeBytes_zero, List.append_nil, ih]

theorem pushLines_eq (marker : Char) (output : Text) (rest : List Text) : pushLines marker output rest =
    (rest.map fun line => marker :: line ++ ['\n']).foldl pushBounded output := by
  induction rest generalizing output with
  | nil => rfl
  | cons line rest ih =>
    rw [pushLines, List.map_cons, List.foldl_cons]
    split
    · rename_i hfull
      exact (foldl_full hfull _).symm
    · exact ih _

theorem appendDiffContent_eq (output : Text) (marker : Char) (bytes : Bytes) :
    appendDiffContent output marker bytes = (contentPieces marker bytes).foldl pushBounded output := by
  rw [appendDiffContent, contentPieces]
  cases decode bytes with
  | none => rfl
  | some text => exact pushLines_eq marker output (lines text)

theorem appendFile_eq (output : Text) (marker : Char) (files : Files) (path : Option Text) :
    appendFile output marker files path = (filePieces marker files path).foldl pushBounded output := by
  unfold appendFile filePieces
  split
  · rename_i bytes hbytes
    rw [hbytes, Option.map_some, Option.getD_some, appendDiffContent_eq]
  · rename_i hnone
    rw [hnone]
    rfl

theorem appendChange_eq (output : Text) (change : AppliedFileChange) : appendChange accepted proposed output change =
    (changePieces accepted proposed change).foldl pushBounded output := by
  rw [changePieces, List.foldl_cons, List.foldl_append, List.foldl_append, ← appendFile_eq, ← appendFile_eq]
  rfl

theorem appendChanges_eq (output : Text) (changes : List AppliedFileChange) :
    appendChanges accepted proposed output changes = (diffPieces accepted proposed changes).foldl pushBounded output := by
  induction changes generalizing output with
  | nil => rfl
  | cons change changes ih =>
    rw [appendChanges, diffPieces, List.flatMap_cons, List.foldl_append, ← appendChange_eq]
    split
    · rename_i hfull
      exact (foldl_full hfull _).symm
    · exact ih _

end

/-! ## Whole, or marked -/

def truncationMarker : Text := "\n... diff truncated ...\n".toList

/-- At most the limit, and the whole diff or a proper part of its beginning with the marker. -/
def WholeOrMarked (full shown : Text) : Prop :=
  byteLength shown ≤ maxUnifiedDiffBytes ∧
    (shown = full ∨ ∃ start, start <+: full ∧ start ≠ full ∧ shown = start ++ truncationMarker)

/-- The bytes that are left below the limit when the character that straddles it is left out. -/
def gap (full : Text) : ℕ := maxUnifiedDiffBytes - byteLength (takeBytes maxUnifiedDiffBytes full)

/-- What the pieces behind the cut put into the gap. -/
def filling (pieces : List Text) : Text := fill (gap pieces.flatten) (behind maxUnifiedDiffBytes pieces)

theorem truncationMarker_length : byteLength truncationMarker = 24 := by
  unfold truncationMarker
  rw [String.toList_ofList]
  decide

theorem buildUnifiedDiff_eq (accepted proposed : Files) (changes : List AppliedFileChange) :
    buildUnifiedDiff accepted proposed changes =
      if maxUnifiedDiffBytes ≤ byteLength (fill maxUnifiedDiffBytes (diffPieces accepted proposed changes)) then
        takeBytes (maxUnifiedDiffBytes - 24) (fill maxUnifiedDiffBytes (diffPieces accepted proposed changes)) ++
          truncationMarker
      else fill maxUnifiedDiffBytes (diffPieces accepted proposed changes) := by
  have houtput := @appendChanges_eq accepted proposed [] changes
  rw [foldl_pushBounded, List.nil_append] at houtput
  rw [buildUnifiedDiff, houtput]
  rfl

/-- Pushed pieces are shown whole or marked exactly where they are short, where the gap is filled, or where what is shown
ends in the text of the marker by itself. -/
theorem wholeOrMarked_iff (pieces : List Text) {shown : Text}
    (hshown : shown = if maxUnifiedDiffBytes ≤ byteLength (fill maxUnifiedDiffBytes pieces) then
        takeBytes (maxUnifiedDiffBytes - 24) (fill maxUnifiedDiffBytes pieces) ++ truncationMarker
      else fill maxUnifiedDiffBytes pieces) :
    WholeOrMarked pieces.flatten shown ↔ byteLength pieces.flatten < maxUnifiedDiffBytes ∨
      byteLength (filling pieces) = gap pieces.flatten ∨
      truncationMarker <:+ takeBytes maxUnifiedDiffBytes pieces.flatten ++ filling pieces := by
  have hmax : maxUnifiedDiffBytes = 262144 := rfl
  have hmarker := truncationMarker_length
  by_cases hshort : byteLength pieces.flatten < maxUnifiedDiffBytes
  · rw [fill_all hshort.le, if_neg (Nat.not_le.mpr hshort)] at hshown
    exact iff_of_true ⟨hshown ▸ hshort.le, Or.inl hshown⟩ (Or.inl hshort)
  have hpushed : fill maxUnifiedDiffBytes pieces =
      takeBytes maxUnifiedDiffBytes pieces.flatten ++ filling pieces := fill_eq _ _
  have htaken := takeBytes_le maxUnifiedDiffBytes pieces.flatten
  have hnear := takeBytes_near (Nat.not_lt.mp hshort)
  have hfilling : byteLength (filling pieces) ≤ gap pieces.flatten := fill_le _ _
  rw [hpushed, byteLength_append] at hshown
  rw [gap] at hfilling ⊢
  by_cases hfull : byteLength (filling pieces) =
      maxUnifiedDiffBytes - byteLength (takeBytes maxUnifiedDiffBytes pieces.flatten)
  · -- the output reaches the limit and is cut well before the gap
    have hcut := takeBytes_le (maxUnifiedDiffBytes - 24) pieces.flatten
    rw [if_pos (by omega), takeBytes_append, if_neg (by omega), takeBytes_takeBytes (Nat.sub_le _ _)] at hshown
    refine iff_of_true ⟨?_, Or.inr ⟨_, takeBytes_prefix (maxUnifiedDiffBytes - 24) pieces.flatten, fun heq => ?_, hshown⟩⟩
      (Or.inr (Or.inl hfull))
    · rw [hshown, byteLength_append]
      omega
    · rw [heq] at hcut
      omega
  · -- the output stays below the limit, and what was cut off goes unmarked
    rw [if_neg (by omega)] at hshown
    rw [or_iff_right hshort, or_iff_right hfull]
    constructor
    · rintro ⟨-, hwhole | ⟨start, -, -, hmarked⟩⟩
      · have hlength := congrArg byteLength (hshown.symm.trans hwhole)
        rw [byteLength_append] at hlength
        omega
      · exact ⟨start, hmarked.symm.trans hshown⟩
    · rintro ⟨start, hstart⟩
      have hlength := congrArg byteLength hstart
      rw [byteLength_append, byteLength_append] at hlength
      refine ⟨?_, Or.inr ⟨start, ?_, fun heq => ?_, hshown.trans hstart.symm⟩⟩
      · rw [hshown, byteLength_append]
        omega
      · have hprefix := takeBytes_prefix maxUnifiedDiffBytes pieces.flatten
        rcases List.append_eq_append_iff.mp hstart with ⟨rest, htake, -⟩ | ⟨rest, rfl, -⟩
        · exact (htake ▸ List.prefix_append start rest).trans hprefix
        · rw [byteLength_append] at hlength
          omega
      · rw [heq] at hlength
        omega

/-- The diff is whole or visibly cut exactly where it is shorter than the limit, where the one to three bytes that a
straddling character leaves below the limit are filled by the pieces behind it (no byte is left where no character
straddles it), or where the text before the limit happens to end in the text of the marker. -/
theorem buildUnifiedDiff_whole_iff (accepted proposed : Files) (changes : List AppliedFileChange) :
    WholeOrMarked (fullDiff accepted proposed changes) (buildUnifiedDiff accepted proposed changes) ↔
      byteLength (fullDiff accepted proposed changes) < maxUnifiedDiffBytes ∨
        byteLength (filling (diffPieces accepted proposed changes)) = gap (fullDiff accepted proposed changes) ∨
        truncationMarker <:+ takeBytes maxUnifiedDiffBytes (fullDiff accepted proposed changes) ++
          filling (diffPieces accepted proposed changes) :=
  wholeOrMarked_iff (diffPieces accepted proposed changes) (buildUnifiedDiff_eq accepted proposed changes)

/-- A file is created. -/
def creation : AppliedFileChange := ⟨"a.txt".toList, .created, none, none, none⟩

/-- The file: one line, with a character of three bytes behind `n + 1` of one byte. -/
def creationText (n : ℕ) : Text := List.replicate n 'x' ++ ['x', '世']

def creationSite (n : ℕ) : Files := (∅ : Files).insert "a.txt".toList (encode (creationText n))

theorem header_creation : byteLength (header creation) = 55 := by
  unfold header beforePath afterPath creation
  repeat rw [String.toList_ofList]
  decide

theorem diffPieces_creation (n : ℕ) : diffPieces ∅ (creationSite n) [creation] =
    [header creation, '+' :: creationText n ++ ['\n'], ['\n']] := by
  have hline : '\n' ∉ creationText n := by
    intro hmem
    rcases List.mem_append.mp hmem with hmem | hmem
    · exact absurd (List.mem_replicate.mp hmem).2 (by decide)
    · exact absurd hmem (by decide)
  have hlines : lines (creationText n) = [creationText n] := by
    have hne : creationText n ≠ [] := List.append_ne_nil_of_right_ne_nil _ (List.cons_ne_nil _ _)
    obtain ⟨c, rest, htext⟩ := List.exists_cons_of_ne_nil hne
    rw [lines, List.splitOn_eq_singleton hline, htext]
    rfl
  have hcontent : contentPieces '+' (encode (creationText n)) = ['+' :: creationText n ++ ['\n']] := by
    rw [contentPieces, decode_encode]
    dsimp only
    rw [hlines]
    rfl
  have hadded : filePieces '+' (creationSite n) (afterPath creation) = ['+' :: creationText n ++ ['\n']] := by
    have hfile : (creationSite n)["a.txt".toList]? = some (encode (creationText n)) := Std.ExtTreeMap.getElem?_insert_self
    have hpath : (afterPath creation).bind ((creationSite n)[·]?) = some (encode (creationText n)) := hfile
    rw [filePieces, hpath, Option.map_some, Option.getD_some, hcontent]
  rw [diffPieces, List.flatMap_cons, List.flatMap_nil, List.append_nil, changePieces, hadded]
  rfl

theorem byteLength_replicate (n : ℕ) : byteLength (List.replicate n 'x') = n := by
  induction n with
  | zero => rfl
  | succ n ih =>
    rw [List.replicate_succ, byteLength_cons, ih]
    exact Nat.add_comm 1 n

/-- The line does not fit: three bytes are missing and two are left, of which the blank line takes one. -/
theorem creation_drops {n : ℕ} (hn : n + 59 = maxUnifiedDiffBytes) :
    ¬WholeOrMarked (fullDiff ∅ (creationSite n) [creation]) (buildUnifiedDiff ∅ (creationSite n) [creation]) := by
  rw [fullDiff, wholeOrMarked_iff _ (buildUnifiedDiff_eq _ _ _), diffPieces_creation]
  have hflatten : [header creation, '+' :: creationText n ++ ['\n'], ['\n']].flatten =
      (header creation ++ ('+' :: List.replicate n 'x')) ++ ['x'] ++ ['世', '\n', '\n'] := by
    simp [creationText]
  have hline : byteLength ('+' :: creationText n ++ ['\n']) = n + 6 := by
    rw [List.cons_append, byteLength_cons, creationText, byteLength_append, byteLength_append, byteLength_replicate]
    show 1 + (n + 4 + 1) = n + 6
    omega
  have hstart : byteLength ((header creation ++ ('+' :: List.replicate n 'x')) ++ ['x']) = n + 57 := by
    rw [byteLength_append, byteLength_append, byteLength_cons, byteLength_replicate, header_creation]
    show 55 + (1 + n) + 1 = n + 57
    omega
  have hcut : takeBytes maxUnifiedDiffBytes ((header creation ++ ('+' :: List.replicate n 'x')) ++ ['x'] ++ ['世', '\n', '\n']) =
      (header creation ++ ('+' :: List.replicate n 'x')) ++ ['x'] := by
    rw [takeBytes_append, hstart, ← hn, if_pos (by omega), Nat.add_sub_add_left]
    exact List.append_nil _
  have hgap : gap [header creation, '+' :: creationText n ++ ['\n'], ['\n']].flatten = 2 := by
    rw [gap, hflatten, hcut, hstart, ← hn]
    omega
  have hbehind : behind maxUnifiedDiffBytes [header creation, '+' :: creationText n ++ ['\n'], ['\n']] = [['\n']] := by
    rw [behind, if_pos (by rw [header_creation]; omega), behind, if_neg (by rw [header_creation, hline]; omega)]
  have hfilling : filling [header creation, '+' :: creationText n ++ ['\n'], ['\n']] = ['\n'] := by
    rw [filling, hgap, hbehind]
    rfl
  have hfull : byteLength [header creation, '+' :: creationText n ++ ['\n'], ['\n']].flatten = n + 62 := by
    rw [hflatten, byteLength_append, hstart]
    rfl
  rw [hfilling, hgap, hfull, hflatten, hcut]
  rintro (hshort | hfilled | ⟨start, hmarked⟩)
  · omega
  · exact absurd hfilled (by decide)
  · have hlast := congrArg (fun t : Text => t.dropLast.getLast?) hmarked
    have hmarker : truncationMarker = "\n... diff truncated ..".toList ++ ['.'] ++ ['\n'] := by
      unfold truncationMarker
      repeat rw [String.toList_ofList]
      rfl
    rw [hmarker, ← List.append_assoc, ← List.append_assoc] at hlast
    simp only [List.dropLast_concat, List.getLast?_concat] at hlast
    exact absurd (Option.some.inj hlast) (by decide)

theorem diff_drops : ¬WholeOrMarked (fullDiff ∅ (creationSite 262085) [creation])
    (buildUnifiedDiff ∅ (creationSite 262085) [creation]) := creation_drops rfl

end LpStudio.ChangeSet
