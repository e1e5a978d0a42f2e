import LpStudio.ChangeSet.Behavior

/-! # Applying a ChangeSet
`parse_and_apply_change_set` of `change_set.rs`: every check in its order, the isolated application, and
the review material that comes with the result.
-/
namespace LpStudio.ChangeSet
open Str Paths Scanning

def isDisallowedControl (c : Char) : Bool := isControl c && c ∉ ['\n', '\r', '\t']

def foldedPath (K : Crates) (path : Text) : Text := K.toFoldedCase path

def validateEnvelope (changeSet : ChangeSetV1) (expectedBaseRevisionId : Text) :
    Except ChangeSetError Unit :=
  if changeSet.schema != changeSetSchema || changeSet.version != changeSetVersion ||
      changeSet.baseRevisionId.isEmpty || 128 < byteLength changeSet.baseRevisionId ||
      (trim changeSet.summary).isEmpty || maxSummaryBytes < byteLength changeSet.summary ||
      changeSet.summary.any isDisallowedControl || changeSet.operations.isEmpty then
    .error .invalidProtocol
  else if changeSet.baseRevisionId ≠ expectedBaseRevisionId then .error .staleBase
  else if maxOperations < changeSet.operations.length then .error .limitExceeded
  else .ok ()

/-- The loop of `validate_accepted_paths`, after the folded paths `folded`. -/
def validateAcceptedPathsFrom (K : Crates) (folded : List Text) : List Text → Except ChangeSetError Unit
  | [] => .ok ()
  | path :: paths => do
    validatePath K path
    if foldedPath K path ∈ folded then throw .operationConflict
    validateAcceptedPathsFrom K (foldedPath K path :: folded) paths

def validateAcceptedPaths (K : Crates) (accepted : Files) : Except ChangeSetError Unit :=
  validateAcceptedPathsFrom K [] accepted.keys

def validateHash (value : Text) : Except ChangeSetError Unit :=
  if byteLength value = 64 ∧ value.all (fun c => isAsciiDigit c || (0x61 ≤ c.toNat && c.toNat ≤ 0x66))
  then .ok () else .error .invalidHash

/-- The checks on generated content; returns the new total. -/
def validateContent (K : Crates) (generatedTotal : ℕ) (path mediaType content : Text) :
    Except ChangeSetError ℕ := do
  validatePath K path
  validateTextMediaType path mediaType
  if contains redactionPlaceholder content then throw .reservedPlaceholder
  if maxGeneratedFileBytes < byteLength content then throw .limitExceeded
  if maxGeneratedTotalBytes < generatedTotal + byteLength content then throw .limitExceeded
  return generatedTotal + byteLength content

def sameExtension (source target : Text) : Bool :=
  match extension source, extension target with
  | some a, some b => eqIgnoreCase a b
  | _, _ => false

/-- The checks on one operation; carries the total of generated bytes. -/
def validateOperation (K : Crates) (generatedTotal : ℕ) : ChangeOperationV1 → Except ChangeSetError ℕ
  | .createText path mediaType content => validateContent K generatedTotal path mediaType content
  | .replaceText path expectedSha256 mediaType content => do
    let total ← validateContent K generatedTotal path mediaType content
    validateHash expectedSha256
    return total
  | .rename source target expectedSha256 => do
    validatePath K source
    validatePath K target
    validateHash expectedSha256
    if source = target ∨ !sameExtension source target then throw .operationConflict
    return generatedTotal
  | .delete path expectedSha256 => do
    validatePath K path
    validateHash expectedSha256
    return generatedTotal

def validateOperations (K : Crates) (operations : List ChangeOperationV1) : Except ChangeSetError Unit := do
  let _ ← operations.foldlM (validateOperation K) 0
  return ()

/-! ## The operation graph -/

abbrev Edges := Std.ExtTreeMap Text Text compare

/-- The inner loop of `contains_rename_cycle`, with enough fuel to visit every edge once more. -/
def revisits (edges : Edges) : ℕ → List Text → Text → Bool
  | 0, _, _ => false
  | fuel + 1, visited, cursor =>
    match edges[cursor]? with
    | none => false
    | some next => if cursor ∈ visited then true else revisits edges fuel (cursor :: visited) next

def containsRenameCycle (edges : Edges) : Bool :=
  edges.keys.any fun start => revisits edges (edges.size + 1) [] start

def operationClaims : ChangeOperationV1 → List Text
  | .createText path .. | .replaceText path .. | .delete path .. => [path]
  | .rename source target _ => [source, target]

/-- The loop over the claims; an owner is the index of the operation that claimed a path last. -/
def claimPaths (K : Crates) (owners : Std.ExtTreeMap Text ℕ compare) :
    List (ℕ × Text) → Except ChangeSetError Unit
  | [] => .ok ()
  | (index, path) :: claims =>
    let folded := foldedPath K path
    if owners[folded]?.any (· != index) then .error .operationConflict
    else claimPaths K (owners.insert folded index) claims

def validateOperationGraph (K : Crates) (operations : List ChangeOperationV1) :
    Except ChangeSetError Unit :=
  let renameEdges : Edges := operations.foldl (fun edges operation =>
    match operation with
    | .rename source target _ => edges.insert (foldedPath K source) (foldedPath K target)
    | _ => edges) ∅
  if containsRenameCycle renameEdges then .error .renameCycle
  else claimPaths K ∅ (operations.zipIdx.flatMap fun (operation, index) =>
    (operationClaims operation).map fun path => (index, path))

/-! ## Preconditions and application -/

def requireFileHash (K : Crates) (files : Files) (path expectedSha256 : Text) :
    Except ChangeSetError Unit :=
  match files[path]? with
  | none => .error .preconditionFailed
  | some bytes => if K.sha256 bytes = expectedSha256 then .ok () else .error .preconditionFailed

/-- The path is no accepted path up to case. -/
def requireUnclaimed (K : Crates) (accepted : Files) (path : Text) : Except ChangeSetError Unit :=
  if accepted.keys.any (foldedPath K · == foldedPath K path) then .error .preconditionFailed else .ok ()

def validatePrecondition (K : Crates) (accepted : Files) : ChangeOperationV1 → Except ChangeSetError Unit
  | .createText path .. => requireUnclaimed K accepted path
  | .replaceText path expectedSha256 .. => requireFileHash K accepted path expectedSha256
  | .delete path expectedSha256 => requireFileHash K accepted path expectedSha256
  | .rename source target expectedSha256 => do
    requireFileHash K accepted source expectedSha256
    requireUnclaimed K accepted target

def validatePreconditions (K : Crates) (operations : List ChangeOperationV1) (accepted : Files) :
    Except ChangeSetError Unit :=
  operations.forM (validatePrecondition K accepted)

/-- The effect of one operation on the clone. -/
def applyOperation (K : Crates) (state : Files × List AppliedFileChange) :
    ChangeOperationV1 → Except ChangeSetError (Files × List AppliedFileChange)
  | .createText path _ content =>
    let bytes := encode content
    if state.1.contains path then .error .preconditionFailed
    else .ok (state.1.insert path bytes,
      state.2 ++ [⟨path, .created, none, none, some (K.sha256 bytes)⟩])
  | .replaceText path _ _ content =>
    match state.1[path]? with
    | none => .error .preconditionFailed
    | some before =>
      let bytes := encode content
      .ok (state.1.insert path bytes,
        state.2 ++ [⟨path, .modified, none, some (K.sha256 before), some (K.sha256 bytes)⟩])
  | .rename source target _ =>
    match state.1[source]? with
    | none => .error .preconditionFailed
    | some bytes =>
      let files := state.1.erase source
      if files.contains target then .error .preconditionFailed
      else .ok (files.insert target bytes,
        state.2 ++ [⟨target, .renamed, some source, some (K.sha256 bytes), some (K.sha256 bytes)⟩])
  | .delete path _ =>
    match state.1[path]? with
    | none => .error .preconditionFailed
    | some before =>
      .ok (state.1.erase path,
        state.2 ++ [⟨path, .deleted, none, some (K.sha256 before), none⟩])

def applyToClone (K : Crates) (operations : List ChangeOperationV1) (accepted : Files) :
    Except ChangeSetError (Files × List AppliedFileChange) :=
  operations.foldlM (applyOperation K) (accepted, [])

def validateFinalCaseCollisions (K : Crates) (files : Files) : Except ChangeSetError Unit :=
  if (files.keys.map (foldedPath K)).Nodup then .ok () else .error .operationConflict

def validateExportDenyList (K : Crates) (files : Files) : Except ChangeSetError Unit :=
  if files.keys.any (Paths.reservedPath K) then .error .reservedPath else .ok ()

end LpStudio.ChangeSet
