import LpStudio.Lib.Outcome
import LpStudio.Site.Paths
import LpStudio.Storage.Names

/-! # Site trees and the objects they name
A materialized site, its scan into stored files, the manifests of revisions and the trees of proposals, and the
object bindings (digest and length) that they amount to.
-/
namespace LpStudio.Storage
open Str Fault

def maxFiles : ℕ := 1000
def maxTotalBytes : ℕ := 200 * 1024 * 1024
def maxFileBytes : ℕ := 20 * 1024 * 1024
def maxProposalMetadataBytes : ℕ := 2 * 1024 * 1024

abbrev Objects := Std.ExtTreeMap Text Bytes compare

structure StoredFile where
  path : Text
  mediaType : Text
  byteLength : ℕ
  sha256 : Text
  deriving DecidableEq, Repr

/-- A directory `site`: its directories, and its files in the order of their paths. -/
structure SiteTree where
  directories : List Text
  files : List (Text × Bytes)
  sorted : files.Pairwise fun a b => compare a.1 b.1 = .lt

/-- The entry of `stored_files` for a file. -/
def store (K : Crates) (file : Text × Bytes) : StoredFile where
  path := file.1
  mediaType := K.mimeGuess file.1
  byteLength := file.2.length
  sha256 := K.sha256 file.2

/-- `stored_files`; `none` for its errors, which its callers replace. -/
def storedFiles (K : Crates) (files : List (Text × Bytes)) : Option (List StoredFile) :=
  if files.length ≤ maxFiles ∧ (∀ file ∈ files, Paths.validateCanonicalPath K file.1 = true) ∧
      (files.map fun file => K.toFoldedCase file.1).Nodup ∧ (∀ file ∈ files, file.2.length ≤ maxFileBytes) ∧
      (files.map fun file => file.2.length).sum ≤ maxTotalBytes then
    some (files.map (store K))
  else none

def scanMaterialized (K : Crates) (site : SiteTree) : Except StorageError (List StoredFile) :=
  if (∀ directory ∈ site.directories, (Paths.segments directory).length ≤ Paths.maxDepth) ∧
      site.directories.length + site.files.length ≤ maxFiles then
    (storedFiles K site.files).elim (.error .drift) .ok
  else .error .drift

def validateStoredFiles (K : Crates) (files : List StoredFile) : Except StorageError Unit :=
  if files.length ≤ maxFiles ∧ (∀ file ∈ files, Paths.validateCanonicalPath K file.path = true) ∧
      (∀ file ∈ files, validateSha256 file.sha256 = .ok ()) ∧
      (∀ file ∈ files, file.mediaType = K.mimeGuess file.path) ∧ (∀ file ∈ files, file.byteLength ≤ maxFileBytes) ∧
      (files.Pairwise fun a b => compare a.path b.path = .lt) ∧
      (files.map fun file => K.toFoldedCase file.path).Nodup ∧
      (files.map (·.byteLength)).sum ≤ maxTotalBytes then .ok ()
  else .error .corrupt

structure RevisionManifest where
  revisionId : Text
  artifactManifestSha256 : Text
  files : List StoredFile
  /-- The digest of the manifest's own canonical JSON. -/
  canonicalManifestSha256 : Text
  deriving DecidableEq

structure CurrentPointer where
  revisionId : Text
  canonicalManifestSha256 : Text
  artifactManifestSha256 : Text
  deriving DecidableEq

/-- The directory of a proposal. -/
structure ProposalTree where
  site : Option SiteTree
  proposal : Option Bytes
  review : Option Bytes
  decision : Option Bytes
  completion : Option Bytes

/-! ## Object bindings -/

abbrev ObjectBindings := Std.ExtTreeMap Text ℕ compare

def insertObjectBinding (bindings : ObjectBindings) (digest : Text) (byteLength : ℕ) :
    Except StorageError ObjectBindings := do
  validateSha256 digest
  if maxFileBytes < byteLength ∨ bindings[digest]?.any (· ≠ byteLength) then throw .corrupt
  return bindings.insert digest byteLength

def extendObjectBindings (K : Crates) (bindings : ObjectBindings) (files : List StoredFile) :
    Except StorageError ObjectBindings := do
  validateStoredFiles K files
  files.foldlM (fun bindings file => insertObjectBinding bindings file.sha256 file.byteLength) bindings

/-- `validate_stable_proposal_inventory` -/
def validateStableProposal (tree : ProposalTree) : Except StorageError Unit :=
  if tree.site.isSome && tree.proposal.isSome then .ok () else .error .corrupt

/-- `read_optional_bounded_file` of the four files of a proposal. -/
def readProposalFiles (tree : ProposalTree) : Except StorageError Unit :=
  [tree.proposal, tree.review, tree.decision, tree.completion].forM fun file =>
    if file.any (maxProposalMetadataBytes < ·.length) then .error .corrupt else .ok ()

def proposalSiteFiles (K : Crates) (tree : ProposalTree) (requireComplete : Bool) :
    Except StorageError (List StoredFile) := do
  (if requireComplete then validateStableProposal tree else readProposalFiles tree)
  match tree.site with
  | some site => scanMaterialized K site
  | none => if requireComplete then .error .corrupt else .ok []

def proposalSiteObjectBindings (K : Crates) (tree : ProposalTree) (requireComplete : Bool) :
    Except StorageError ObjectBindings := do
  extendObjectBindings K ∅ (← proposalSiteFiles K tree requireComplete)

/-- The bindings of a proposal, inserted into others. -/
def insertBindings (bindings inserted : ObjectBindings) : Except StorageError ObjectBindings :=
  inserted.toList.foldlM (fun bindings (digest, byteLength) => insertObjectBinding bindings digest byteLength) bindings

/-! ## What the bindings hold -/

def Keeps (bindings bindings' : ObjectBindings) : Prop :=
  ∀ (digest : Text) (length : ℕ), bindings[digest]? = some length → bindings'[digest]? = some length

section
variable {K : Crates} {bindings bindings' : ObjectBindings}

/-- Every binding stays, and the inserted one is there. -/
theorem insertObjectBinding_ok {digest : Text} {byteLength : ℕ}
    (h : insertObjectBinding bindings digest byteLength = .ok bindings') :
    bindings'[digest]? = some byteLength ∧ Keeps bindings bindings' := by
  simp only [insertObjectBinding, Outcome.bind_ok] at h
  obtain ⟨⟨⟩, -, h⟩ := h
  split at h
  · cases h
  rename_i hno
  cases h
  refine ⟨Std.ExtTreeMap.getElem?_insert_self, fun other length hother => ?_⟩
  rw [Std.ExtTreeMap.getElem?_insert]
  split
  · rename_i heq
    have heq := Std.LawfulEqCmp.eq_of_compare heq
    subst heq
    simp only [not_or, hother, Option.any_some, decide_eq_true_eq, ne_eq, not_not] at hno
    rw [hno.2]
  · exact hother

theorem Keeps.refl : Keeps bindings bindings := fun _ _ h => h

theorem Keeps.trans {bindings'' : ObjectBindings} (h : Keeps bindings bindings') (h' : Keeps bindings' bindings'') :
    Keeps bindings bindings'' := fun digest length hd => h' digest length (h digest length hd)

/-- A fold that loses no binding ends with what each of its steps establishes. -/
theorem foldlM_keeps {α : Type} {f : ObjectBindings → α → Except StorageError ObjectBindings}
    {P : α → ObjectBindings → Prop} (hkeep : ∀ a b b', P a b → Keeps b b' → P a b')
    (hstep : ∀ a b b', f b a = .ok b' → P a b' ∧ Keeps b b') {l : List α} (h : l.foldlM f bindings = .ok bindings') :
    (∀ a ∈ l, P a bindings') ∧ Keeps bindings bindings' := by
  induction l generalizing bindings with
  | nil =>
    cases h
    exact ⟨fun a ha => absurd ha List.not_mem_nil, Keeps.refl⟩
  | cons a l ih =>
    rw [List.foldlM_cons] at h
    obtain ⟨next, hnext, h⟩ := Outcome.bind_ok.mp h
    obtain ⟨hhead, hkeeps⟩ := hstep a bindings next hnext
    obtain ⟨htail, hkeeps'⟩ := ih h
    refine ⟨fun b hb => ?_, hkeeps.trans hkeeps'⟩
    rcases List.mem_cons.mp hb with rfl | hb
    · exact hkeep b next bindings' hhead hkeeps'
    · exact htail b hb

theorem foldlM_insert_ok {α : Type} {digest : α → Text} {byteLength : α → ℕ} {l : List α}
    (h : l.foldlM (fun bindings a => insertObjectBinding bindings (digest a) (byteLength a)) bindings = .ok bindings') :
    (∀ a ∈ l, bindings'[digest a]? = some (byteLength a)) ∧ Keeps bindings bindings' :=
  foldlM_keeps (P := fun a b => b[digest a]? = some (byteLength a)) (fun _ _ _ ha hkeeps => hkeeps _ _ ha)
    (fun _ _ _ h => insertObjectBinding_ok h) h

theorem extendObjectBindings_ok {files : List StoredFile} (h : extendObjectBindings K bindings files = .ok bindings') :
    (∀ file ∈ files, bindings'[file.sha256]? = some file.byteLength) ∧ Keeps bindings bindings' := by
  simp only [extendObjectBindings, Outcome.bind_ok] at h
  obtain ⟨⟨⟩, -, h⟩ := h
  exact foldlM_insert_ok h

theorem insertBindings_ok {inserted : ObjectBindings} (h : insertBindings bindings inserted = .ok bindings') :
    Keeps inserted bindings' ∧ Keeps bindings bindings' := by
  obtain ⟨hall, hkeep⟩ := foldlM_insert_ok h
  exact ⟨fun digest length hd => hall (digest, length) (Std.ExtTreeMap.mem_toList_iff_getElem?_eq_some.mpr hd), hkeep⟩

theorem scanMaterialized_ok {site : SiteTree} {files : List StoredFile} (h : scanMaterialized K site = .ok files) :
    files = site.files.map (store K) := by
  unfold scanMaterialized storedFiles at h
  split at h
  · split at h
    · cases h
      rfl
    · cases h
  · cases h

/-- The bindings of a proposal name every file of its site. -/
theorem proposalSiteObjectBindings_ok {tree : ProposalTree} {requireComplete : Bool} {site : SiteTree}
    (h : proposalSiteObjectBindings K tree requireComplete = .ok bindings) (hsite : tree.site = some site) :
    ∀ file ∈ site.files, bindings[K.sha256 file.2]? = some file.2.length := by
  obtain ⟨files, hfiles, h⟩ := Outcome.bind_ok.mp h
  have hscan : scanMaterialized K site = .ok files := by
    unfold proposalSiteFiles at hfiles
    rw [hsite] at hfiles
    obtain ⟨⟨⟩, -, hfiles⟩ := Outcome.bind_ok.mp hfiles
    exact hfiles
  intro file hfile
  have hmem : store K file ∈ files := by
    rw [scanMaterialized_ok hscan]
    exact List.mem_map_of_mem hfile
  exact (extendObjectBindings_ok h).1 _ hmem

end
end LpStudio.Storage
