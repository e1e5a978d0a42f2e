import LpStudio.Storage.CleanupSafety

/-! # When bindings can be collected
The collection of object bindings fails only where two files of one digest have different lengths, or where a tree is
not one that the checks admit.
-/
namespace LpStudio.Storage
open Str Fault

/-- Every digest has one length, that of an object. -/
structure Sizing (Q : Text → ℕ → Prop) : Prop where
  functional : ∀ digest length length', Q digest length → Q digest length' → length = length'
  digest : ∀ digest length, Q digest length → validateSha256 digest = .ok ()
  length : ∀ digest length, Q digest length → length ≤ maxFileBytes

/-- The bindings all have the property. -/
def Sized (Q : Text → ℕ → Prop) (bindings : ObjectBindings) : Prop :=
  ∀ (digest : Text) (length : ℕ), bindings[digest]? = some length → Q digest length

section
variable {Q : Text → ℕ → Prop} {K : Crates} {bindings : ObjectBindings}

theorem sized_empty : Sized Q ∅ := by
  intro digest length h
  rw [Std.ExtTreeMap.getElem?_empty] at h
  cases h

theorem insertObjectBinding_sized (hQ : Sizing Q) (hb : Sized Q bindings) {digest : Text} {length : ℕ}
    (h : Q digest length) : ∃ b, insertObjectBinding bindings digest length = .ok b ∧ Sized Q b := by
  have hfits : ¬ (maxFileBytes < length ∨ bindings[digest]?.any (· ≠ length) = true) := by
    rintro (hlong | hother)
    · exact absurd (hQ.length digest length h) (Nat.not_le.mpr hlong)
    · cases heq : bindings[digest]? with
      | none => simp [heq] at hother
      | some other => simp [heq, hQ.functional digest other length (hb digest other heq) h] at hother
  refine ⟨bindings.insert digest length, ?_, fun other otherLength hother => ?_⟩
  · unfold insertObjectBinding
    rw [hQ.digest digest length h]
    exact if_neg hfits
  · rw [Std.ExtTreeMap.getElem?_insert] at hother
    split at hother
    · rename_i heq
      cases hother
      exact Std.LawfulEqCmp.eq_of_compare heq ▸ h
    · exact hb other otherLength hother

/-- A fold whose steps all succeed. -/
theorem foldlM_sized {α : Type} {f : ObjectBindings → α → Except StorageError ObjectBindings} {l : List α}
    (hf : ∀ a ∈ l, ∀ b, Sized Q b → ∃ b', f b a = .ok b' ∧ Sized Q b') (hb : Sized Q bindings) :
    ∃ b, l.foldlM f bindings = .ok b ∧ Sized Q b := by
  induction l generalizing bindings with
  | nil => exact ⟨bindings, rfl, hb⟩
  | cons a l ih =>
    obtain ⟨next, hnext, hsized⟩ := hf a List.mem_cons_self bindings hb
    obtain ⟨b, hb', hsized'⟩ := ih (fun c hc => hf c (List.mem_cons_of_mem a hc)) hsized
    exact ⟨b, by rw [List.foldlM_cons]; exact Outcome.bind_ok.mpr ⟨next, hnext, hb'⟩, hsized'⟩

theorem extendObjectBindings_sized (hQ : Sizing Q) (hb : Sized Q bindings) {files : List StoredFile}
    (hvalid : validateStoredFiles K files = .ok ()) (h : ∀ file ∈ files, Q file.sha256 file.byteLength) :
    ∃ b, extendObjectBindings K bindings files = .ok b ∧ Sized Q b := by
  obtain ⟨b, hb', hsized⟩ := foldlM_sized (Q := Q)
    (f := fun bindings file => insertObjectBinding bindings file.sha256 file.byteLength)
    (fun file hfile b hb => insertObjectBinding_sized hQ hb (h file hfile)) hb
  exact ⟨b, Outcome.bind_ok.mpr ⟨(), hvalid, hb'⟩, hsized⟩

theorem insertBindings_sized (hQ : Sizing Q) (hb : Sized Q bindings) {inserted : ObjectBindings}
    (hinserted : Sized Q inserted) : ∃ b, insertBindings bindings inserted = .ok b ∧ Sized Q b := by
  refine foldlM_sized (fun entry hentry b hb => insertObjectBinding_sized hQ hb ?_) hb
  exact hinserted _ _ (Std.ExtTreeMap.mem_toList_iff_getElem?_eq_some.mp hentry)

theorem scan_valid {site : SiteTree} {files : List StoredFile} (h : scanMaterialized K site = .ok files) :
    validateStoredFiles K files = .ok () := by
  obtain rfl := scanMaterialized_ok h
  unfold scanMaterialized storedFiles at h
  split at h
  · split at h
    · rename_i hfiles
      obtain ⟨hcount, hpaths, hfolded, hlengths, htotal⟩ := hfiles
      refine if_pos ⟨by rw [List.length_map]; exact hcount, ?_, ?_, ?_, ?_, ?_, ?_, ?_⟩
      · exact List.forall_mem_map.mpr hpaths
      · exact List.forall_mem_map.mpr fun file _ => sha256_valid K file.2
      · exact List.forall_mem_map.mpr fun file _ => rfl
      · exact List.forall_mem_map.mpr hlengths
      · exact List.pairwise_map.mpr site.sorted
      · rw [List.map_map]
        exact hfolded
      · rw [List.map_map]
        exact htotal
    · cases h
  · cases h

/-- The files of a proposal's site. -/
def ProposalTree.files (K : Crates) (tree : ProposalTree) : List StoredFile :=
  (tree.site.elim [] (·.files)).map (store K)

theorem preflightProposalRoot_ok {tree : ProposalTree} {requireComplete : Bool} :
    Root.preflightProposalRoot K tree requireComplete = .ok () ↔
      (∀ site, tree.site = some site → scanMaterialized K site = .ok (site.files.map (store K))) ∧
        readProposalFiles tree = .ok () ∧ (requireComplete = true → validateStableProposal tree = .ok ()) ∧
        Root.filesOrdered tree = true := by
  have hscan : Root.scanSite K tree.site = .ok () ↔
      ∀ site, tree.site = some site → scanMaterialized K site = .ok (site.files.map (store K)) := by
    unfold Root.scanSite
    cases hsite : tree.site with
    | none => simp
    | some site =>
      rw [Outcome.map_ok]
      constructor
      · rintro ⟨files, hfiles, -⟩ other heq
        cases heq
        rw [hfiles, scanMaterialized_ok hfiles]
      · intro h
        exact ⟨_, h site rfl, rfl⟩
  have hstable : (if requireComplete = true then validateStableProposal tree else .ok ()) = .ok () ↔
      (requireComplete = true → validateStableProposal tree = .ok ()) := by
    cases requireComplete <;> simp
  unfold Root.preflightProposalRoot
  constructor
  · intro h
    obtain ⟨⟨⟩, h1, h⟩ := Outcome.bind_ok.mp h
    obtain ⟨⟨⟩, h2, h⟩ := Outcome.bind_ok.mp h
    obtain ⟨⟨⟩, h3, h⟩ := Outcome.bind_ok.mp h
    exact ⟨hscan.mp h1, h2, hstable.mp h3, ensure_ok.mp h⟩
  · rintro ⟨h1, h2, h3, h4⟩
    exact Outcome.bind_ok.mpr ⟨(), hscan.mpr h1, Outcome.bind_ok.mpr ⟨(), h2,
      Outcome.bind_ok.mpr ⟨(), hstable.mpr h3, ensure_ok.mpr h4⟩⟩⟩

theorem proposalSiteObjectBindings_sized (hQ : Sizing Q) {tree : ProposalTree} {requireComplete : Bool}
    (htree : Root.preflightProposalRoot K tree requireComplete = .ok ())
    (h : ∀ file ∈ tree.files K, Q file.sha256 file.byteLength) :
    ∃ b, proposalSiteObjectBindings K tree requireComplete = .ok b ∧ Sized Q b := by
  obtain ⟨hscan, hread, hstable, -⟩ := preflightProposalRoot_ok.mp htree
  have hfirst : (if requireComplete = true then validateStableProposal tree else readProposalFiles tree) = .ok () := by
    split
    · rename_i hcomplete
      exact hstable hcomplete
    · exact hread
  have hfiles : proposalSiteFiles K tree requireComplete = .ok (tree.files K) := by
    refine Outcome.bind_ok.mpr ⟨(), hfirst, ?_⟩
    unfold ProposalTree.files
    cases hsite : tree.site with
    | some site => exact hscan site hsite
    | none =>
      cases requireComplete with
      | false => rfl
      | true =>
        have := hstable rfl
        simp [validateStableProposal, hsite] at this
  have hvalid : validateStoredFiles K (tree.files K) = .ok () := by
    unfold ProposalTree.files
    cases hsite : tree.site with
    | none => exact if_pos (by simp)
    | some site => exact scan_valid (hscan site hsite)
  obtain ⟨b, hb, hsized⟩ := extendObjectBindings_sized (K := K) hQ sized_empty hvalid h
  exact ⟨b, Outcome.bind_ok.mpr ⟨_, hfiles, hb⟩, hsized⟩

namespace Root

theorem collectRevisionBindings_sized (hQ : Sizing Q) (hb : Sized Q bindings) {revisions : List RevisionManifest}
    (hcount : revisions.length ≤ maxRetainedRevisions) (hnonempty : revisions ≠ [])
    (hvalid : ∀ manifest ∈ revisions, validateManifest K manifest = .ok ())
    (h : ∀ manifest ∈ revisions, ∀ file ∈ manifest.files, Q file.sha256 file.byteLength) :
    ∃ b, collectRevisionBindings K revisions bindings = .ok b ∧ Sized Q b := by
  have hstep : ∀ manifest ∈ revisions, ∀ b, Sized Q b → ∃ b', (do
      validateManifest K manifest
      extendObjectBindings K b manifest.files : Except StorageError ObjectBindings) = .ok b' ∧ Sized Q b' := by
    intro manifest hmanifest b hb
    have hmanifestOk := hvalid manifest hmanifest
    have hfiles : validateStoredFiles K manifest.files = .ok () := by
      obtain ⟨⟨⟩, -, hrest⟩ := Outcome.bind_ok.mp hmanifestOk
      obtain ⟨⟨⟩, -, hrest⟩ := Outcome.bind_ok.mp hrest
      exact hrest
    obtain ⟨b', hb', hsized⟩ := extendObjectBindings_sized (K := K) hQ hb hfiles (h manifest hmanifest)
    exact ⟨b', Outcome.bind_ok.mpr ⟨(), hmanifestOk, hb'⟩, hsized⟩
  obtain ⟨b, hb', hsized⟩ := foldlM_sized hstep hb
  refine ⟨b, ?_, hsized⟩
  unfold collectRevisionBindings
  rw [boundedDirectoryEntries_ok.mpr hcount, ensure_ok.mpr hnonempty]
  exact hb'

theorem collectProposalBindings_sized (hQ : Sizing Q) (hb : Sized Q bindings) {trees : List (ProposalTree × Bool)}
    (hvalid : ∀ entry ∈ trees, preflightProposalRoot K entry.1 entry.2 = .ok ())
    (h : ∀ entry ∈ trees, ∀ file ∈ entry.1.files K, Q file.sha256 file.byteLength) :
    ∃ b, collectProposalBindings K trees bindings = .ok b ∧ Sized Q b := by
  refine foldlM_sized (fun entry hentry b hb => ?_) hb
  obtain ⟨inserted, hinserted, hsized⟩ := proposalSiteObjectBindings_sized hQ (hvalid entry hentry) (h entry hentry)
  obtain ⟨b', hb', hsized'⟩ := insertBindings_sized hQ hb hsized
  exact ⟨b', Outcome.bind_ok.mpr ⟨inserted, hinserted, hb'⟩, hsized'⟩

end Root
end
end LpStudio.Storage
