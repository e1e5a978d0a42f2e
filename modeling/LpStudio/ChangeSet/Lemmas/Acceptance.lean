import LpStudio.ChangeSet.Review
import LpStudio.Lib.Outcome

/-! # What acceptance says
A ChangeSet that `parse_and_apply_change_set` accepts has passed every check, and an empty list of
blocking warnings bounds the features of the result by those of the accepted site.
-/
namespace LpStudio.ChangeSet
open Str Outcome

/-- The checks an accepted ChangeSet has passed. -/
structure Passes (G : Gate) (raw expectedBaseRevisionId : Text) (accepted : Files)
    (result : AppliedChangeSet) : Prop where
  protocol : G.fromJson raw = some result.changeSet
  envelope : validateEnvelope result.changeSet expectedBaseRevisionId = .ok ()
  paths : validateAcceptedPaths G.crates accepted = .ok ()
  operations : validateOperations G.crates result.changeSet.operations = .ok ()
  graph : validateOperationGraph G.crates result.changeSet.operations = .ok ()
  preconditions : validatePreconditions G.crates result.changeSet.operations accepted = .ok ()
  applied : applyToClone G.crates result.changeSet.operations accepted =
    .ok (result.files, result.changes)
  collisions : validateFinalCaseCollisions G.crates result.files = .ok ()
  parsed : ∃ warnings, StaticSyntax.validateResultingSite G.parsers result.files.toList = some warnings
  entryPoint : result.files.contains "index.html".toList = true
  references : ∃ incomplete, validateLocalReferences G.crates result.files = .ok incomplete ∧
    result.blockingWarnings = warningSet (activeBehaviorWarnings G.crates accepted result.files ++
      (introducedIncompleteSources accepted result.files incomplete).map incompleteReferenceWarning)
  denyList : validateExportDenyList G.crates result.files = .ok ()

theorem parseAndApply_passes {G : Gate} {raw base : Text} {accepted : Files} {result : AppliedChangeSet}
    (h : parseAndApplyChangeSet G raw base accepted = .ok result) : Passes G raw base accepted result := by
  simp only [parseAndApplyChangeSet] at h
  cases hjson : G.fromJson raw with
  | none => rw [hjson] at h; cases h
  | some changeSet =>
  simp only [hjson, bind_ok] at h
  obtain ⟨⟨⟩, henvelope, ⟨⟩, hpaths, ⟨⟩, hoperations, ⟨⟩, hgraph, ⟨⟩, hpre, ⟨files, changes⟩, happly,
    ⟨⟩, hcollisions, h⟩ := h
  cases hparsed : StaticSyntax.validateResultingSite G.parsers files.toList with
  | none => simp only [hparsed] at h; cases h
  | some warnings =>
  simp only [hparsed] at h
  cases hentry : files.contains "index.html".toList with
  | false =>
    rw [hentry] at h
    cases h
  | true =>
  simp only [hentry, Bool.not_true, Bool.false_eq_true, ↓reduceIte, bind_ok, pure_ok] at h
  obtain ⟨incomplete, hreferences, ⟨⟩, hdeny, rfl⟩ := h
  exact ⟨hjson, henvelope, hpaths, hoperations, hgraph, hpre, happly, hcollisions, ⟨warnings, hparsed⟩,
    hentry, ⟨incomplete, hreferences, rfl⟩, hdeny⟩

theorem warningSet_eq_nil {warnings : List BlockingWarning} : warningSet warnings = [] ↔ warnings = [] := by
  have hlen := (List.perm_insertionSort (BlockingWarning.le · ·) warnings.dedup).length_eq
  constructor
  · intro h
    simp only [warningSet] at h
    rw [h] at hlen
    have hnil : warnings.dedup = [] := List.length_eq_zero_iff.mp hlen.symm
    exact List.eq_nil_of_subset_nil (hnil ▸ List.subset_dedup warnings)
  · rintro rfl; rfl

/-- Without blocking warnings every feature of the result, origins apart, is one of the accepted site. -/
theorem features_of_no_warnings {G : Gate} {raw base : Text} {accepted : Files} {result : AppliedChangeSet}
    (h : parseAndApplyChangeSet G raw base accepted = .ok result) (hnone : result.blockingWarnings = [])
    {feature : BehaviorFeature} (hf : feature ∈ behaviorFeatures G.crates result.files)
    (hcode : feature.code ≠ "new_external_origin".toList) :
    feature ∈ behaviorFeatures G.crates accepted := by
  obtain ⟨incomplete, -, hwarnings⟩ := (parseAndApply_passes h).references
  rw [hnone] at hwarnings
  obtain ⟨hactive, -⟩ := List.append_eq_nil_iff.mp (warningSet_eq_nil.mp hwarnings.symm)
  simp only [activeBehaviorWarnings, List.map_eq_nil_iff, List.filter_eq_nil_iff, decide_eq_true_eq] at hactive
  by_contra hnew
  exact hactive feature hf ⟨hnew, hcode⟩

end LpStudio.ChangeSet
