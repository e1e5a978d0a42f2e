import LpStudio.ChangeSet.Exactness

/-! # The order of the operations
Operations that pass the checks claim different folded paths, so the checks and the application come to the same result
in any order of them.
-/
namespace LpStudio.ChangeSet
open Str Paths Outcome

/-! ## Single operations -/

/-- The checks on content, the total apart. -/
def SoundContent (K : Crates) (path mediaType content : Text) : Prop :=
  validatePath K path = .ok () ∧ validateTextMediaType path mediaType = .ok () ∧
    ¬contains redactionPlaceholder content = true ∧ ¬maxGeneratedFileBytes < byteLength content

/-- The checks on an operation, the total apart. -/
def SoundOperation (K : Crates) : ChangeOperationV1 → Prop
  | .createText path mediaType content => SoundContent K path mediaType content
  | .replaceText path expectedSha256 mediaType content =>
    SoundContent K path mediaType content ∧ validateHash expectedSha256 = .ok ()
  | .rename source target expectedSha256 => validatePath K source = .ok () ∧ validatePath K target = .ok () ∧
    validateHash expectedSha256 = .ok () ∧ ¬(source = target ∨ (!sameExtension source target) = true)
  | .delete path expectedSha256 => validatePath K path = .ok () ∧ validateHash expectedSha256 = .ok ()

def generated : ChangeOperationV1 → Option Text
  | .createText _ _ content | .replaceText _ _ _ content => some content
  | .rename .. | .delete .. => none

section
variable {K : Crates} {total total' : ℕ} {operation : ChangeOperationV1}

theorem validateContent_ok {path mediaType content : Text} :
    validateContent K total path mediaType content = .ok total' ↔ SoundContent K path mediaType content ∧
      total' = total + byteLength content ∧ total' ≤ maxGeneratedTotalBytes := by
  have hguard : ∀ {b : Prop} [Decidable b] {e : ChangeSetError} {f : PUnit → Except ChangeSetError ℕ}
      {r : Except ChangeSetError ℕ}, (if b then throw e >>= f else r) = .ok total' ↔ ¬b ∧ r = .ok total' := by
    intro b _ e f r
    split
    · exact iff_of_false (fun h => by cases h) fun h => h.1 ‹b›
    · exact (and_iff_right ‹¬b›).symm
  unfold validateContent SoundContent
  simp only [check_ok, hguard, pure_ok]
  constructor
  · rintro ⟨hpath, htype, hplaceholder, hfile, htotal, rfl⟩
    exact ⟨⟨hpath, htype, hplaceholder, hfile⟩, rfl, Nat.not_lt.mp htotal⟩
  · rintro ⟨⟨hpath, htype, hplaceholder, hfile⟩, rfl, htotal⟩
    exact ⟨hpath, htype, hplaceholder, hfile, Nat.not_lt.mpr htotal, rfl⟩

theorem validateOperation_ok : validateOperation K total operation = .ok total' ↔ SoundOperation K operation ∧
    total' = total + ((generated operation).map byteLength).getD 0 ∧
      ((generated operation).isSome = true → total' ≤ maxGeneratedTotalBytes) := by
  cases operation with
  | createText path mediaType content =>
    simp only [validateOperation, validateContent_ok, SoundOperation, generated, Option.map_some, Option.getD_some,
      Option.isSome_some, forall_const]
  | replaceText path expectedSha256 mediaType content =>
    simp only [validateOperation, bind_ok, validateContent_ok, pure_ok, SoundOperation, generated,
      Option.map_some, Option.getD_some, Option.isSome_some, forall_const]
    constructor
    · rintro ⟨n, ⟨hsound, htotal, hlimit⟩, ⟨⟩, hhash, rfl⟩
      exact ⟨⟨hsound, hhash⟩, htotal, hlimit⟩
    · rintro ⟨⟨hsound, hhash⟩, htotal, hlimit⟩
      exact ⟨total', ⟨hsound, htotal, hlimit⟩, ⟨⟩, hhash, rfl⟩
  | rename source target expectedSha256 =>
    simp only [validateOperation, check_ok, SoundOperation, generated, Option.map_none, Option.getD_none,
      Option.isSome_none, Bool.false_eq_true, false_implies, and_true, Nat.add_zero]
    constructor
    · rintro ⟨hsource, htarget, hhash, h⟩
      split at h
      · cases h
      · rename_i hsame
        exact ⟨⟨hsource, htarget, hhash, hsame⟩, (pure_ok.mp h).symm⟩
    · rintro ⟨⟨hsource, htarget, hhash, hsame⟩, rfl⟩
      refine ⟨hsource, htarget, hhash, ?_⟩
      rw [if_neg hsame]
      rfl
  | delete path expectedSha256 =>
    simp only [validateOperation, check_ok, pure_ok, SoundOperation, generated, Option.map_none, Option.getD_none,
      Option.isSome_none, Bool.false_eq_true, false_implies, and_true, Nat.add_zero, and_assoc, @eq_comm ℕ total]

end

/-! ## The checks in any order -/

section
variable {K : Crates} {accepted : Files} {operations operations' : List ChangeOperationV1}

theorem validateEnvelope_perm {changeSet : ChangeSetV1} {base : Text} (hperm : changeSet.operations.Perm operations)
    (h : validateEnvelope changeSet base = .ok ()) : validateEnvelope { changeSet with operations } base = .ok () := by
  have hempty : operations.isEmpty = changeSet.operations.isEmpty := by
    rw [Bool.eq_iff_iff, List.isEmpty_iff_length_eq_zero, List.isEmpty_iff_length_eq_zero, hperm.length_eq]
  rw [validateEnvelope] at h ⊢
  rw [hempty, ← hperm.length_eq]
  exact h

theorem validateOperations_perm (hperm : operations.Perm operations') (h : validateOperations K operations = .ok ()) :
    validateOperations K operations' = .ok () := by
  rw [validateOperations, bind_ok] at h ⊢
  obtain ⟨total, htotal, h⟩ := h
  refine ⟨total, foldlM_perm (R := fun _ _ => True) (fun _ _ _ => trivial) ?_ hperm (List.pairwise_of_forall fun _ _ => trivial)
    htotal, h⟩
  -- either of two operations stays below the limit that the second one has met
  intro start a b t _ hswap
  simp only [List.foldlM_cons, List.foldlM_nil, bind_ok, pure_ok, exists_eq_right, validateOperation_ok] at hswap ⊢
  obtain ⟨u, ⟨ha, rfl, hlimit⟩, hb, rfl, hlimit'⟩ := hswap
  refine ⟨start + ((generated b).map byteLength).getD 0, ⟨hb, rfl, fun hsome => ?_⟩, ha, by omega, fun hsome => ?_⟩
  · have := hlimit' hsome
    omega
  · cases hgenerated : generated b with
    | some content =>
      have := hlimit' (by rw [hgenerated]; rfl)
      rw [hgenerated] at this
      omega
    | none =>
      have := hlimit hsome
      rw [Option.map_none, Option.getD_none]
      omega

/-- Two operations claim different folded paths. -/
def Apart (K : Crates) (a b : ChangeOperationV1) : Prop :=
  ∀ path ∈ operationClaims a, ∀ other ∈ operationClaims b, foldedPath K path ≠ foldedPath K other

theorem Apart.symm {a b : ChangeOperationV1} (h : Apart K a b) : Apart K b a :=
  fun path hpath other hother heq => h other hother path hpath heq.symm

theorem claimPaths_ok_iff {owners : Std.ExtTreeMap Text ℕ compare} {claims : List (ℕ × Text)} :
    claimPaths K owners claims = .ok () ↔
      (∀ claim ∈ claims, ∀ owner, owners[foldedPath K claim.2]? = some owner → owner = claim.1) ∧
        claims.Pairwise fun a b => foldedPath K a.2 = foldedPath K b.2 → a.1 = b.1 := by
  refine ⟨claimPaths_ok, fun h => ?_⟩
  induction claims generalizing owners with
  | nil => rfl
  | cons claim claims ih =>
    obtain ⟨index, path⟩ := claim
    obtain ⟨howners, hpairwise⟩ := h
    rw [List.pairwise_cons] at hpairwise
    simp only [claimPaths]
    rw [if_neg]
    · refine ih ⟨fun claim hclaim owner howner => ?_, hpairwise.2⟩
      rw [Std.ExtTreeMap.getElem?_insert] at howner
      split at howner
      · rename_i heq
        rw [← Option.some.inj howner]
        exact hpairwise.1 claim hclaim (Std.LawfulEqCmp.eq_of_compare heq)
      · exact howners claim (List.mem_cons_of_mem _ hclaim) owner howner
    · intro hany
      obtain ⟨owner, howner, hother⟩ := (Option.any_eq_true _ _).mp hany
      rw [howners (index, path) List.mem_cons_self owner howner, bne_self_eq_false] at hother
      cases hother

/-- The edge of a rename. -/
def addEdge (K : Crates) (edges : Edges) : ChangeOperationV1 → Edges
  | .rename source target _ => edges.insert (foldedPath K source) (foldedPath K target)
  | _ => edges

theorem validateOperationGraph_ok : validateOperationGraph K operations = .ok () ↔
    containsRenameCycle (operations.foldl (addEdge K) ∅) = false ∧ operations.Pairwise (Apart K) := by
  have hedges : validateOperationGraph K operations =
      if containsRenameCycle (operations.foldl (addEdge K) ∅) then .error .renameCycle
      else claimPaths K ∅ (operations.zipIdx.flatMap fun entry => (operationClaims entry.1).map fun path => (entry.2, path)) := rfl
  have hindices : operations.zipIdx.Pairwise fun a b => a.2 ≠ b.2 := by
    rw [← List.pairwise_map (R := (· ≠ ·)), List.zipIdx_map_snd]
    exact List.nodup_range'
  rw [hedges]
  split
  · rename_i hcycle
    exact iff_of_false (fun h => by cases h) fun h => by rw [h.1] at hcycle; cases hcycle
  · rename_i hcycle
    rw [and_iff_right (Bool.eq_false_iff.mpr hcycle), claimPaths_ok_iff, List.pairwise_flatMap]
    constructor
    · rintro ⟨-, -, hclaims⟩
      rw [← List.zipIdx_map_fst 0 operations, List.pairwise_map]
      refine (hclaims.and hindices).imp fun {a b} hab path hpath other hother heq => hab.2 ?_
      exact hab.1 (a.2, path) (List.mem_map_of_mem hpath) (b.2, other) (List.mem_map_of_mem hother) heq
    · intro hapart
      refine ⟨fun claim _ owner howner => ?_, fun entry _ => ?_, ?_⟩
      · rw [Std.ExtTreeMap.getElem?_empty] at howner
        cases howner
      · rw [List.pairwise_map]
        exact List.pairwise_of_forall fun _ _ _ => rfl
      · rw [← List.zipIdx_map_fst 0 operations, List.pairwise_map] at hapart
        refine hapart.imp fun {a b} hab claim hclaim other hother heq => ?_
        obtain ⟨path, hpath, rfl⟩ := List.mem_map.mp hclaim
        obtain ⟨path', hpath', rfl⟩ := List.mem_map.mp hother
        exact absurd heq (hab path hpath path' hpath')

theorem addEdge_comm {a b : ChangeOperationV1} (h : Apart K a b) (edges : Edges) :
    addEdge K (addEdge K edges a) b = addEdge K (addEdge K edges b) a := by
  cases a <;> cases b <;> try rfl
  rename_i source target _ source' target' _
  have hne := h source List.mem_cons_self source' List.mem_cons_self
  refine Std.ExtTreeMap.ext_getElem? fun path => ?_
  simp only [addEdge, Std.ExtTreeMap.getElem?_insert, Std.LawfulEqCmp.compare_eq_iff_eq]
  split
  · rename_i heq
    rw [if_neg fun h => hne (h.trans heq.symm)]
  · rfl

theorem validateOperationGraph_perm (hperm : operations.Perm operations')
    (h : validateOperationGraph K operations = .ok ()) : validateOperationGraph K operations' = .ok () := by
  rw [validateOperationGraph_ok] at h ⊢
  obtain ⟨hcycle, hapart⟩ := h
  have : Std.Symm (Apart K) := ⟨fun _ _ => Apart.symm⟩
  refine ⟨?_, (hperm.pairwise_iff Apart.symm).mp hapart⟩
  rw [← hperm.foldl_eq' (f := addEdge K) (fun a ha b hb edges => ?_)]
  · exact hcycle
  · by_cases heq : a = b
    · rw [heq]
    · exact addEdge_comm (hapart.forall ha hb heq) edges

theorem validatePreconditions_perm (hperm : operations.Perm operations')
    (h : validatePreconditions K operations accepted = .ok ()) : validatePreconditions K operations' accepted = .ok () :=
  forM_ok.mpr fun operation hoperation => forM_ok.mp h operation (hperm.mem_iff.mpr hoperation)

end

/-! ## The application in any order -/

section
variable {K : Crates} {accepted files files' : Files} {operation : ChangeOperationV1}
  {operations : List ChangeOperationV1}

/-- What can be performed is. -/
theorem applyOperation_performs (h : Performed accepted files operation) (log : List AppliedFileChange) :
    ∃ state, applyOperation K (accepted, log) operation = .ok state := by
  have hfree : ∀ {site : Files} {path : Text}, site[path]? = none → ¬site.contains path = true := by
    intro site path hnone hcontains
    rw [Std.ExtTreeMap.contains_iff_mem, Std.ExtTreeMap.mem_iff_isSome_getElem?, hnone] at hcontains
    cases hcontains
  cases operation with
  | createText path mediaType content =>
    simp only [applyOperation, if_neg (hfree h.1)]
    exact ⟨_, rfl⟩
  | replaceText path expectedSha256 mediaType content =>
    obtain ⟨⟨before, hbefore⟩, -⟩ := h
    simp only [applyOperation, hbefore]
    exact ⟨_, rfl⟩
  | rename source target expectedSha256 =>
    obtain ⟨bytes, hbefore, hnew, -⟩ := h
    have herased : (accepted.erase source)[target]? = none := by
      rw [Std.ExtTreeMap.getElem?_erase, hnew, ite_self]
    simp only [applyOperation, hbefore, if_neg (hfree herased)]
    exact ⟨_, rfl⟩
  | delete path expectedSha256 =>
    obtain ⟨⟨before, hbefore⟩, -⟩ := h
    simp only [applyOperation, hbefore]
    exact ⟨_, rfl⟩

theorem applyToClone_performs (hperformed : ∀ operation ∈ operations, Performed accepted files operation)
    (hclaims : ∀ operation ∈ operations, (operationClaims operation).Nodup)
    (hdisjoint : operations.Pairwise fun a b => List.Disjoint (operationClaims a) (operationClaims b))
    (log : List AppliedFileChange) : ∃ state, operations.foldlM (applyOperation K) (accepted, log) = .ok state := by
  induction operations generalizing accepted log with
  | nil => exact ⟨_, rfl⟩
  | cons operation operations ih =>
    rw [List.pairwise_cons] at hdisjoint
    obtain ⟨⟨next, log'⟩, hnext⟩ := applyOperation_performs (hperformed operation List.mem_cons_self) log
    obtain ⟨-, -, hframe⟩ := applyOperation_ok hnext (hclaims operation List.mem_cons_self)
    have hothers : ∀ other ∈ operations, Performed next files other := by
      intro other hother
      refine (hperformed other (List.mem_cons_of_mem operation hother)).congr (fun path hpath => ?_) fun _ _ => rfl
      exact hframe path fun hclaimed => hdisjoint.1 other hother hclaimed hpath
    obtain ⟨state, hstate⟩ := ih hothers (fun other hother => hclaims other (List.mem_cons_of_mem operation hother))
      hdisjoint.2 log'
    rw [List.foldlM_cons, hnext]
    exact ⟨state, hstate⟩

/-- The claimed paths of a performed operation hold what it says. -/
theorem Performed.unique (h : Performed accepted files operation) (h' : Performed accepted files' operation) :
    ∀ path ∈ operationClaims operation, files'[path]? = files[path]? := by
  cases operation with
  | createText path mediaType content => exact List.forall_mem_singleton.mpr (h'.2.trans h.2.symm)
  | replaceText path expectedSha256 mediaType content => exact List.forall_mem_singleton.mpr (h'.2.trans h.2.symm)
  | rename source target expectedSha256 =>
    obtain ⟨bytes, hbefore, -, hgone, hafter⟩ := h
    obtain ⟨bytes', hbefore', -, hgone', hafter'⟩ := h'
    obtain rfl := Option.some.inj (hbefore.symm.trans hbefore')
    exact List.forall_mem_cons.mpr ⟨hgone'.trans hgone.symm, List.forall_mem_singleton.mpr (hafter'.trans hafter.symm)⟩
  | delete path expectedSha256 => exact List.forall_mem_singleton.mpr (h'.2.trans h.2.symm)

end

/-- What follows the application depends on the resulting site alone. -/
theorem parseAndApply_of_applied {G : Gate} {raw raw' base : Text} {accepted : Files} {result : AppliedChangeSet}
    (h : parseAndApplyChangeSet G raw base accepted = .ok result) {changeSet : ChangeSetV1}
    {changes : List AppliedFileChange} (hjson : G.fromJson raw' = some changeSet)
    (henvelope : validateEnvelope changeSet base = .ok ())
    (hoperations : validateOperations G.crates changeSet.operations = .ok ())
    (hgraph : validateOperationGraph G.crates changeSet.operations = .ok ())
    (hpreconditions : validatePreconditions G.crates changeSet.operations accepted = .ok ())
    (happlied : applyToClone G.crates changeSet.operations accepted = .ok (result.files, changes)) :
    ∃ result', parseAndApplyChangeSet G raw' base accepted = .ok result' ∧ result'.files = result.files ∧
      result'.changes = changes ∧ result'.blockingWarnings = result.blockingWarnings ∧ result'.checks = result.checks := by
  simp only [parseAndApplyChangeSet] at h ⊢
  cases hraw : G.fromJson raw with
  | none =>
    rw [hraw] at h
    cases h
  | some first =>
  simp only [hraw, bind_ok] at h
  obtain ⟨⟨⟩, -, ⟨⟩, hpaths, ⟨⟩, -, ⟨⟩, -, ⟨⟩, -, ⟨files, changes'⟩, -, ⟨⟩, hcollisions, h⟩ := h
  cases hparsed : StaticSyntax.validateResultingSite G.parsers files.toList with
  | none =>
    simp only [hparsed] at h
    cases h
  | some warnings =>
  simp only [hparsed] at h
  cases hentry : files.contains "index.html".toList with
  | false =>
    rw [hentry] at h
    cases h
  | true =>
  simp only [hentry, Bool.not_true, Bool.false_eq_true, ↓reduceIte, bind_ok, pure_ok] at h
  obtain ⟨incomplete, hreferences, ⟨⟩, hdeny, rfl⟩ := h
  refine ⟨{ changeSet, files, changes, unifiedDiff := buildUnifiedDiff accepted files changes, checks := _, blockingWarnings := _ },
    ?_, rfl, rfl, rfl, rfl⟩
  simp only [hjson, bind_ok]
  refine ⟨⟨⟩, henvelope, ⟨⟩, hpaths, ⟨⟩, hoperations, ⟨⟩, hgraph, ⟨⟩, hpreconditions, (files, changes), happlied,
    ⟨⟩, hcollisions, ?_⟩
  simp only [hparsed, hentry, Bool.not_true, Bool.false_eq_true, ↓reduceIte, bind_ok, pure_ok]
  exact ⟨incomplete, hreferences, ⟨⟩, hdeny, rfl⟩

/-- The order of the operations does not matter: what is accepted in one order is accepted in every order, with the same
files, warnings and checks and with the same record for each operation; what is rejected in one order is rejected in
every order. -/
theorem apply_permuted (G : Gate) (raw raw' base : Text) (accepted : Files) (changeSet : ChangeSetV1)
    (operations : List ChangeOperationV1) (hperm : changeSet.operations.Perm operations)
    (hraw : G.fromJson raw = some changeSet) (hraw' : G.fromJson raw' = some { changeSet with operations }) :
    (∀ result, parseAndApplyChangeSet G raw base accepted = .ok result →
      ∃ result', parseAndApplyChangeSet G raw' base accepted = .ok result' ∧ result'.files = result.files ∧
        result'.blockingWarnings = result.blockingWarnings ∧ result'.checks = result.checks ∧
        ∃ record : ChangeOperationV1 → AppliedFileChange,
          result.changes = changeSet.operations.map record ∧ result'.changes = operations.map record) ∧
    ∀ e, parseAndApplyChangeSet G raw base accepted = .error e →
      ∃ e', parseAndApplyChangeSet G raw' base accepted = .error e' := by
  have haccepts : ∀ {raw raw' : Text} {changeSet : ChangeSetV1} {operations : List ChangeOperationV1},
      changeSet.operations.Perm operations → G.fromJson raw = some changeSet →
      G.fromJson raw' = some { changeSet with operations } → ∀ result,
      parseAndApplyChangeSet G raw base accepted = .ok result →
      ∃ result', parseAndApplyChangeSet G raw' base accepted = .ok result' ∧ result'.files = result.files ∧
        result'.blockingWarnings = result.blockingWarnings ∧ result'.checks = result.checks ∧
        ∃ record : ChangeOperationV1 → AppliedFileChange,
          result.changes = changeSet.operations.map record ∧ result'.changes = operations.map record := by
    intro raw raw' changeSet operations hperm hraw hraw' result haccept
    have hpasses := parseAndApply_passes haccept
    obtain rfl : changeSet = result.changeSet := Option.some.inj (hraw.symm.trans hpasses.protocol)
    have hnodup := operationClaims_nodup hpasses.preconditions
    have hdisjoint := validateOperationGraph_disjoint hpasses.graph
    have hgraph := validateOperationGraph_perm hperm hpasses.graph
    have hpreconditions := validatePreconditions_perm hperm hpasses.preconditions
    have hnodup' := operationClaims_nodup hpreconditions
    have hdisjoint' := validateOperationGraph_disjoint hgraph
    obtain ⟨hperformed, hchanges, hkept⟩ := applyToClone_performed hpasses.applied hnodup hdisjoint
    have hperformed' : ∀ operation ∈ operations, Performed accepted result.files operation :=
      fun operation hoperation => hperformed operation (hperm.mem_iff.mpr hoperation)
    obtain ⟨⟨files, changes⟩, happlied⟩ := @applyToClone_performs G.crates _ _ _ hperformed' hnodup' hdisjoint' []
    obtain ⟨hagain, hchanges', hkept'⟩ := applyToClone_performed happlied hnodup' hdisjoint'
    obtain rfl : files = result.files := by
      refine Std.ExtTreeMap.ext_getElem? fun path => ?_
      by_cases hclaimed : ∃ operation ∈ operations, path ∈ operationClaims operation
      · obtain ⟨operation, hoperation, hpath⟩ := hclaimed
        exact (hperformed' operation hoperation).unique (hagain operation hoperation) path hpath
      · push Not at hclaimed
        rw [hkept' path hclaimed, hkept path fun operation hoperation => hclaimed operation (hperm.mem_iff.mp hoperation)]
    obtain ⟨result', haccept', hfiles, hrecords, hwarnings, hchecks⟩ := parseAndApply_of_applied haccept hraw'
      (validateEnvelope_perm hperm hpasses.envelope) (validateOperations_perm hperm hpasses.operations) hgraph
      hpreconditions happlied
    refine ⟨result', haccept', hfiles, hwarnings, hchecks, recordOf G.crates accepted result.files, hchanges, ?_⟩
    rw [hrecords, hchanges', List.nil_append]
  refine ⟨haccepts hperm hraw hraw', fun e hreject => ?_⟩
  cases happly : parseAndApplyChangeSet G raw' base accepted with
  | error e' => exact ⟨e', rfl⟩
  | ok result' =>
    obtain ⟨result, haccept, -⟩ := haccepts hperm.symm hraw' hraw result' happly
    rw [hreject] at haccept
    cases haccept

/-- The four operations, and the same ones backwards. -/
def twoOrders : Gate where
  crates := styledGate.crates
  parsers := styledGate.parsers
  fromJson raw := (styledGate.fromJson raw).map fun changeSet =>
    if raw.isEmpty then changeSet else { changeSet with operations := changeSet.operations.reverse }

set_option maxRecDepth 100000 in
theorem apply_permuted_backwards : ∃ result result',
    parseAndApplyChangeSet twoOrders [] "rev_0".toList styledSite = .ok result ∧
      parseAndApplyChangeSet twoOrders ['r'] "rev_0".toList styledSite = .ok result' ∧
      result'.files = result.files ∧ result'.changes = result.changes.reverse := by
  have hrun : (parseAndApplyChangeSet twoOrders [] "rev_0".toList styledSite).toOption.any
      (fun result => result.changes.length = 4) = true := by
    decide
  obtain ⟨result, haccept, -⟩ := exists_of_any hrun
  obtain ⟨changeSet, hraw⟩ : ∃ changeSet, twoOrders.fromJson [] = some changeSet := ⟨_, rfl⟩
  have hraw' : twoOrders.fromJson ['r'] = some { changeSet with operations := changeSet.operations.reverse } := by
    obtain rfl := Option.some.inj hraw
    rfl
  obtain ⟨result', haccept', hfiles, -, -, record, hchanges, hchanges'⟩ := (apply_permuted twoOrders [] ['r']
    "rev_0".toList styledSite changeSet changeSet.operations.reverse (List.reverse_perm _).symm hraw hraw').1 result haccept
  refine ⟨result, result', haccept, haccept', hfiles, ?_⟩
  rw [hchanges', hchanges, List.map_reverse]

end LpStudio.ChangeSet
