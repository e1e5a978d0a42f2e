import LpStudio.ChangeSet.Lemmas.Acceptance

/-! # Application is exact
The operations of an accepted ChangeSet claim different paths, so that none sees what another has done: the result is
the accepted site without the removed paths, with the written files, and the records say so.
-/
namespace LpStudio.ChangeSet
open Str Outcome

/-! ## What an operation says -/

/-- The paths that an operation takes away. -/
def removedPaths : ChangeOperationV1 → List Text
  | .createText .. | .replaceText .. => []
  | .rename source _ _ => [source]
  | .delete path _ => [path]

/-- The files that an operation puts into the site. -/
def writtenFiles (accepted : Files) : ChangeOperationV1 → List (Text × Bytes)
  | .createText path _ content | .replaceText path _ _ content => [(path, encode content)]
  | .rename source target _ => (accepted[source]?).toList.map fun bytes => (target, bytes)
  | .delete .. => []

/-- The paths that an operation says are new. -/
def newPaths : ChangeOperationV1 → List Text
  | .createText path .. => [path]
  | .rename _ target _ => [target]
  | .replaceText .. | .delete .. => []

/-- A file of the accepted site without the removed paths, with the written files. -/
def resultingFile (operations : List ChangeOperationV1) (accepted : Files) (path : Text) : Option Bytes :=
  ((operations.flatMap (writtenFiles accepted)).lookup path).or
    (if path ∈ operations.flatMap removedPaths then none else accepted[path]?)

/-- The record of an operation that turns `accepted` into `files`. -/
def recordOf (K : Crates) (accepted files : Files) : ChangeOperationV1 → AppliedFileChange
  | .createText path .. => ⟨path, .created, none, none, (files[path]?).map K.sha256⟩
  | .replaceText path .. => ⟨path, .modified, none, (accepted[path]?).map K.sha256, (files[path]?).map K.sha256⟩
  | .rename source target _ =>
    ⟨target, .renamed, some source, (accepted[source]?).map K.sha256, (files[target]?).map K.sha256⟩
  | .delete path _ => ⟨path, .deleted, none, (accepted[path]?).map K.sha256, none⟩

/-- What the paths of an operation are before and after. -/
def Performed (accepted files : Files) : ChangeOperationV1 → Prop
  | .createText path _ content => accepted[path]? = none ∧ files[path]? = some (encode content)
  | .replaceText path _ _ content => (∃ before, accepted[path]? = some before) ∧ files[path]? = some (encode content)
  | .rename source target _ => ∃ bytes, accepted[source]? = some bytes ∧ accepted[target]? = none ∧
      files[source]? = none ∧ files[target]? = some bytes
  | .delete path _ => (∃ before, accepted[path]? = some before) ∧ files[path]? = none

section
variable {K : Crates} {accepted accepted' files files' : Files} {operation : ChangeOperationV1}

/-- An operation looks at the paths that it claims. -/
theorem Performed.congr (h : Performed accepted files operation)
    (haccepted : ∀ path ∈ operationClaims operation, accepted'[path]? = accepted[path]?)
    (hfiles : ∀ path ∈ operationClaims operation, files'[path]? = files[path]?) :
    Performed accepted' files' operation := by
  cases operation with
  | createText path mediaType content =>
    have hmem : path ∈ operationClaims (.createText path mediaType content) := List.mem_singleton_self path
    exact ⟨(haccepted path hmem).trans h.1, (hfiles path hmem).trans h.2⟩
  | replaceText path expected mediaType content =>
    have hmem : path ∈ operationClaims (.replaceText path expected mediaType content) := List.mem_singleton_self path
    obtain ⟨⟨before, hbefore⟩, hafter⟩ := h
    exact ⟨⟨before, (haccepted path hmem).trans hbefore⟩, (hfiles path hmem).trans hafter⟩
  | rename source target expected =>
    have hsource : source ∈ operationClaims (.rename source target expected) := List.mem_cons_self
    have htarget : target ∈ operationClaims (.rename source target expected) :=
      List.mem_cons_of_mem source (List.mem_singleton_self target)
    obtain ⟨bytes, hbefore, hnone, hgone, hafter⟩ := h
    exact ⟨bytes, (haccepted source hsource).trans hbefore, (haccepted target htarget).trans hnone,
      (hfiles source hsource).trans hgone, (hfiles target htarget).trans hafter⟩
  | delete path expected =>
    have hmem : path ∈ operationClaims (.delete path expected) := List.mem_singleton_self path
    obtain ⟨⟨before, hbefore⟩, hafter⟩ := h
    exact ⟨⟨before, (haccepted path hmem).trans hbefore⟩, (hfiles path hmem).trans hafter⟩

theorem recordOf_congr (haccepted : ∀ path ∈ operationClaims operation, accepted'[path]? = accepted[path]?)
    (hfiles : ∀ path ∈ operationClaims operation, files'[path]? = files[path]?) :
    recordOf K accepted' files' operation = recordOf K accepted files operation := by
  cases operation with
  | createText path mediaType content =>
    simp only [recordOf, hfiles path (List.mem_singleton_self path)]
  | replaceText path expected mediaType content =>
    simp only [recordOf, haccepted path (List.mem_singleton_self path), hfiles path (List.mem_singleton_self path)]
  | rename source target expected =>
    simp only [recordOf, haccepted source List.mem_cons_self,
      hfiles target (List.mem_cons_of_mem source (List.mem_singleton_self target))]
  | delete path expected =>
    simp only [recordOf, haccepted path (List.mem_singleton_self path)]

end

/-! ## One operation -/

section
variable {K : Crates} {files files' : Files} {log log' : List AppliedFileChange} {operation : ChangeOperationV1}

theorem getElem?_insert_other {path other : Text} {bytes : Bytes} (h : path ≠ other) :
    (files.insert path bytes)[other]? = files[other]? := by
  rw [Std.ExtTreeMap.getElem?_insert, if_neg fun heq => h (Std.LawfulEqCmp.eq_of_compare heq)]

theorem getElem?_erase_other {path other : Text} (h : path ≠ other) : (files.erase path)[other]? = files[other]? := by
  rw [Std.ExtTreeMap.getElem?_erase, if_neg fun heq => h (Std.LawfulEqCmp.eq_of_compare heq)]

theorem getElem?_of_not_contains {path : Text} (h : ¬files.contains path = true) : files[path]? = none :=
  Std.ExtTreeMap.getElem?_eq_none fun hmem => h (Std.ExtTreeMap.contains_iff_mem.mpr hmem)

theorem applyOperation_ok (h : applyOperation K (files, log) operation = .ok (files', log'))
    (hclaims : (operationClaims operation).Nodup) :
    Performed files files' operation ∧ log' = log ++ [recordOf K files files' operation] ∧
      ∀ path ∉ operationClaims operation, files'[path]? = files[path]? := by
  cases operation with
  | createText path mediaType content =>
    simp only [applyOperation] at h
    split at h
    · cases h
    · next hnew =>
      cases h
      have hafter : (files.insert path (encode content))[path]? = some (encode content) :=
        Std.ExtTreeMap.getElem?_insert_self
      refine ⟨⟨getElem?_of_not_contains hnew, hafter⟩, ?_, fun other hother => ?_⟩
      · rw [recordOf, hafter, Option.map_some]
      · exact getElem?_insert_other fun heq => hother (heq ▸ List.mem_singleton_self path)
  | replaceText path expected mediaType content =>
    simp only [applyOperation] at h
    split at h
    · cases h
    · next before hbefore =>
      cases h
      have hafter : (files.insert path (encode content))[path]? = some (encode content) :=
        Std.ExtTreeMap.getElem?_insert_self
      refine ⟨⟨⟨before, hbefore⟩, hafter⟩, ?_, fun other hother => ?_⟩
      · rw [recordOf, hbefore, hafter, Option.map_some, Option.map_some]
      · exact getElem?_insert_other fun heq => hother (heq ▸ List.mem_singleton_self path)
  | rename source target expected =>
    have hne : source ≠ target := fun heq => (List.nodup_cons.mp hclaims).1 (heq ▸ List.mem_singleton_self target)
    simp only [applyOperation] at h
    split at h
    · cases h
    · next bytes hbefore =>
      split at h
      · cases h
      · next hnew =>
        cases h
        have hafter : ((files.erase source).insert target bytes)[target]? = some bytes :=
          Std.ExtTreeMap.getElem?_insert_self
        have hgone : ((files.erase source).insert target bytes)[source]? = none :=
          (getElem?_insert_other (Ne.symm hne)).trans Std.ExtTreeMap.getElem?_erase_self
        refine ⟨⟨bytes, hbefore, ?_, hgone, hafter⟩, ?_, fun other hother => ?_⟩
        · rw [← getElem?_erase_other hne]
          exact getElem?_of_not_contains hnew
        · rw [recordOf, hbefore, hafter, Option.map_some]
        · rw [operationClaims, List.mem_cons, List.mem_singleton, not_or] at hother
          rw [getElem?_insert_other (Ne.symm hother.2), getElem?_erase_other (Ne.symm hother.1)]
  | delete path expected =>
    simp only [applyOperation] at h
    split at h
    · cases h
    · next before hbefore =>
      cases h
      refine ⟨⟨⟨before, hbefore⟩, Std.ExtTreeMap.getElem?_erase_self⟩, ?_, fun other hother => ?_⟩
      · rw [recordOf, hbefore, Option.map_some]
      · exact getElem?_erase_other fun heq => hother (heq ▸ List.mem_singleton_self path)

end

/-! ## All of them -/

section
variable {K : Crates} {accepted files : Files} {log changes : List AppliedFileChange}
  {operations : List ChangeOperationV1}

/-- Operations with different claims, one after another: each does to the accepted site what it does alone. -/
theorem applyToClone_performed (h : operations.foldlM (applyOperation K) (accepted, log) = .ok (files, changes))
    (hclaims : ∀ operation ∈ operations, (operationClaims operation).Nodup)
    (hdisjoint : operations.Pairwise fun a b => List.Disjoint (operationClaims a) (operationClaims b)) :
    (∀ operation ∈ operations, Performed accepted files operation) ∧
      changes = log ++ operations.map (recordOf K accepted files) ∧
      ∀ path, (∀ operation ∈ operations, path ∉ operationClaims operation) → files[path]? = accepted[path]? := by
  induction operations generalizing accepted log with
  | nil =>
    cases h
    exact ⟨fun _ h => absurd h List.not_mem_nil, (List.append_nil _).symm, fun _ _ => rfl⟩
  | cons operation operations ih =>
    rw [List.foldlM_cons, bind_ok] at h
    obtain ⟨⟨next, log'⟩, happly, h⟩ := h
    rw [List.pairwise_cons] at hdisjoint
    obtain ⟨hperformed, rfl, hframe⟩ := applyOperation_ok happly (hclaims operation List.mem_cons_self)
    obtain ⟨hrest, hchanges, hkept⟩ := ih h (fun other hother => hclaims other (List.mem_cons_of_mem operation hother))
      hdisjoint.2
    -- what this operation has claimed stays, and what the others claim it has not touched
    have hstays : ∀ path ∈ operationClaims operation, files[path]? = next[path]? :=
      fun path hpath => hkept path fun other hother hclaimed => hdisjoint.1 other hother hpath hclaimed
    have hbefore : ∀ other ∈ operations, ∀ path ∈ operationClaims other, accepted[path]? = next[path]? :=
      fun other hother path hpath => (hframe path fun hclaimed => hdisjoint.1 other hother hclaimed hpath).symm
    refine ⟨fun other hother => ?_, ?_, fun path hpath => ?_⟩
    · rcases List.mem_cons.mp hother with rfl | hother
      · exact hperformed.congr (fun _ _ => rfl) hstays
      · exact (hrest other hother).congr (hbefore other hother) fun _ _ => rfl
    · have hfirst : recordOf K accepted next operation = recordOf K accepted files operation :=
        (recordOf_congr (fun _ _ => rfl) hstays).symm
      have hothers : operations.map (recordOf K next files) = operations.map (recordOf K accepted files) :=
        List.map_congr_left fun other hother => (recordOf_congr (hbefore other hother) fun _ _ => rfl).symm
      rw [hchanges, hfirst, hothers, List.append_assoc, List.map_cons]
      rfl
    · rw [hkept path fun other hother => hpath other (List.mem_cons_of_mem operation hother)]
      exact hframe path (hpath operation List.mem_cons_self)

/-- Performed operations leave the accepted site without the removed paths, with the written files. -/
theorem resultingFile_of_performed (hperformed : ∀ operation ∈ operations, Performed accepted files operation)
    (hkept : ∀ path, (∀ operation ∈ operations, path ∉ operationClaims operation) → files[path]? = accepted[path]?)
    (path : Text) : files[path]? = resultingFile operations accepted path := by
  unfold resultingFile
  cases hwritten : (operations.flatMap (writtenFiles accepted)).lookup path with
  | some bytes =>
    obtain ⟨before, after, heq, -⟩ := List.lookup_eq_some_iff.mp hwritten
    have hwrites : (path, bytes) ∈ operations.flatMap (writtenFiles accepted) := by
      rw [heq]
      exact List.mem_append_right before List.mem_cons_self
    obtain ⟨operation, hoperation, hmem⟩ := List.mem_flatMap.mp hwrites
    have h := hperformed operation hoperation
    cases operation with
    | createText name mediaType content =>
      obtain ⟨rfl, rfl⟩ := Prod.mk.inj (List.mem_singleton.mp hmem)
      exact h.2
    | replaceText name expected mediaType content =>
      obtain ⟨rfl, rfl⟩ := Prod.mk.inj (List.mem_singleton.mp hmem)
      exact h.2
    | rename source target expected =>
      obtain ⟨found, hbefore, -, -, hafter⟩ := h
      rw [writtenFiles, hbefore] at hmem
      obtain ⟨rfl, rfl⟩ := Prod.mk.inj (List.mem_singleton.mp hmem)
      exact hafter
    | delete name expected => exact absurd hmem List.not_mem_nil
  | none =>
    rw [Option.none_or]
    have hnone : ∀ operation ∈ operations, ∀ bytes, (path, bytes) ∉ writtenFiles accepted operation := by
      intro operation hoperation bytes hmem
      have hall := List.lookup_eq_none_iff.mp hwritten (path, bytes) (List.mem_flatMap.mpr ⟨operation, hoperation, hmem⟩)
      simp at hall
    split
    · next hremoved =>
      obtain ⟨operation, hoperation, hmem⟩ := List.mem_flatMap.mp hremoved
      have h := hperformed operation hoperation
      cases operation with
      | createText name mediaType content => exact absurd hmem List.not_mem_nil
      | replaceText name expected mediaType content => exact absurd hmem List.not_mem_nil
      | rename source target expected =>
        obtain rfl := List.mem_singleton.mp hmem
        obtain ⟨-, -, -, hgone, -⟩ := h
        exact hgone
      | delete name expected =>
        obtain rfl := List.mem_singleton.mp hmem
        exact h.2
    · next hremoved =>
      refine hkept path fun operation hoperation hclaimed => ?_
      have h := hperformed operation hoperation
      cases operation with
      | createText name mediaType content =>
        obtain rfl := List.mem_singleton.mp hclaimed
        exact hnone _ hoperation _ (List.mem_singleton_self _)
      | replaceText name expected mediaType content =>
        obtain rfl := List.mem_singleton.mp hclaimed
        exact hnone _ hoperation _ (List.mem_singleton_self _)
      | rename source target expected =>
        obtain ⟨bytes, hbefore, -⟩ := h
        rcases List.mem_cons.mp hclaimed with rfl | hclaimed
        · exact hremoved (List.mem_flatMap.mpr ⟨_, hoperation, List.mem_singleton_self path⟩)
        · obtain rfl := List.mem_singleton.mp hclaimed
          refine hnone _ hoperation bytes ?_
          rw [writtenFiles, hbefore]
          exact List.mem_singleton_self _
      | delete name expected =>
        obtain rfl := List.mem_singleton.mp hclaimed
        exact hremoved (List.mem_flatMap.mpr ⟨_, hoperation, List.mem_singleton_self path⟩)

end

/-! ## The conflict graph -/

section
variable {K : Crates} {accepted : Files} {operations : List ChangeOperationV1}

/-- Two claims of one folded path are of one operation. -/
theorem claimPaths_ok {owners : Std.ExtTreeMap Text ℕ compare} {claims : List (ℕ × Text)}
    (h : claimPaths K owners claims = .ok ()) :
    (∀ claim ∈ claims, ∀ owner, owners[foldedPath K claim.2]? = some owner → owner = claim.1) ∧
      claims.Pairwise fun a b => foldedPath K a.2 = foldedPath K b.2 → a.1 = b.1 := by
  induction claims generalizing owners with
  | nil => exact ⟨fun _ h => absurd h List.not_mem_nil, List.Pairwise.nil⟩
  | cons claim claims ih =>
    obtain ⟨index, path⟩ := claim
    simp only [claimPaths] at h
    split at h
    · cases h
    · next hfree =>
      have hhead : ∀ owner, owners[foldedPath K path]? = some owner → owner = index := by
        intro owner howner
        rw [howner] at hfree
        simpa using hfree
      obtain ⟨howners, hpairwise⟩ := ih h
      have hsame : ∀ claim ∈ claims, foldedPath K path = foldedPath K claim.2 → index = claim.1 := by
        intro claim hclaim heq
        refine howners claim hclaim index ?_
        rw [← heq]
        exact Std.ExtTreeMap.getElem?_insert_self
      refine ⟨fun claim hclaim owner howner => ?_, List.pairwise_cons.mpr ⟨hsame, hpairwise⟩⟩
      rcases List.mem_cons.mp hclaim with rfl | hclaim
      · exact hhead owner howner
      · by_cases heq : foldedPath K path = foldedPath K claim.2
        · rw [hhead owner (heq ▸ howner)]
          exact hsame claim hclaim heq
        · refine howners claim hclaim owner ?_
          rw [Std.ExtTreeMap.getElem?_insert, if_neg fun h => heq (Std.LawfulEqCmp.eq_of_compare h)]
          exact howner

theorem validateOperationGraph_disjoint (h : validateOperationGraph K operations = .ok ()) :
    operations.Pairwise fun a b => List.Disjoint (operationClaims a) (operationClaims b) := by
  simp only [validateOperationGraph] at h
  split at h
  · cases h
  · have hclaims := (List.pairwise_flatMap.mp (claimPaths_ok h).2).2
    have hindices : operations.zipIdx.Pairwise fun a b => a.2 ≠ b.2 := by
      rw [← List.pairwise_map (R := (· ≠ ·)), List.zipIdx_map_snd]
      exact List.nodup_range'
    rw [← List.zipIdx_map_fst 0 operations, List.pairwise_map]
    refine (hclaims.and hindices).imp fun {a b} hab path ha hb => hab.2 ?_
    exact hab.1 (a.2, path) (List.mem_map_of_mem ha) (b.2, path) (List.mem_map_of_mem hb) rfl

theorem requireUnclaimed_ok {path : Text} (h : requireUnclaimed K accepted path = .ok ()) :
    ∀ old ∈ accepted.keys, foldedPath K old ≠ foldedPath K path := by
  simp only [requireUnclaimed] at h
  split at h
  · cases h
  · next hfree =>
    intro old hold heq
    exact hfree (List.any_eq_true.mpr ⟨old, hold, beq_iff_eq.mpr heq⟩)

theorem requireFileHash_mem {path expected : Text} (h : requireFileHash K accepted path expected = .ok ()) :
    path ∈ accepted.keys := by
  simp only [requireFileHash] at h
  split at h
  · cases h
  · next bytes hbytes =>
    rw [Std.ExtTreeMap.mem_keys, Std.ExtTreeMap.mem_iff_isSome_getElem?, hbytes]
    rfl

/-- What an operation says is new is no accepted path, up to case. -/
theorem newPaths_unclaimed (h : validatePreconditions K operations accepted = .ok ()) :
    ∀ operation ∈ operations, ∀ path ∈ newPaths operation, ∀ old ∈ accepted.keys,
      foldedPath K old ≠ foldedPath K path := by
  intro operation hoperation path hpath
  have hcheck := forM_ok.mp h operation hoperation
  cases operation with
  | createText name mediaType content =>
    obtain rfl := List.mem_singleton.mp hpath
    exact requireUnclaimed_ok hcheck
  | replaceText name expected mediaType content => exact absurd hpath List.not_mem_nil
  | rename source target expected =>
    obtain rfl := List.mem_singleton.mp hpath
    exact requireUnclaimed_ok (check_ok.mp hcheck).2
  | delete name expected => exact absurd hpath List.not_mem_nil

theorem operationClaims_nodup (h : validatePreconditions K operations accepted = .ok ()) :
    ∀ operation ∈ operations, (operationClaims operation).Nodup := by
  intro operation hoperation
  cases operation with
  | createText name mediaType content => exact List.nodup_singleton name
  | replaceText name expected mediaType content => exact List.nodup_singleton name
  | rename source target expected =>
    have hcheck := check_ok.mp (forM_ok.mp h _ hoperation)
    refine List.nodup_cons.mpr ⟨fun hmem => ?_, List.nodup_singleton target⟩
    obtain rfl := List.mem_singleton.mp hmem
    exact requireUnclaimed_ok hcheck.2 source (requireFileHash_mem hcheck.1) rfl
  | delete name expected => exact List.nodup_singleton name

end

/-- A page and two style sheets. -/
def styledSite : Files :=
  (((∅ : Files).insert "index.html".toList (encode "Old".toList)).insert "a.css".toList (encode "i{}".toList)).insert
    "b.css".toList (encode "b{}".toList)

/-- One operation of each kind. -/
def styledGate : Gate where
  crates := sampleCrates
  parsers := sampleParsers
  fromJson _ := some {
    schema := changeSetSchema
    version := 1
    baseRevisionId := "rev_0".toList
    summary := "Styles".toList
    operations := [
      .rename "a.css".toList "c.css".toList (sampleCrates.sha256 (encode "i{}".toList)),
      .delete "b.css".toList (sampleCrates.sha256 (encode "b{}".toList)),
      .createText "d.css".toList "text/css".toList "p{}".toList,
      .replaceText "index.html".toList (sampleCrates.sha256 (encode "Old".toList)) "text/html".toList "New".toList] }

set_option maxRecDepth 100000 in
theorem styledGate_accepts : ∃ result, parseAndApplyChangeSet styledGate [] "rev_0".toList styledSite = .ok result := by
  have hrun : (parseAndApplyChangeSet styledGate [] "rev_0".toList styledSite).toOption.any
      (fun result => result.changes.length = 4) = true := by
    decide
  obtain ⟨result, haccept, -⟩ := exists_of_any hrun
  exact ⟨result, haccept⟩

end LpStudio.ChangeSet
