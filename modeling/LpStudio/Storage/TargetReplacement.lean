import LpStudio.Lib.Outcome
import LpStudio.Storage.Targets

/-! # Replacing a target is atomic
A failure at any step of the transaction leaves the section in one of a few forms. All of them are opened to the old
or to the new set of targets, except the one that the error path of the journal's write makes: the journal is there,
and the staging file it speaks of was removed.
-/
namespace LpStudio.Storage.TargetSection
open Str Fault Fault.Program

abbrev Targets := Std.ExtTreeMap Text Bytes compare

/-! ## Sections -/

/-- A full set of targets. -/
structure FullSet (T : Targets) : Prop where
  size : T.size = maxPersistedTargets
  ids : ∀ id ∈ T, validateIdentifier id "tgt_".toList = .ok ()
  sizes : ∀ (id : Text) (bytes : Bytes), T[id]? = some bytes → bytes.length ≤ maxTargetMetadataBytes

/-- Between transactions: the targets, and what earlier failures may have left beside them. -/
structure Resting (T : Targets) (s : TargetSection) : Prop where
  journal : s.journal = none
  targets : s.targets = T
  orphans : s.replacing.length + s.targetTemporaries.length ≤ maxProposalStagingEntries
  temporaries : stableProjectEntries + s.journalTemporaries.length ≤ 32
  nonces : ∀ nonce ∈ s.journalTemporaries, validateNonce nonce = .ok ()

def atRest (T : Targets) : TargetSection := ⟨none, [], T, [], []⟩

theorem resting_atRest (T : Targets) : Resting T (atRest T) :=
  ⟨rfl, rfl, Nat.zero_le _, by simp [atRest, stableProjectEntries], fun _ h => absurd h List.not_mem_nil⟩

theorem eq_atRest {T : Targets} {s : TargetSection} (hs : Resting T s) (hreplacing : s.replacing = [])
    (htemporaries : s.targetTemporaries = []) (hjournal : s.journalTemporaries = []) : s = atRest T := by
  obtain ⟨journal, journalTemporaries, targets, replacing, targetTemporaries⟩ := s
  obtain ⟨rfl, rfl, -, -, -⟩ := hs
  cases hreplacing
  cases htemporaries
  cases hjournal
  rfl

theorem validateTargetIds_ok {s : TargetSection} {maximum : ℕ} (hsize : s.targets.size ≤ maximum)
    (hids : ∀ id ∈ s.targets, validateIdentifier id "tgt_".toList = .ok ()) :
    s.validateTargetIds maximum = .ok () := by
  have hforM : s.targets.keys.forM (fun id => validateIdentifier id "tgt_".toList) = .ok ⟨⟩ :=
    Outcome.forM_ok.mpr fun id hid => hids id (Std.ExtTreeMap.mem_keys.mp hid)
  unfold validateTargetIds
  rw [hforM, boundedDirectoryEntries_ok.mpr hsize]
  rfl

/-! ## Recovery of a section at rest -/

theorem Resting.replacing {T : Targets} {s : TargetSection} (h : Resting T s)
    {replacing : List ((Text × Text) × Bytes)} (hlength : replacing.length ≤ s.replacing.length) :
    Resting T { s with replacing } :=
  ⟨h.journal, h.targets, (Nat.add_le_add_right hlength _).trans h.orphans, h.temporaries, h.nonces⟩

theorem Resting.targetTemporaries {T : Targets} {s : TargetSection} (h : Resting T s)
    {targetTemporaries : List (Text × Text)} (hlength : targetTemporaries.length ≤ s.targetTemporaries.length) :
    Resting T { s with targetTemporaries } :=
  ⟨h.journal, h.targets, (Nat.add_le_add_left hlength _).trans h.orphans, h.temporaries, h.nonces⟩

theorem Resting.journalTemporaries {T : Targets} {s : TargetSection} (h : Resting T s)
    {journalTemporaries : List Text} (hsub : journalTemporaries.Sublist s.journalTemporaries) :
    Resting T { s with journalTemporaries } :=
  ⟨h.journal, h.targets, h.orphans, (Nat.add_le_add_left hsub.length_le _).trans h.temporaries,
    fun nonce hn => h.nonces nonce (hsub.subset hn)⟩

section
variable {K : Crates} {T : Targets} {s : TargetSection}

theorem targetEntries_le (hT : FullSet T) (hs : Resting T s) :
    s.targetEntries ≤ maxPersistedTargets + maxProposalStagingEntries := by
  rw [targetEntries, hs.targets, hT.size, Nat.add_assoc]
  exact Nat.add_le_add_left hs.orphans _

/-- The steps of the clean-up of the directory `targets`. -/
def cleanupTargetsSteps (s : TargetSection) : List CleanupStep :=
  [CleanupStep.list] ++ ((s.replacing.map (·.1)).map CleanupStep.removeReplacing ++
    (s.targetTemporaries.map CleanupStep.removeTemporary ++ ([CleanupStep.validate] ++
      if (s.replacing.map (·.1)).isEmpty && s.targetTemporaries.isEmpty then [] else [CleanupStep.syncTargets])))

theorem cleanupTargets_runs {faults : CleanupStep → Fault.Outcome} (hT : FullSet T) (hs : Resting T s) :
    Runs cleanupOrphanTargetTemporaries faults s s.cleanupTargetsSteps
      (fun _ s' => Resting T s' ∧ s'.replacing = [] ∧ s'.targetTemporaries = [] ∧
        s'.journalTemporaries = s.journalTemporaries) (Resting T) := by
  unfold cleanupOrphanTargetTemporaries cleanupTargetsSteps
  refine Runs.bind (Runs.look hs (a := (s.replacing.map (·.1), s.targetTemporaries)) ?_ ?_)
  · rw [boundedDirectoryEntries_ok.mpr (targetEntries_le hT hs)]
    rfl
  refine Runs.bind ((Runs.removeAll
    (I := fun s' => Resting T s' ∧ (∀ file ∈ s'.replacing, file.1 ∈ s.replacing.map (·.1)) ∧
      s'.targetTemporaries = s.targetTemporaries ∧ s'.journalTemporaries = s.journalTemporaries)
    (G := fun name s' => ∀ file ∈ s'.replacing, file.1 ≠ name) ?_ ?_ ?_ _ ?_).mono ?_ fun _ h => h.1)
  · rintro name s' ⟨hs', hnames, hrest⟩
    refine ⟨hs'.replacing (List.filter_sublist.length_le), fun file hfile => ?_, hrest⟩
    exact hnames file (List.mem_of_mem_filter hfile)
  · intro name s' _ file hfile
    have := List.of_mem_filter hfile
    simpa using this
  · intro name other s' hgone file hfile
    exact hgone file (List.mem_of_mem_filter hfile)
  · exact ⟨hs, fun file hfile => List.mem_map_of_mem hfile, rfl, rfl⟩
  rintro - s' ⟨⟨hs', hnames, htemporaries, hjournal⟩, hgone⟩
  have hreplacing : s'.replacing = [] := by
    refine List.eq_nil_iff_forall_not_mem.mpr fun file hfile => ?_
    exact hgone file.1 (hnames file hfile) file hfile rfl
  refine Runs.bind ((Runs.removeAll
    (I := fun s'' => Resting T s'' ∧ s''.replacing = [] ∧
      (∀ name ∈ s''.targetTemporaries, name ∈ s.targetTemporaries) ∧ s''.journalTemporaries = s.journalTemporaries)
    (G := fun name s'' => name ∉ s''.targetTemporaries) ?_ ?_ ?_ _ ?_).mono ?_ fun _ h => h.1)
  · rintro name s'' ⟨hs'', hempty, hsub, hrest⟩
    refine ⟨hs''.targetTemporaries (List.filter_sublist.length_le), hempty, fun other hother => ?_, hrest⟩
    exact hsub other (List.mem_of_mem_filter hother)
  · intro name s'' _ hmem
    have := List.of_mem_filter hmem
    simp at this
  · intro name other s'' hgone hmem
    exact hgone (List.mem_of_mem_filter hmem)
  · exact ⟨hs', hreplacing, fun name hname => htemporaries ▸ hname, hjournal⟩
  rintro - s'' ⟨⟨hs'', hempty, hsub, hjournal'⟩, hgone'⟩
  have htemporaries' : s''.targetTemporaries = [] := by
    refine List.eq_nil_iff_forall_not_mem.mpr fun name hname => ?_
    exact hgone' name (hsub name hname) hname
  have hids : s''.validateTargetIds maxPersistedTargets = .ok () := by
    refine validateTargetIds_ok ?_ ?_
    · rw [hs''.targets, hT.size]
    · rw [hs''.targets]
      exact hT.ids
  refine Runs.bind (Runs.look hs'' hids ?_)
  split
  · exact Runs.pure ⟨hs'', hempty, htemporaries', hjournal'⟩
  · exact Runs.atomic hs'' hs'' ⟨hs'', hempty, htemporaries', hjournal'⟩

def cleanupJournalSteps (s : TargetSection) : List CleanupStep :=
  [CleanupStep.listProject] ++ (s.journalTemporaries.map CleanupStep.removeJournalTemporary ++
    if s.journalTemporaries.isEmpty then [] else [CleanupStep.syncProject])

theorem cleanupJournal_runs {faults : CleanupStep → Fault.Outcome} (hs : Resting T s)
    (hreplacing : s.replacing = []) (htemporaries : s.targetTemporaries = []) :
    Runs cleanupJournalTemporaries faults s s.cleanupJournalSteps (fun _ s' => s' = atRest T) (Resting T) := by
  unfold cleanupJournalTemporaries cleanupJournalSteps
  refine Runs.bind (Runs.look hs (a := s.journalTemporaries) ?_ ?_)
  · have hentries : s.projectEntries ≤ 32 := by
      simp only [projectEntries, hs.journal, Option.isSome_none, Bool.false_eq_true, ↓reduceIte, Nat.add_zero]
      exact hs.temporaries
    rw [boundedDirectoryEntries_ok.mpr hentries]
    have hnonces : s.journalTemporaries.forM validateNonce = .ok ⟨⟩ := Outcome.forM_ok.mpr hs.nonces
    change (do s.journalTemporaries.forM validateNonce; return s.journalTemporaries) = _
    rw [hnonces]
    rfl
  refine Runs.bind ((Runs.removeAll
    (I := fun s' => Resting T s' ∧ s'.replacing = [] ∧ s'.targetTemporaries = [] ∧
      ∀ nonce ∈ s'.journalTemporaries, nonce ∈ s.journalTemporaries)
    (G := fun nonce s' => nonce ∉ s'.journalTemporaries) ?_ ?_ ?_ _ ?_).mono ?_ fun _ h => h.1)
  · rintro nonce s' ⟨hs', hr, ht, hsub⟩
    refine ⟨hs'.journalTemporaries List.filter_sublist, hr, ht, fun other hother => ?_⟩
    exact hsub other (List.mem_of_mem_filter hother)
  · intro nonce s' _ hmem
    have := List.of_mem_filter hmem
    simp at this
  · intro nonce other s' hgone hmem
    exact hgone (List.mem_of_mem_filter hmem)
  · exact ⟨hs, hreplacing, htemporaries, fun nonce hnonce => hnonce⟩
  rintro - s' ⟨⟨hs', hr, ht, hsub⟩, hgone⟩
  have hjournal : s'.journalTemporaries = [] := by
    refine List.eq_nil_iff_forall_not_mem.mpr fun nonce hnonce => ?_
    exact hgone nonce (hsub nonce hnonce) hnonce
  split
  · exact Runs.pure (eq_atRest hs' hr ht hjournal)
  · exact Runs.atomic hs' hs' (eq_atRest hs' hr ht hjournal)

/-- The steps of the recovery of a section at rest. -/
def recoverSteps (s : TargetSection) : List RecoverStep :=
  [RecoverStep.stat] ++ (s.cleanupTargetsSteps.map RecoverStep.cleanup ++
    s.cleanupJournalSteps.map RecoverStep.cleanup)

theorem recover_resting {faults : RecoverStep → Fault.Outcome} {projectId : Text} (hT : FullSet T)
    (hs : Resting T s) :
    Runs (recoverTargetTransaction K projectId) faults s s.recoverSteps (fun _ s' => s' = atRest T)
      (Resting T) := by
  unfold recoverTargetTransaction recoverSteps
  refine Runs.bind (Runs.look hs (a := none) (by rw [hs.journal]) ?_)
  refine Runs.bind ((Runs.relabel (cleanupTargets_runs hT hs)).mono ?_ fun _ h => h)
  rintro - s' ⟨hs', hr, ht, hjournal⟩
  have hsteps : s.cleanupJournalSteps = s'.cleanupJournalSteps := by
    rw [cleanupJournalSteps, cleanupJournalSteps, hjournal]
  rw [hsteps]
  exact Runs.relabel (cleanupJournal_runs hs' hr ht)

/-! ## Recovery of a transaction -/

/-- What the request demands of the set, for the journal to be written. -/
structure Applicable (T : Targets) (r : ReplaceTarget) : Prop where
  valid : r.validate = .ok ()
  old : T[r.oldTargetId]? = some r.expectedOldBytes
  new : T[r.newTargetId]? = none

/-- The set after the request. -/
def replaced (T : Targets) (r : ReplaceTarget) : Targets :=
  (T.insert r.newTargetId r.newBytes).erase r.oldTargetId

/-- The section with the journal of the request. -/
def journaled (K : Crates) (r : ReplaceTarget) (S : Targets) (staged : Bool) : TargetSection where
  journal := some (r.journal K)
  journalTemporaries := []
  targets := S
  replacing := if staged then [((r.newTargetId, r.nonce), r.newBytes)] else []
  targetTemporaries := []

/-- The forms of a transaction in progress, from its journal to its end. -/
inductive InProgress (K : Crates) (T : Targets) (r : ReplaceTarget) : TargetSection → Prop where
  | staged : InProgress K T r (journaled K r T true)
  | published : InProgress K T r (journaled K r (T.insert r.newTargetId r.newBytes) false)
  | removed : InProgress K T r (journaled K r (replaced T r) false)

theorem getElem?_insert_text (S : Targets) (k a : Text) (v : Bytes) :
    (S.insert k v)[a]? = if k = a then some v else S[a]? := by
  rw [Std.ExtTreeMap.getElem?_insert]
  simp only [Std.LawfulEqCmp.compare_eq_iff_eq]

theorem getElem?_erase_text (S : Targets) (k a : Text) :
    (S.erase k)[a]? = if k = a then none else S[a]? := by
  rw [Std.ExtTreeMap.getElem?_erase]
  simp only [Std.LawfulEqCmp.compare_eq_iff_eq]

variable {r : ReplaceTarget}

/-- What an admissible request says of its fields. -/
theorem validate_ok (h : r.validate = .ok ()) :
    validateIdentifier r.projectId "prj_".toList = .ok () ∧ validateIdentifier r.oldTargetId "tgt_".toList = .ok () ∧
      validateIdentifier r.newTargetId "tgt_".toList = .ok () ∧ r.oldTargetId ≠ r.newTargetId ∧
      r.expectedOldBytes.length ≠ 0 ∧ r.expectedOldBytes.length ≤ maxTargetMetadataBytes ∧
      r.newBytes.length ≠ 0 ∧ r.newBytes.length ≤ maxTargetMetadataBytes := by
  simp only [ReplaceTarget.validate, Outcome.bind_ok] at h
  obtain ⟨⟨⟩, hproject, ⟨⟩, hold, ⟨⟩, hnew, h⟩ := h
  split at h
  · cases h
  rename_i hshape
  simp only [not_or, not_lt, List.isEmpty_iff] at hshape
  obtain ⟨hne, hempty, hlength, hempty', hlength'⟩ := hshape
  exact ⟨hproject, hold, hnew, hne, fun h => hempty (List.length_eq_zero_iff.mp h), hlength,
    fun h => hempty' (List.length_eq_zero_iff.mp h), hlength'⟩

theorem validateJournal_ok (hr : Applicable T r) : validateJournal (r.journal K) = .ok () := by
  obtain ⟨hproject, hold, hnew, hne, hempty, hlength, hempty', hlength'⟩ := validate_ok hr.valid
  have hshape : ¬ (r.oldTargetId = r.newTargetId ∨ r.expectedOldBytes.length = 0 ∨
      maxTargetMetadataBytes < r.expectedOldBytes.length ∨ r.newBytes.length = 0 ∨
      maxTargetMetadataBytes < r.newBytes.length) := by
    simp only [not_or, not_lt]
    exact ⟨hne, hempty, hlength, hempty', hlength'⟩
  unfold validateJournal
  rw [show (r.journal K).projectId = r.projectId from rfl, show (r.journal K).oldTargetId = r.oldTargetId from rfl,
    show (r.journal K).newTargetId = r.newTargetId from rfl, show (r.journal K).nonce = r.nonce from rfl,
    show (r.journal K).oldSha256 = K.sha256 r.expectedOldBytes from rfl,
    show (r.journal K).newSha256 = K.sha256 r.newBytes from rfl,
    show (r.journal K).oldByteLength = r.expectedOldBytes.length from rfl,
    show (r.journal K).newByteLength = r.newBytes.length from rfl,
    hproject, hold, hnew, r.nonce_valid, sha256_valid, sha256_valid, if_neg hshape]
  rfl

/-- A set of targets that a transaction may be in the middle of. -/
structure Halfway (T S : Targets) (r : ReplaceTarget) : Prop where
  size : S.size ≤ maxPersistedTargets + 1
  ids : ∀ id ∈ S, validateIdentifier id "tgt_".toList = .ok ()
  sizes : ∀ (id : Text) (bytes : Bytes), S[id]? = some bytes → bytes.length ≤ maxTargetMetadataBytes
  old : ∀ bytes, S[r.oldTargetId]? = some bytes → bytes = r.expectedOldBytes
  new : ∀ bytes, S[r.newTargetId]? = some bytes → bytes = r.newBytes

theorem halfway_staged (hT : FullSet T) (hr : Applicable T r) : Halfway T T r := by
  refine ⟨by rw [hT.size]; exact Nat.le_succ _, hT.ids, hT.sizes, fun bytes h => ?_, fun bytes h => ?_⟩
  · rw [hr.old] at h
    exact (Option.some.inj h).symm
  · rw [hr.new] at h
    cases h

theorem not_mem_of_getElem? {S : Targets} {id : Text} (h : S[id]? = none) : id ∉ S := by
  rw [← Std.ExtTreeMap.isSome_getElem?_iff_mem, h]
  exact Bool.false_ne_true

theorem mem_of_getElem? {S : Targets} {id : Text} {bytes : Bytes} (h : S[id]? = some bytes) : id ∈ S := by
  rw [← Std.ExtTreeMap.isSome_getElem?_iff_mem, h]
  rfl

theorem size_published (hT : FullSet T) (hr : Applicable T r) :
    (T.insert r.newTargetId r.newBytes).size = maxPersistedTargets + 1 := by
  have hnot : ¬ T.contains r.newTargetId = true := not_mem_of_getElem? hr.new
  rw [Std.ExtTreeMap.size_insert, if_neg hnot, hT.size]

theorem ids_published (hT : FullSet T) (hr : Applicable T r) :
    ∀ id ∈ T.insert r.newTargetId r.newBytes, validateIdentifier id "tgt_".toList = .ok () := by
  intro id hid
  rcases Std.ExtTreeMap.mem_insert.mp hid with heq | hid
  · rw [← Std.LawfulEqCmp.eq_of_compare heq]
    exact (validate_ok hr.valid).2.2.1
  · exact hT.ids id hid

theorem sizes_published (hT : FullSet T) (hr : Applicable T r) (id : Text) (bytes : Bytes)
    (h : (T.insert r.newTargetId r.newBytes)[id]? = some bytes) : bytes.length ≤ maxTargetMetadataBytes := by
  rw [getElem?_insert_text] at h
  split at h
  · cases h
    exact (validate_ok hr.valid).2.2.2.2.2.2.2
  · exact hT.sizes id bytes h

theorem halfway_published (hT : FullSet T) (hr : Applicable T r) :
    Halfway T (T.insert r.newTargetId r.newBytes) r := by
  have hne := (validate_ok hr.valid).2.2.2.1
  refine ⟨(size_published hT hr).le, ids_published hT hr, sizes_published hT hr, fun bytes h => ?_,
    fun bytes h => ?_⟩
  · rw [getElem?_insert_text, if_neg hne.symm, hr.old] at h
    exact (Option.some.inj h).symm
  · rw [getElem?_insert_text, if_pos rfl] at h
    exact (Option.some.inj h).symm

theorem fullSet_replaced (hT : FullSet T) (hr : Applicable T r) : FullSet (replaced T r) := by
  have hne := (validate_ok hr.valid).2.2.2.1
  have hold : (T.insert r.newTargetId r.newBytes)[r.oldTargetId]? = some r.expectedOldBytes := by
    rw [getElem?_insert_text, if_neg hne.symm, hr.old]
  refine ⟨?_, fun id hid => ?_, fun id bytes h => ?_⟩
  · have hmem : (T.insert r.newTargetId r.newBytes).contains r.oldTargetId = true := mem_of_getElem? hold
    rw [replaced, Std.ExtTreeMap.size_erase, if_pos hmem, size_published hT hr]
    rfl
  · exact ids_published hT hr id (Std.ExtTreeMap.mem_of_mem_erase hid)
  · rw [replaced, getElem?_erase_text] at h
    split at h
    · cases h
    · exact sizes_published hT hr id bytes h

theorem replaced_old : (replaced T r)[r.oldTargetId]? = none := by
  rw [replaced, getElem?_erase_text, if_pos rfl]

theorem replaced_new (hr : Applicable T r) : (replaced T r)[r.newTargetId]? = some r.newBytes := by
  rw [replaced, getElem?_erase_text, if_neg (validate_ok hr.valid).2.2.2.1, getElem?_insert_text, if_pos rfl]

theorem halfway_removed (hT : FullSet T) (hr : Applicable T r) : Halfway T (replaced T r) r := by
  have hfull := fullSet_replaced hT hr
  refine ⟨by rw [hfull.size]; exact Nat.le_succ _, hfull.ids, hfull.sizes, fun bytes h => ?_, fun bytes h => ?_⟩
  · rw [replaced_old] at h
    cases h
  · rw [replaced_new hr] at h
    exact (Option.some.inj h).symm

theorem inspect_ok {S : Targets} {staged : Bool} (hr : Applicable T r) (hS : Halfway T S r) :
    (journaled K r S staged).inspectTransaction K (r.journal K) =
      .ok (S[r.oldTargetId]?.isSome, S[r.newTargetId]?.isSome, staged) := by
  have hinventory : (journaled K r S staged).validateTransactionInventory (r.journal K) = .ok () := by
    have hentries : (journaled K r S staged).targetEntries ≤ maxPersistedTargets + 2 := by
      have := hS.size
      cases staged <;> simp [targetEntries, journaled] <;> omega
    have hids := validateTargetIds_ok (s := journaled K r S staged) hS.size hS.ids
    unfold validateTransactionInventory
    rw [boundedDirectoryEntries_ok.mpr hentries, hids]
    cases staged <;> simp [journaled, ReplaceTarget.journal] <;> rfl
  have hstaging : (journaled K r S staged).staging (r.journal K) = if staged then some r.newBytes else none := by
    cases staged <;> simp [staging, journaled, ReplaceTarget.journal]
  have hverify : ∀ bytes : Bytes, verifyFileDigestAndLength K bytes bytes.length (K.sha256 bytes) = .ok () :=
    fun bytes => if_pos ⟨rfl, rfl⟩
  simp only [inspectTransaction, validateJournal_ok hr, hinventory, hstaging]
  have holdEq : (journaled K r S staged).targets[(r.journal K).oldTargetId]? = S[r.oldTargetId]? := rfl
  have hnewEq : (journaled K r S staged).targets[(r.journal K).newTargetId]? = S[r.newTargetId]? := rfl
  rw [holdEq, hnewEq]
  have hold := hS.old
  have hnew := hS.new
  cases hcaseOld : S[r.oldTargetId]? with
  | none =>
    cases hcaseNew : S[r.newTargetId]? with
    | none => cases staged <;> simp [ReplaceTarget.journal, hverify] <;> rfl
    | some bytes =>
      obtain rfl := hnew bytes hcaseNew
      cases staged <;> simp [ReplaceTarget.journal, hverify] <;> rfl
  | some bytes =>
    obtain rfl := hold bytes hcaseOld
    cases hcaseNew : S[r.newTargetId]? with
    | none => cases staged <;> simp [ReplaceTarget.journal, hverify] <;> rfl
    | some bytes =>
      obtain rfl := hnew bytes hcaseNew
      cases staged <;> simp [ReplaceTarget.journal, hverify] <;> rfl

/-- A transaction in progress, or just ended. -/
def Settling (K : Crates) (T : Targets) (r : ReplaceTarget) (s : TargetSection) : Prop :=
  InProgress K T r s ∨ s = atRest (replaced T r)

theorem keys_ok {T : Targets} (hT : FullSet T) : (atRest T).enumerateTargetFiles = .ok T.keys := by
  have hentries : (atRest T).targetEntries ≤ maxPersistedTargets + 1 := by
    simp [targetEntries, atRest, hT.size]
  have hids : (atRest T).validateTargetIds maxPersistedTargets = .ok () := validateTargetIds_ok hT.size.le hT.ids
  unfold enumerateTargetFiles
  rw [boundedDirectoryEntries_ok.mpr hentries, hids]
  rfl

theorem count_ok {T : Targets} (hT : FullSet T) :
    (atRest T).countTargets = .ok () := by
  unfold countTargets
  rw [keys_ok hT]
  exact if_neg (not_not.mpr (Std.ExtTreeMap.length_keys.trans hT.size))

theorem published_staged : publishTarget (r.journal K) (journaled K r T true) =
    journaled K r (T.insert r.newTargetId r.newBytes) false := by
  simp [publishTarget, staging, journaled, ReplaceTarget.journal]

/-- What a transaction in progress has ahead of it once the old target is gone. -/
def removeJournal : Program CompleteStep TargetSection StorageError Unit := do
  .atomic .io .removeJournal fun s => { s with journal := none }
  .atomic .io .syncProject id
  Program.look .io .count countTargets

/-- What it has ahead of it once the new target is there. -/
def removeOld (journal : TargetReplaceJournal) : Program CompleteStep TargetSection StorageError Unit := do
  .atomic .io .removeOld fun s => { s with targets := s.targets.erase journal.oldTargetId }
  .atomic .io .syncRemoved id
  removeJournal

section
variable {faults : CompleteStep → Fault.Outcome}

def removeJournalSteps : List CompleteStep :=
  [CompleteStep.removeJournal] ++ ([CompleteStep.syncProject] ++ [CompleteStep.count])

def removeOldSteps : List CompleteStep :=
  [CompleteStep.removeOld] ++ ([CompleteStep.syncRemoved] ++ removeJournalSteps)

def completeSteps : List CompleteStep :=
  [CompleteStep.inspect] ++ ([CompleteStep.publish] ++ ([CompleteStep.syncPublished] ++ removeOldSteps))

theorem removeJournal_runs (hT : FullSet T) (hr : Applicable T r) :
    Runs removeJournal faults (journaled K r (replaced T r) false) removeJournalSteps
      (fun _ s' => s' = atRest (replaced T r)) (Settling K T r) := by
  unfold removeJournal
  refine Runs.bind (Runs.atomic (.inl .removed) (.inr rfl) ?_)
  refine Runs.bind (Runs.atomic (.inr rfl) (.inr rfl) ?_)
  exact Runs.look (.inr rfl) (count_ok (fullSet_replaced hT hr)) rfl

theorem removeOld_runs (hT : FullSet T) (hr : Applicable T r) :
    Runs (removeOld (r.journal K)) faults (journaled K r (T.insert r.newTargetId r.newBytes) false) removeOldSteps
      (fun _ s' => s' = atRest (replaced T r)) (Settling K T r) := by
  unfold removeOld
  refine Runs.bind (Runs.atomic (.inl .published) (.inl .removed) ?_)
  refine Runs.bind (Runs.atomic (.inl .removed) (.inl .removed) ?_)
  exact removeJournal_runs hT hr

theorem complete_staged (hT : FullSet T) (hr : Applicable T r) :
    Runs (completeTargetReplace K (r.journal K)) faults (journaled K r T true)
      completeSteps (fun _ s' => s' = atRest (replaced T r)) (Settling K T r) := by
  unfold completeTargetReplace completeSteps
  refine Runs.bind (Runs.look (.inl .staged) (inspect_ok hr (halfway_staged hT hr)) ?_)
  rw [hr.old, hr.new]
  refine Runs.bind (Runs.atomic (.inl .staged) (.inl (published_staged ▸ .published)) ?_)
  rw [published_staged]
  refine Runs.bind (Runs.atomic (.inl .published) (.inl .published) ?_)
  exact removeOld_runs hT hr

/-- A transaction in progress is completed. -/
theorem complete_runs (hT : FullSet T) (hr : Applicable T r) (hs : InProgress K T r s) :
    ∃ steps, Runs (completeTargetReplace K (r.journal K)) faults s steps
      (fun _ s' => s' = atRest (replaced T r)) (Settling K T r) := by
  have hne := (validate_ok hr.valid).2.2.2.1
  cases hs with
  | staged => exact ⟨_, complete_staged hT hr⟩
  | published =>
    refine ⟨[CompleteStep.inspect] ++ removeOldSteps, ?_⟩
    unfold completeTargetReplace
    refine Runs.bind (Runs.look (.inl .published) (inspect_ok hr (halfway_published hT hr)) ?_)
    rw [getElem?_insert_text, if_neg hne.symm, hr.old, getElem?_insert_text, if_pos rfl]
    exact removeOld_runs hT hr
  | removed =>
    refine ⟨[CompleteStep.inspect] ++ removeJournalSteps, ?_⟩
    unfold completeTargetReplace
    refine Runs.bind (Runs.look (.inl .removed) (inspect_ok hr (halfway_removed hT hr)) ?_)
    rw [replaced_old, replaced_new hr]
    exact removeJournal_runs hT hr
end

/-! ## Opening -/

theorem sizes_ok {S : Targets}
    (hsizes : ∀ (id : Text) (bytes : Bytes), S[id]? = some bytes → bytes.length ≤ maxTargetMetadataBytes) :
    (S.toList.any fun target => maxTargetMetadataBytes < target.2.length) = false := by
  rw [List.any_eq_false]
  rintro ⟨id, bytes⟩ hmem
  simpa using hsizes id bytes (Std.ExtTreeMap.mem_toList_iff_getElem?_eq_some.mp hmem)

theorem preflight_resting {projectId : Text} (hT : FullSet T) (hs : Resting T s) :
    preflight K projectId s = .ok () := by
  have hproject : s.projectEntries ≤ 32 := by
    simp only [projectEntries, hs.journal, Option.isSome_none, Bool.false_eq_true, ↓reduceIte, Nat.add_zero]
    exact hs.temporaries
  have hnonces : s.journalTemporaries.forM validateNonce = .ok ⟨⟩ := Outcome.forM_ok.mpr hs.nonces
  have hids : s.validateTargetIds maxPersistedTargets = .ok () := by
    refine validateTargetIds_ok ?_ ?_
    · rw [hs.targets, hT.size]
    · rw [hs.targets]
      exact hT.ids
  have hsizes : (s.targets.toList.any fun target => maxTargetMetadataBytes < target.2.length) = false := by
    rw [hs.targets]
    exact sizes_ok hT.sizes
  unfold preflight
  rw [boundedDirectoryEntries_ok.mpr hproject, hnonces, boundedDirectoryEntries_ok.mpr (targetEntries_le hT hs), hs.journal, hsizes]
  simp only [Option.isSome_none, Bool.false_eq_true, ↓reduceIte]
  rw [hids]
  rfl

theorem preflight_journaled {S : Targets} {staged : Bool} (hS : Halfway T S r) :
    preflight K r.projectId (journaled K r S staged) =
      (journaled K r S staged).preflightTransaction K (r.journal K) := by
  have hproject : (journaled K r S staged).projectEntries ≤ 32 := by
    simp [projectEntries, journaled, stableProjectEntries]
  have hentries : (journaled K r S staged).targetEntries ≤ maxPersistedTargets + maxProposalStagingEntries := by
    have := hS.size
    cases staged <;> simp [targetEntries, journaled, maxProposalStagingEntries] <;> omega
  have hids : (journaled K r S staged).validateTargetIds (maxPersistedTargets + 1) = .ok () :=
    validateTargetIds_ok hS.size hS.ids
  unfold preflight
  rw [boundedDirectoryEntries_ok.mpr hproject, boundedDirectoryEntries_ok.mpr hentries,
    show (journaled K r S staged).journal = some (r.journal K) from rfl]
  simp only [Option.isSome_some, ↓reduceIte]
  rw [hids, show (journaled K r S staged).targets = S from rfl, sizes_ok hS.sizes]
  simp [journaled, ReplaceTarget.journal]
  rfl

theorem preflight_inProgress (hT : FullSet T) (hr : Applicable T r) (hs : InProgress K T r s) :
    preflight K r.projectId s = .ok () := by
  have hne := (validate_ok hr.valid).2.2.2.1
  cases hs with
  | staged =>
    rw [preflight_journaled (halfway_staged hT hr)]
    unfold preflightTransaction
    rw [inspect_ok hr (halfway_staged hT hr), hr.old, hr.new]
    simp [journaled, hT.size]
    rfl
  | published =>
    rw [preflight_journaled (halfway_published hT hr)]
    unfold preflightTransaction
    rw [inspect_ok hr (halfway_published hT hr), getElem?_insert_text, if_neg hne.symm, hr.old,
      getElem?_insert_text, if_pos rfl]
    simp [journaled, size_published hT hr]
    rfl
  | removed =>
    rw [preflight_journaled (halfway_removed hT hr)]
    unfold preflightTransaction
    rw [inspect_ok hr (halfway_removed hT hr), replaced_old, replaced_new hr]
    simp [journaled, (fullSet_replaced hT hr).size]
    rfl

/-- Without its staging file, a transaction that has not published the new target is refused. -/
theorem preflight_lost (hT : FullSet T) (hr : Applicable T r) :
    preflight K r.projectId (journaled K r T false) = .error .corrupt := by
  rw [preflight_journaled (halfway_staged hT hr)]
  unfold preflightTransaction
  rw [inspect_ok hr (halfway_staged hT hr), hr.old, hr.new]
  rfl

theorem load_ok {T : Targets} (hT : FullSet T) : (atRest T).loadTargetBytes = .ok T.toList := by
  unfold loadTargetBytes
  rw [keys_ok hT, show (atRest T).targets = T from rfl, sizes_ok hT.sizes]
  rfl

/-- The end of an open, from a project that was recovered. -/
theorem opens_of_recovered {projectId : Text} (hT : FullSet T) (hpre : preflight K projectId s = .ok ())
    {steps : List RecoverStep}
    (hrecover : Runs (recoverTargetTransaction K projectId) (smooth ∘ OpenStep.recover) s steps
      (fun _ s' => s' = atRest T) fun _ => True) :
    openTargets K projectId smooth s = (.value T.toList, atRest T) := by
  have hruns : Runs (openTargets K projectId) smooth s ([OpenStep.preflight] ++ (steps.map OpenStep.recover ++
      ((recoverSteps (atRest T)).map OpenStep.validate ++ ([OpenStep.load] ++ [OpenStep.load]))))
      (fun targets s' => targets = T.toList ∧ s' = atRest T) fun _ => True := by
    unfold openTargets
    refine Runs.bind (Runs.look trivial hpre ?_)
    refine Runs.bind ((Runs.relabel hrecover).mono ?_ fun _ h => h)
    rintro - s' rfl
    refine Runs.bind ((Runs.relabel (recover_resting hT (resting_atRest T))).mono ?_ fun _ _ => trivial)
    rintro - s' rfl
    refine Runs.bind (Runs.look trivial (a := ()) rfl ?_)
    exact Runs.look trivial (load_ok hT) ⟨rfl, rfl⟩
  obtain ⟨targets, s', heq, rfl, rfl⟩ := Runs.smooth hruns
  exact heq

theorem opens_resting {projectId : Text} (hT : FullSet T) (hs : Resting T s) :
    openTargets K projectId smooth s = (.value T.toList, atRest T) :=
  opens_of_recovered hT (preflight_resting hT hs) ((recover_resting hT hs).mono (fun _ _ h => h) fun _ _ => trivial)

theorem opens_settling (hT : FullSet T) (hr : Applicable T r) (hs : Settling K T r s) :
    openTargets K r.projectId smooth s = (.value (replaced T r).toList, atRest (replaced T r)) := by
  have hfull := fullSet_replaced hT hr
  rcases hs with hs | rfl
  · obtain ⟨steps, hcomplete⟩ : ∃ steps, Runs (completeTargetReplace K (r.journal K)) (smooth ∘ RecoverStep.complete) s
        steps (fun _ s' => s' = atRest (replaced T r)) (Settling K T r) := complete_runs hT hr hs
    have hjournal : s.journal = some (r.journal K) := by
      cases hs <;> rfl
    suffices h : Runs (recoverTargetTransaction K r.projectId) (smooth ∘ OpenStep.recover) s
        ([RecoverStep.stat] ++ steps.map RecoverStep.complete) (fun _ s' => s' = atRest (replaced T r)) fun _ => True by
      exact opens_of_recovered hfull (preflight_inProgress hT hr hs) h
    unfold recoverTargetTransaction
    refine Runs.bind (Runs.look trivial (a := some (r.journal K)) (by rw [hjournal]) ?_)
    have hproject : ¬ (r.journal K).projectId ≠ r.projectId := not_not.mpr rfl
    dsimp only
    rw [if_neg hproject]
    exact (Runs.relabel hcomplete).mono (fun _ _ h => h) fun _ _ => trivial
  · exact opens_resting hfull (resting_atRest _)

theorem opens_lost (hT : FullSet T) (hr : Applicable T r) :
    openTargets K r.projectId smooth (journaled K r T false) = (.error .corrupt, journaled K r T false) := by
  change Program.bind _ _ _ _ = _
  unfold Program.bind Program.look
  rw [preflight_lost hT hr]
  rfl

/-! ## Replacing a target -/

/-- With the staging file of the request, before its journal. -/
def prepared (T : Targets) (r : ReplaceTarget) : TargetSection where
  journal := none
  journalTemporaries := []
  targets := T
  replacing := [((r.newTargetId, r.nonce), r.newBytes)]
  targetTemporaries := []

theorem resting_stage {bytes : Bytes} {n : Option ℕ} :
    Resting T (stage (r.newTargetId, r.nonce) bytes n (atRest T)) := by
  have hone : ∀ file : (Text × Text) × Bytes, Resting T { atRest T with replacing := [file] } := fun file =>
    ⟨rfl, rfl, by simp [atRest, maxProposalStagingEntries], by simp [atRest, stableProjectEntries],
      fun _ h => absurd h List.not_mem_nil⟩
  unfold stage
  split
  · exact resting_atRest T
  · exact hone _
  · exact hone _

/-- The steps of a request up to its staging file. -/
def prepareSteps (s : TargetSection) : List ReplaceStep :=
  [ReplaceStep.validate] ++ (s.recoverSteps.map ReplaceStep.recover ++ ([ReplaceStep.read] ++
    ([ReplaceStep.writeStaging] ++ ([ReplaceStep.fsyncStaging] ++ [ReplaceStep.syncStaging]))))

variable {faults : ReplaceStep → Fault.Outcome}

theorem prepare_runs (hT : FullSet T) (hs : Resting T s) (hr : Applicable T r) :
    Runs (prepareReplacement K r) faults s s.prepareSteps (fun _ s' => s' = prepared T r) (Resting T) := by
  unfold prepareReplacement prepareSteps
  refine Runs.bind (Runs.look hs hr.valid ?_)
  refine Runs.bind ((Runs.relabel (recover_resting hT hs)).mono ?_ fun _ h => h)
  rintro - s' rfl
  refine Runs.bind (Runs.look (a := ()) (resting_atRest T) ?_ ?_)
  · have hold : r.oldTargetId ∈ T.keys := Std.ExtTreeMap.mem_keys.mpr (mem_of_getElem? hr.old)
    have hnew : r.newTargetId ∉ T.keys := fun h => not_mem_of_getElem? hr.new (Std.ExtTreeMap.mem_keys.mp h)
    have hlength : T.keys.length = maxPersistedTargets := Std.ExtTreeMap.length_keys.trans hT.size
    rw [keys_ok hT]
    change (do
      if T.keys.length ≠ maxPersistedTargets ∨ r.oldTargetId ∉ T.keys ∨ r.newTargetId ∈ T.keys then
        Except.error StorageError.corrupt
      if T[r.oldTargetId]? ≠ some r.expectedOldBytes then Except.error .corrupt : Except StorageError Unit) = _
    rw [if_neg (by simp [hold, hnew, hlength]), if_neg (not_not.mpr hr.old)]
    rfl
  refine Runs.bind (Runs.gradual (fun n => resting_stage) ?_)
  have hprepared : Resting T (prepared T r) := resting_stage (n := none)
  refine Runs.bind (Runs.atomic hprepared hprepared ?_)
  exact Runs.atomic hprepared hprepared rfl

/-- A request that does not fit the set changes nothing. -/
theorem prepare_inapplicable (hT : FullSet T) (hs : Resting T s) (hr : ¬ Applicable T r) :
    Ends (prepareReplacement K r) faults s (fun _ _ => False) (fun _ s' => Resting T s') (Resting T) := by
  unfold prepareReplacement
  refine Ends.bind (Ends.look (fun _ hvalid _ => ?_) (fun _ _ => hs) (fun _ _ => hs) fun _ _ => hs)
  refine Ends.bind (Ends.mono (Runs.relabel (recover_resting hT hs)) ?_ (fun _ _ h => h.1) fun _ h => h.1)
  rintro - s' ⟨rfl, -⟩
  refine Ends.bind (Ends.look (fun _ hread _ => ?_) (fun _ _ => resting_atRest T) (fun _ _ => resting_atRest T)
    fun _ _ => resting_atRest T)
  rw [keys_ok hT] at hread
  simp only [Outcome.bind_ok, Except.ok.injEq, exists_eq_left'] at hread
  split at hread
  · cases hread
  rename_i hkeys
  split at hread
  · cases hread
  rename_i hold
  simp only [not_or, not_not] at hkeys hold
  refine absurd ⟨hvalid, hold, ?_⟩ hr
  exact Std.ExtTreeMap.getElem?_eq_none fun hmem => hkeys.2.2 (Std.ExtTreeMap.mem_keys.mpr hmem)

/-- The removal of the staging file did not take effect. -/
def Kept (faults : ReplaceStep → Fault.Outcome) : Prop :=
  faults .discardStaging = .failed 0 ∨ faults .discardStaging = .stopped 0

theorem discardStaging_ends {Y N : TargetSection → Prop} (hkept : Kept faults → Y s)
    (hremoved : ¬ Kept faults →
      N { s with replacing := s.replacing.filter (·.1 != (r.newTargetId, r.nonce)) }) :
    Ends (discardStaging r) faults s (fun _ s' => (Kept faults → Y s') ∧ (¬ Kept faults → N s')) (fun _ _ => False)
      (fun s' => (Kept faults → Y s') ∧ (¬ Kept faults → N s')) := by
  have hsync : ∀ s', (Kept faults → Y s') ∧ (¬ Kept faults → N s') →
      Ends (Program.atomic StorageError.io ReplaceStep.syncDiscarded id).ignore faults s'
        (fun _ s' => (Kept faults → Y s') ∧ (¬ Kept faults → N s')) (fun _ _ => False)
        (fun s' => (Kept faults → Y s') ∧ (¬ Kept faults → N s')) :=
    fun s' h => Ends.ignore (Ends.atomic (fun _ => h) (fun _ => h) (fun _ _ => h) (fun _ => h) fun _ _ => h)
  have hsame : ∀ {o}, faults .discardStaging = o → o = .failed 0 ∨ o = .stopped 0 →
      (Kept faults → Y s) ∧ (¬ Kept faults → N s) :=
    fun ho h => ⟨hkept, fun hnot => absurd (by rw [Kept, ho]; exact h) hnot⟩
  have hgone : ∀ {o}, faults .discardStaging = o → ¬ (o = .failed 0 ∨ o = .stopped 0) → ¬ Kept faults :=
    fun ho h hkept => h (by rwa [Kept, ho] at hkept)
  unfold discardStaging
  refine Ends.bind (Ends.ignore (Ends.atomic (fun hf => ?_) (fun hf => ?_) (fun n hf => ?_) (fun hf => ?_)
    fun n hf => ?_))
  · have := hgone hf (by simp)
    exact hsync _ ⟨fun h => absurd h this, hremoved⟩
  · exact hsync _ (hsame hf (.inl rfl))
  · have := hgone hf (by simp)
    exact hsync _ ⟨fun h => absurd h this, hremoved⟩
  · exact hsame hf (.inr rfl)
  · have := hgone hf (by simp)
    exact ⟨fun h => absurd h this, hremoved⟩

/-- The journal took effect, its write reported an error, and the error path removed the staging file. -/
structure JournalLost (T : Targets) (r : ReplaceTarget) (s : TargetSection) (faults : ReplaceStep → Fault.Outcome) :
    Prop where
  applicable : Applicable T r
  prepared : ∀ step ∈ s.prepareSteps, faults step = .done
  misreported : Misreported (faults ∘ .journal)
  removed : ¬ Kept faults

/-- The sections that a request leaves. -/
def Left (K : Crates) (T : Targets) (r : ReplaceTarget) (lost : Prop) (s : TargetSection) : Prop :=
  (lost → s = journaled K r T false) ∧ (¬ lost → Resting T s ∨ Applicable T r ∧ Settling K T r s)

/-- The journal's write leaves the transaction staged or the section at rest. -/
theorem writeJournal_ends {faults : WriteStep → Fault.Outcome} (hT : Resting T (prepared T r)) :
    Ends (writeImmutable (journalPlace r.journalNonce) (r.journal K)) faults (prepared T r)
      (fun _ s => ¬ Misreported faults ∧ s = journaled K r T true)
      (fun _ s => Misreported faults ∧ s = journaled K r T true ∨ ¬ Misreported faults ∧ Resting T s)
      (fun s => ¬ Misreported faults ∧ (s = journaled K r T true ∨ Resting T s)) := by
  refine writeImmutable_ends hT (fun s hs => hs.journal) (fun n => ?_) (fun s hs => ?_) ?_ ?_
  · change Resting T (if n = some 0 then prepared T r else _)
    split
    · exact hT
    · refine ⟨rfl, rfl, hT.orphans, by simp [prepared, stableProjectEntries], fun nonce hn => ?_⟩
      rw [List.mem_singleton.mp hn]
      exact r.journalNonce_valid
  · exact hs.journalTemporaries List.filter_sublist
  · simp [journalPlace, prepared, journaled]
  · rintro s rfl
    rfl

theorem journaled_discarded : { journaled K r T true with
    replacing := (journaled K r T true).replacing.filter (·.1 != (r.newTargetId, r.nonce)) } =
      journaled K r T false := by
  simp [journaled]

theorem replaceTarget_left (hT : FullSet T) (hs : Resting T s) :
    Left K T r (JournalLost T r s faults) (replaceTarget K r faults s).2 := by
  suffices h : Ends (replaceTarget K r) faults s (fun _ s' => Left K T r (JournalLost T r s faults) s')
      (fun _ s' => Left K T r (JournalLost T r s faults) s') (fun s' => Left K T r (JournalLost T r s faults) s') by
    unfold Ends at h
    split at h <;> next heq => rw [heq]; exact h
  have hresting : ∀ {s'}, ¬ JournalLost T r s faults → Resting T s' → Left K T r (JournalLost T r s faults) s' :=
    fun hnot hs' => ⟨fun h => absurd h hnot, fun _ => .inl hs'⟩
  have hsettling : ∀ {s'}, ¬ JournalLost T r s faults → Applicable T r → Settling K T r s' →
      Left K T r (JournalLost T r s faults) s' :=
    fun hnot hr hs' => ⟨fun h => absurd h hnot, fun _ => .inr ⟨hr, hs'⟩⟩
  unfold replaceTarget
  by_cases hr : Applicable T r
  · refine Ends.bind (Ends.mono (prepare_runs hT hs hr) ?_ ?_ ?_)
    rotate_left
    · rintro _ s' ⟨hs', step, hmem, hf⟩
      exact hresting (fun h => hf (h.prepared step hmem)) hs'
    · rintro s' ⟨hs', step, hmem, hf⟩
      exact hresting (fun h => hf (h.prepared step hmem)) hs'
    rintro - s' ⟨rfl, hdone⟩
    have hprepared : Resting T (prepared T r) := resting_stage (n := none)
    refine Ends.bind (Ends.rescue (Ends.mono (Ends.relabel (writeJournal_ends hprepared)) ?_ ?_ ?_))
    · rintro - s' ⟨hnot, rfl⟩
      have hlost : ¬ JournalLost T r s faults := fun h => hnot h.misreported
      refine Ends.mono (Runs.relabel (complete_staged hT hr)) ?_ ?_ ?_
      · rintro - s' ⟨rfl, -⟩
        exact hsettling hlost hr (.inr rfl)
      · rintro - s' ⟨hs', -⟩
        exact hsettling hlost hr hs'
      · rintro s' ⟨hs', -⟩
        exact hsettling hlost hr hs'
    · rintro e s' (⟨hmis, rfl⟩ | ⟨hnot, hs'⟩)
      · have hfinal : ∀ s', (Kept faults → s' = journaled K r T true) ∧ (¬ Kept faults → s' = journaled K r T false) →
            Left K T r (JournalLost T r s faults) s' := by
          rintro s' ⟨hkept, hremoved⟩
          refine ⟨fun h => hremoved h.removed, fun h => ?_⟩
          by_cases hk : Kept faults
          · exact .inr ⟨hr, .inl (hkept hk ▸ .staged)⟩
          · exact absurd ⟨hr, hdone, hmis, hk⟩ h
        refine Ends.bind ((discardStaging_ends (Y := (· = journaled K r T true)) (N := (· = journaled K r T false))
          (fun _ => rfl) fun _ => journaled_discarded).mono ?_ (fun _ _ h => h.elim) hfinal)
        exact fun _ s' h => Ends.throw (hfinal s' h)
      · have hlost : ¬ JournalLost T r s faults := fun h => hnot h.misreported
        have hfinal : ∀ s', (Kept faults → Resting T s') ∧ (¬ Kept faults → Resting T s') →
            Left K T r (JournalLost T r s faults) s' :=
          fun s' h => hresting hlost ((em (Kept faults)).elim h.1 h.2)
        refine Ends.bind ((discardStaging_ends (fun _ => hs')
          fun _ => hs'.replacing List.filter_sublist.length_le).mono ?_ (fun _ _ h => h.elim) hfinal)
        exact fun _ s' h => Ends.throw (hfinal s' h)
    · rintro s' ⟨hnot, hs'⟩
      have hlost : ¬ JournalLost T r s faults := fun h => hnot h.misreported
      rcases hs' with rfl | hs'
      · exact hsettling hlost hr (.inl .staged)
      · exact hresting hlost hs'
  · have hnot : ¬ JournalLost T r s faults := fun h => hr h.applicable
    exact Ends.bind ((prepare_inapplicable hT hs hr).mono (fun _ _ h => h.elim) (fun _ _ => hresting hnot)
      fun _ => hresting hnot)

/-- After a request, whatever fails in it, the next open yields the old set or the new one, with nothing left of the
transaction, unless its journal was lost. -/
theorem replaceTarget_atomic_iff (K : Crates) (T : Targets) (r : ReplaceTarget) (s : TargetSection)
    (faults : ReplaceStep → Fault.Outcome) (hT : FullSet T) (hs : Resting T s) :
    (∃ T' ∈ [T, replaced T r], openTargets K r.projectId smooth (replaceTarget K r faults s).2 =
      (.value T'.toList, atRest T')) ↔ ¬ JournalLost T r s faults := by
  have hleft : Left K T r (JournalLost T r s faults) (replaceTarget K r faults s).2 := replaceTarget_left hT hs
  obtain ⟨hlost, hkept⟩ := hleft
  refine ⟨fun ⟨T', _, hopen⟩ h => ?_, fun h => ?_⟩
  · rw [hlost h, opens_lost hT h.applicable] at hopen
    cases hopen
  · rcases hkept h with hresting | ⟨hr, hsettling⟩
    · exact ⟨T, by simp, opens_resting hT hresting⟩
    · exact ⟨replaced T r, by simp, opens_settling hT hr hsettling⟩

end

/-! ## A full set -/

def sampleId (n : ℕ) : Text :=
  "tgt_".toList ++ (List.replicate 30 '0' ++ [hexDigit (n / 16), hexDigit (n % 16)])

def sampleTargets : Targets :=
  Std.ExtTreeMap.ofList ((List.range maxPersistedTargets).map fun n => (sampleId n, ([1] : Bytes))) compare

def sampleRequest : ReplaceTarget where
  projectId := "prj_".toList ++ List.replicate 32 '0'
  oldTargetId := sampleId 0
  expectedOldBytes := [1]
  newTargetId := sampleId 32
  newBytes := [2]
  nonce := List.replicate 32 '0'
  journalNonce := List.replicate 32 '0'
  nonce_valid := by decide
  journalNonce_valid := by decide

theorem sampleTargets_valid : ∀ target ∈ sampleTargets.toList,
    validateIdentifier target.1 "tgt_".toList = .ok () ∧ target.2.length ≤ maxTargetMetadataBytes := by
  decide

theorem fullSet_sample : FullSet sampleTargets := by
  refine ⟨by decide, fun id hid => ?_, fun id bytes h => ?_⟩
  · have h := Std.ExtTreeMap.getElem?_eq_some_getElem hid
    exact (sampleTargets_valid _ (Std.ExtTreeMap.mem_toList_iff_getElem?_eq_some.mpr h)).1
  · exact (sampleTargets_valid _ (Std.ExtTreeMap.mem_toList_iff_getElem?_eq_some.mpr h)).2

theorem applicable_sample : Applicable sampleTargets sampleRequest := by
  refine ⟨?_, ?_, ?_⟩ <;> decide

/-- Only the rename of the journal reports an error, with progress or without. -/
def renameReports (progress : ℕ) : ReplaceStep → Fault.Outcome
  | .journal .rename => .failed progress
  | _ => .done

/-- The rename of the journal takes effect and reports an error. -/
theorem replaceTarget_not_atomic :
    ¬ ∀ (K : Crates) (T : Targets) (r : ReplaceTarget) (s : TargetSection) (faults : ReplaceStep → Fault.Outcome),
      FullSet T → Resting T s →
        ∃ T' ∈ [T, replaced T r], openTargets K r.projectId smooth (replaceTarget K r faults s).2 =
          (.value T'.toList, atRest T') := by
  intro h
  obtain ⟨T', -, hopen⟩ := h sampleCrates sampleTargets sampleRequest (atRest sampleTargets) (renameReports 1)
    fullSet_sample (resting_atRest _)
  have hlost : JournalLost sampleTargets sampleRequest (atRest sampleTargets) (renameReports 1) := by
    refine ⟨applicable_sample, by decide, ⟨by decide, .inl ⟨⟨0, rfl⟩, fun n => ?_⟩⟩, ?_⟩
    · exact Fault.Outcome.noConfusion
    · simp [Kept, renameReports]
  rw [(replaceTarget_left fullSet_sample (resting_atRest _)).1 hlost, opens_lost fullSet_sample applicable_sample]
    at hopen
  cases hopen

theorem replaceTarget_atomic_iff_unpublished :
    ∃ T' ∈ [sampleTargets, replaced sampleTargets sampleRequest],
      openTargets sampleCrates sampleRequest.projectId smooth
        (replaceTarget sampleCrates sampleRequest (renameReports 0) (atRest sampleTargets)).2 =
          (.value T'.toList, atRest T') := by
  refine (replaceTarget_atomic_iff sampleCrates sampleTargets sampleRequest _ (renameReports 0) fullSet_sample
    (resting_atRest _)).mpr fun h => ?_
  have hmis := h.misreported.2
  simp [renameReports] at hmis

end LpStudio.Storage.TargetSection
