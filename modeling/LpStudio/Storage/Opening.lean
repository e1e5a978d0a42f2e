import LpStudio.Storage.Recovery

/-! # An open of a sound root
It finishes the pending deletions, loads every published project and leaves nothing in staging.
-/
namespace LpStudio.Storage.Root
open Str Fault Fault.Program

/-! ## Loading -/

section
variable {K : Crates} {rm : Remover} {s t : Root}

theorem modify_creating {projects : Std.ExtTreeMap Text ProjectTree compare} {id : Text} {tree : ProjectTree}
    (htree : projects[id]? = some tree) (hcreating : tree.creating = false) :
    projects.modify id (fun tree => { tree with creating := false }) = projects := by
  refine Std.ExtTreeMap.ext_getElem? fun {other} => ?_
  rw [Std.ExtTreeMap.getElem?_modify]
  split
  · rename_i heq
    obtain rfl := Std.LawfulEqCmp.eq_of_compare heq
    rw [htree, Option.map_some, ← hcreating]
  · rfl

theorem loadEach_yields {ids : List Text} (hs : Sound K s) {projects : List PersistedProject}
    (hread : ids.mapM (readProjectOf K s) = .ok projects) :
    Yields (loadEach K rm ids) s fun loaded t => loaded = projects ∧ Trims K s t ∧ ∀ id ∈ ids, Settled t id := by
  induction ids generalizing s projects with
  | nil =>
    cases hread
    exact Yields.pure ⟨rfl, Std.Refl.refl s, fun id hid => absurd hid List.not_mem_nil⟩
  | cons id ids ih =>
    rw [List.mapM_cons] at hread
    obtain ⟨project, hproject, hread⟩ := Outcome.bind_ok.mp hread
    obtain ⟨projects, hprojects, hread⟩ := Outcome.bind_ok.mp hread
    cases hread
    obtain ⟨tree, htree, -⟩ := Outcome.bind_ok.mp hproject
    have htree := present_ok.mp htree
    obtain ⟨-, ⟨⟨pointer, files⟩, hvalid⟩, -⟩ := hs.projects id tree htree
    obtain ⟨revisions, manifest, hfound⟩ := validateProject_ok.mp hvalid
    obtain ⟨⟨⟩, hstable, -⟩ := Outcome.bind_ok.mp hfound.stable
    have hcreating := (ensure_ok.mp hstable).1
    unfold loadEach
    refine Yields.bind (Yields.look (present_ok.mpr htree) ?_)
    rw [hfound.current, if_neg (by simp), if_neg (by simp)]
    refine Yields.bind (Yields.atomic ?_)
    rw [modify_creating htree hcreating]
    refine Yields.bind (Yields.relabel ((loadProject_yields hs hproject).mono fun loaded t ht => ?_))
    obtain ⟨rfl, htrims, hsettled⟩ := ht
    have hrest : ids.mapM (readProjectOf K t) = .ok projects :=
      Outcome.mapM_imp hprojects fun other _ project => htrims.readProject
    refine Yields.bind ((ih (hs.shrinks htrims.toShrinks) hrest).mono fun loaded u hu => ?_)
    obtain ⟨rfl, htrims', hsettled'⟩ := hu
    refine Yields.pure ⟨rfl, IsTrans.trans _ _ _ htrims htrims', fun other hother => ?_⟩
    rcases List.mem_cons.mp hother with rfl | hother
    · exact hsettled.trims htrims'
    · exact hsettled' other hother

theorem loadProjects_yields (hs : Sound K s) {projects : List PersistedProject} (hloads : Loads K s projects) :
    Yields (loadProjects K rm) s fun loaded t => loaded = projects ∧ Trims K s t ∧ ∀ id, Settled t id := by
  have hlist : (do
      boundedDirectoryEntries s.projects.size maxPersistedProjects
      return s.projects.keys : Except StorageError (List Text)) = .ok s.projects.keys :=
    Outcome.bind_ok.mpr ⟨(), boundedDirectoryEntries_ok.mpr hs.count, rfl⟩
  unfold loadProjects
  refine Yields.bind (Yields.look hlist ((loadEach_yields hs hloads).mono fun loaded t ht => ?_))
  obtain ⟨rfl, htrims, hsettled⟩ := ht
  refine ⟨rfl, htrims, fun id dir hdir => ?_⟩
  obtain ⟨tree, htree, -⟩ := Option.bind_eq_some_iff.mp hdir
  refine hsettled id ?_ dir hdir
  rw [← htrims.keys, Std.ExtTreeMap.mem_keys]
  exact Std.ExtTreeMap.mem_iff_isSome_getElem?.mpr (Option.isSome_iff_exists.mpr ⟨tree, htree⟩)

end

/-! ## Deletions -/

/-- The deletions that are pending can be finished. -/
structure Pending (K : Crates) (s : Root) : Prop where
  nodup : (s.deleting.map (·.1)).Nodup
  trees : ∀ entry ∈ s.deleting,
    preflightProject K s.objects entry.1.1 entry.2 true = .ok () ∧ validateStableProject entry.2 = .ok ()
  backups : ∀ backup ∈ s.deletingBackups, backup.intact = true ∧ s.deleting ≠ [] ∧
    ∀ entry ∈ s.deleting, backup.nonce = entry.1.2 ∧ backup.projectId = entry.1.1
  backupCount : s.backups.length + s.deletingBackups.length ≤ maxRecoveryBackups + maxPersistedProjects

/-- Only backups differ. -/
def SameButBackups (s t : Root) : Prop :=
  t = { s with backups := t.backups, deletingBackups := t.deletingBackups }

section
variable {K : Crates} {rm : Remover} {s t u : Root} {id nonce : Text}

theorem SameButBackups.refl (s : Root) : SameButBackups s s := rfl

theorem SameButBackups.trans (h : SameButBackups s t) (h' : SameButBackups t u) : SameButBackups s u := by
  unfold SameButBackups at h h' ⊢
  rw [h', h]

theorem removeDeletingBackups_yields (hbackups : ∀ backup ∈ s.deletingBackups, backup.intact = true ∧
      backup.nonce = nonce ∧ backup.projectId = id) :
    Yields (s.deletingBackups.forM (removeDeletingBackup id nonce)) s fun _ t =>
      SameButBackups s t ∧ t.backups = s.backups ∧ t.deletingBackups = [] := by
  refine (Yields.forM (I := fun rest t => SameButBackups s t ∧ t.backups = s.backups ∧ t.deletingBackups ⊆ rest)
    ⟨SameButBackups.refl s, rfl, List.Subset.refl _⟩ fun backup rest t hmem ht => ?_).mono fun _ t ht =>
      ⟨ht.1, ht.2.1, List.subset_nil.mp ht.2.2⟩
  obtain ⟨hintact, hnonce, hproject⟩ := hbackups backup hmem
  unfold removeDeletingBackup
  rw [if_neg (by simp [hintact, hnonce, hproject])]
  refine Yields.bind (Yields.gradual (Yields.atomic ⟨?_, ht.2.1, fun other hother => ?_⟩))
  · exact ht.1.trans rfl
  · obtain ⟨hother, hne⟩ := List.mem_filter.mp hother
    refine (List.mem_cons.mp (ht.2.2 hother)).resolve_left ?_
    rintro rfl
    simp at hne

theorem removeBackups_yields (hs : s.deletingBackups = []) :
    Yields (s.backups.forM (removeBackup id nonce)) s fun _ t => SameButBackups s t ∧
      t.backups.Sublist s.backups ∧ t.deletingBackups = [] ∧ ∀ backup ∈ t.backups, backup.projectId ≠ id := by
  refine (Yields.forM (I := fun rest t => SameButBackups s t ∧ t.backups.Sublist s.backups ∧
      t.deletingBackups = [] ∧ ∀ backup ∈ t.backups, backup.projectId ≠ id ∨ backup ∈ rest)
    ⟨SameButBackups.refl s, List.Sublist.refl _, hs, fun _ h => .inr h⟩ fun backup rest t hmem ht => ?_).mono fun _ t ht =>
      ⟨ht.1, ht.2.1, ht.2.2.1, fun backup hbackup => (ht.2.2.2 backup hbackup).resolve_right List.not_mem_nil⟩
  obtain ⟨hsame, hsub, hnone, hleft⟩ := ht
  unfold removeBackup
  split
  · rename_i hother
    refine Yields.pure ⟨hsame, hsub, hnone, fun other hmem' => ?_⟩
    rcases hleft other hmem' with hne | hin
    · exact .inl hne
    · rcases List.mem_cons.mp hin with rfl | hin
      · exact .inl hother
      · exact .inr hin
  · refine Yields.bind (Yields.atomic (Yields.bind (Yields.atomic (Yields.bind (Yields.gradual (Yields.atomic ?_))))))
    refine ⟨hsame.trans rfl, List.filter_sublist.trans hsub, ?_, fun other hmem' => ?_⟩
    · simp [dropBackup, detachBackup, hnone]
    · obtain ⟨hmem', hne⟩ := List.mem_filter.mp hmem'
      rcases hleft other hmem' with hother | hin
      · exact .inl hother
      · refine .inr ((List.mem_cons.mp hin).resolve_left ?_)
        rintro rfl
        simp at hne

/-- What the preflight of a project that is being deleted finds. -/
theorem preflightProject_deleting {objects : Objects} {tree : ProjectTree}
    (h : preflightProject K objects id tree true = .ok ()) : ∃ pointer revisions dir manifest,
      tree.current = some pointer ∧ tree.revisions = some revisions ∧ tree.proposals = some dir ∧
      validateAllRetainedRevisions K objects revisions = .ok () ∧ validatePointer pointer = .ok () ∧
      readManifest K revisions pointer = .ok manifest ∧ validateSite K tree manifest = .ok () ∧
      preflightProposalInventory K dir = .ok () := by
  obtain ⟨⟨⟩, -, h⟩ := Outcome.bind_ok.mp h
  split at h
  · exact absurd rfl (ensure_ok.mp h).2
  · rename_i pointer hpointer
    simp only [Outcome.bind_ok, present_ok] at h
    obtain ⟨revisions, h1, dir, h2, ⟨⟩, h3, ⟨⟩, h4, manifest, h5, files, h6, ⟨⟩, h7, ⟨⟩, h8, h9⟩ := h
    exact ⟨pointer, revisions, dir, manifest, hpointer, h1, h2, h3, h4, h5, h7, h8⟩

theorem leaveEntry_none_sublist {ν τ : Type} [DecidableEq ν] {name : ν} (entries : List (ν × τ)) :
    (entries.filterMap (leaveEntry name fun _ => none)).Sublist entries := by
  induction entries with
  | nil => exact List.Sublist.refl _
  | cons entry entries ih =>
    rw [List.filterMap_cons]
    unfold leaveEntry at ih ⊢
    by_cases hname : entry.1 = name
    · rw [if_pos hname]
      exact ih.cons entry
    · rw [if_neg hname]
      exact ih.cons_cons entry

/-- A deletion finds what it reads, and its candidates are at least what the revisions name. -/
theorem deleting_reads (hs : Sound K s) {objects : Objects} {tree : ProjectTree}
    (hlookup : s.deleting.lookup (id, nonce) = some tree) (hpreflight : preflightProject K objects id tree true = .ok ())
    (hstable : validateStableProject tree = .ok ()) : ∃ candidates, (do
      let tree ← present (s.deleting.lookup (id, nonce))
      validateStableProject tree
      readLastAccepted K tree
      collectProjectCandidateObjects K tree : Except StorageError ObjectBindings) = .ok candidates ∧
      Sized (s.Sizes K) candidates ∧ ∀ revisions, tree.revisions = some revisions → ∀ manifest ∈ revisions,
        ∀ file ∈ manifest.files, candidates[file.sha256]? = some file.byteLength := by
  obtain ⟨pointer, revisions, dir, manifest, hcurrent, hrevisions, hdir, hall, hpointer, hmanifest, hsite, hinventory⟩ :=
    preflightProject_deleting hpreflight
  have hmentions : ∀ file, tree.Mentions K file → s.Mentions K file :=
    fun file h => .inr ⟨_, mem_of_lookup hlookup, h⟩
  obtain ⟨middle, hmiddle, hsized⟩ := hs.collectRevisionBindings hmentions hrevisions hall sized_empty
  obtain ⟨candidates, hcandidates, hsized⟩ := hs.collectAll hmentions hdir hinventory hsized
  have hread : readLastAccepted K tree = .ok () := by
    simp only [readLastAccepted, Outcome.bind_ok, present_ok]
    exact ⟨pointer, hcurrent, (), hpointer, revisions, hrevisions, manifest, hmanifest, hsite⟩
  have hcollect : collectProjectCandidateObjects K tree = .ok candidates := by
    simp only [collectProjectCandidateObjects, Outcome.bind_ok, present_ok]
    exact ⟨revisions, hrevisions, middle, hmiddle, dir, hdir, hcandidates⟩
  refine ⟨candidates, ?_, hsized, fun revisions' hrevisions' manifest hmanifest file hfile => ?_⟩
  · exact Outcome.bind_ok.mpr ⟨tree, present_ok.mpr hlookup, Outcome.bind_ok.mpr ⟨(), hstable,
      Outcome.bind_ok.mpr ⟨(), hread, hcollect⟩⟩⟩
  · rw [hrevisions] at hrevisions'
    cases hrevisions'
    obtain ⟨⟨⟩, -, hcandidates⟩ := Outcome.bind_ok.mp hcandidates
    exact (collectProposalBindings_ok hcandidates).2 _ _ ((collectRevisionBindings_ok hmiddle).1 manifest hmanifest file hfile)

theorem completeProjectDelete_yields (hs : Sound K s) {objects : Objects} {tree : ProjectTree}
    (hlookup : s.deleting.lookup (id, nonce) = some tree) (hpreflight : preflightProject K objects id tree true = .ok ())
    (hstable : validateStableProject tree = .ok ())
    (hbackups : ∀ backup ∈ s.deletingBackups, backup.intact = true ∧ backup.nonce = nonce ∧ backup.projectId = id)
    (hcount : s.backups.length + s.deletingBackups.length ≤ maxRecoveryBackups + maxPersistedProjects) :
    Yields (completeProjectDelete K rm id nonce) s fun _ t => Shrinks K s t ∧ t.projects = s.projects ∧
      t.deleting = s.deleting.filterMap (leaveEntry (id, nonce) fun _ => none) ∧ t.deletingBackups = [] ∧
      ∀ backup ∈ t.backups, backup.projectId ≠ id := by
  obtain ⟨candidates, hread, hsized, -⟩ := deleting_reads hs hlookup hpreflight hstable
  unfold completeProjectDelete
  refine Yields.bind (Yields.look hread ?_)
  refine Yields.bind (Yields.relabel ((cleanupCandidateObjects_yields hs hsized).mono fun _ t ht => ?_))
  have htrims := ht.trims
  have hprojects : t.projects = s.projects := by rw [ht.1.1]
  have hlooked : (do
      boundedDirectoryEntries (t.backups.length + t.deletingBackups.length) (maxRecoveryBackups + maxPersistedProjects)
      return (t.deletingBackups, t.backups) : Except StorageError _) = .ok (t.deletingBackups, t.backups) := by
    refine Outcome.bind_ok.mpr ⟨(), boundedDirectoryEntries_ok.mpr ?_, rfl⟩
    rw [htrims.backupsEq, htrims.deletingBackupsEq]
    exact hcount
  rw [← htrims.deletingBackupsEq] at hbackups
  refine Yields.bind (Yields.look hlooked (Yields.bind ((removeDeletingBackups_yields hbackups).mono fun _ u hu => ?_)))
  obtain ⟨hsame, hequal, hnone⟩ := hu
  rw [← hequal]
  refine Yields.bind ((removeBackups_yields hnone).mono fun _ v hv => ?_)
  obtain ⟨hsame', hsub, hnone', hleft⟩ := hv
  have hsame := hsame.trans hsame'
  have hobjects : v.objects = t.objects := by rw [hsame]
  have hprojects' : v.projects = t.projects := by rw [hsame]
  have hdeleting : v.deleting = t.deleting := by rw [hsame]
  refine Yields.bind (Yields.gradual (Yields.atomic ⟨⟨?_, fun other tree htree => ?_, ?_, ?_, ?_, ?_⟩, ?_, ?_, hnone', hleft⟩))
  · change v.projects.keys = s.projects.keys
    rw [hprojects', hprojects]
  · change v.projects[other]? = some tree at htree
    rw [hprojects', hprojects] at htree
    exact ⟨tree, htree, TreeTrims.refl tree⟩
  · change ∀ (digest : Text) (bytes : Bytes), v.objects[digest]? = some bytes → s.objects[digest]? = some bytes
    rw [hobjects]
    exact htrims.sub
  · change ∀ (other : Text) (tree : ProjectTree), s.projects[other]? = some tree → Kept K s.objects v.objects tree
    rw [hobjects]
    exact htrims.kept
  · change (v.deleting.filterMap _).Sublist s.deleting
    rw [hdeleting, htrims.deletingEq]
    exact leaveEntry_none_sublist s.deleting
  · change v.backups.Sublist s.backups
    rw [← htrims.backupsEq, ← hequal]
    exact hsub
  · change v.projects = s.projects
    rw [hprojects', hprojects]
  · change v.deleting.filterMap _ = s.deleting.filterMap _
    rw [hdeleting, htrims.deletingEq]

theorem mem_leaveEntry_none {ν τ : Type} [DecidableEq ν] {name : ν} {entries : List (ν × τ)} {entry : ν × τ} :
    entry ∈ entries.filterMap (leaveEntry name fun _ => none) ↔ entry ∈ entries ∧ entry.1 ≠ name := by
  rw [List.mem_filterMap]
  unfold leaveEntry
  constructor
  · rintro ⟨old, hold, h⟩
    split at h
    · cases h
    · rename_i hne
      cases h
      exact ⟨hold, hne⟩
  · rintro ⟨hmem, hne⟩
    exact ⟨entry, hmem, if_neg hne⟩

theorem lookup_of_mem {ν τ : Type} [BEq ν] [LawfulBEq ν] {entries : List (ν × τ)} {name : ν}
    (h : name ∈ entries.map (·.1)) : ∃ tree, entries.lookup name = some tree := by
  cases hlookup : entries.lookup name with
  | some tree => exact ⟨tree, rfl⟩
  | none =>
    obtain ⟨entry, hentry, rfl⟩ := List.mem_map.mp h
    have := List.lookup_eq_none_iff.mp hlookup entry hentry
    simp at this

theorem recoverOwnedProjectDeletions_yields (hs : Sound K s) (hp : Pending K s) :
    Yields (recoverOwnedProjectDeletions K rm) s fun _ t => Shrinks K s t ∧ t.projects = s.projects ∧
      t.deleting = [] ∧ t.deletingBackups = [] ∧
      ∀ entry ∈ s.deleting, ∀ backup ∈ t.backups, backup.projectId ≠ entry.1.1 := by
  have hlist : (do
      boundedDirectoryEntries (s.projects.size + s.deleting.length) (maxPersistedProjects + 32)
      return s.deleting.map (·.1) : Except StorageError (List (Text × Text))) = .ok (s.deleting.map (·.1)) :=
    Outcome.bind_ok.mpr ⟨(), boundedDirectoryEntries_ok.mpr hs.entries, rfl⟩
  unfold recoverOwnedProjectDeletions
  refine Yields.bind (Yields.look hlist ?_)
  -- The deletions whose names are still to come are those that are still pending.
  refine Yields.bind ((Yields.forM (I := fun rest t => Shrinks K s t ∧ t.projects = s.projects ∧ rest.Nodup ∧
    (∀ name, name ∈ t.deleting.map (·.1) ↔ name ∈ rest) ∧ t.deletingBackups ⊆ s.deletingBackups ∧
    t.backups.length + t.deletingBackups.length ≤ maxRecoveryBackups + maxPersistedProjects ∧
    (rest = s.deleting.map (·.1) ∨ t.deletingBackups = []) ∧
    ∀ entry ∈ s.deleting, entry.1 ∈ rest ∨ ∀ backup ∈ t.backups, backup.projectId ≠ entry.1.1)
    ⟨Std.Refl.refl s, rfl, hp.nodup, fun _ => Iff.rfl, List.Subset.refl _, hp.backupCount, .inl rfl,
      fun entry hentry => .inl (List.mem_map_of_mem hentry)⟩ fun name rest t hname ht => ?_).mono fun _ t ht => ?_)
  · obtain ⟨hshrinks, hprojects, hnodup, hnames, hbackups, hcount, -, hleft⟩ := ht
    obtain ⟨tree, hlookup⟩ := lookup_of_mem ((hnames name).mpr List.mem_cons_self)
    have hmem := hshrinks.deleting.subset (mem_of_lookup hlookup)
    obtain ⟨hpreflight, hstable⟩ := hp.trees _ hmem
    have hmatch : ∀ backup ∈ t.deletingBackups, backup.intact = true ∧ backup.nonce = name.2 ∧
        backup.projectId = name.1 := by
      intro backup hbackup
      obtain ⟨hintact, -, hall⟩ := hp.backups backup (hbackups hbackup)
      exact ⟨hintact, hall _ hmem⟩
    refine Yields.relabel ((completeProjectDelete_yields (hs.shrinks hshrinks) hlookup hpreflight hstable hmatch
      hcount).mono fun _ u hu => ?_)
    obtain ⟨hshrinks', hprojects', hdeleting, hnone, hgone⟩ := hu
    obtain ⟨hnot, hnodup⟩ := List.nodup_cons.mp hnodup
    refine ⟨IsTrans.trans _ _ _ hshrinks hshrinks', hprojects'.trans hprojects, hnodup, fun other => ?_, ?_, ?_,
      .inr hnone, fun entry hentry => ?_⟩
    · rw [hdeleting]
      constructor
      · intro h
        obtain ⟨entry, hentry, rfl⟩ := List.mem_map.mp h
        obtain ⟨hentry, hne⟩ := mem_leaveEntry_none.mp hentry
        exact (List.mem_cons.mp ((hnames _).mp (List.mem_map_of_mem hentry))).resolve_left hne
      · intro h
        obtain ⟨entry, hentry, rfl⟩ := List.mem_map.mp ((hnames other).mpr (List.mem_cons_of_mem name h))
        refine List.mem_map_of_mem (mem_leaveEntry_none.mpr ⟨hentry, fun heq => ?_⟩)
        have heq : entry.1 = name := heq
        rw [heq] at h
        exact hnot h
    · rw [hnone]
      exact List.nil_subset _
    · rw [hnone, List.length_nil, Nat.add_zero]
      have := hshrinks'.backups.length_le
      omega
    · rcases hleft entry hentry with hin | hfree
      · rcases List.mem_cons.mp hin with rfl | hin
        · exact .inr hgone
        · exact .inl hin
      · exact .inr fun backup hbackup => hfree backup (hshrinks'.backups.subset hbackup)
  · obtain ⟨hshrinks, hprojects, -, hnames, hbackups, -, hlast, hleft⟩ := ht
    have hdeleting : t.deleting = [] := by
      refine List.eq_nil_iff_forall_not_mem.mpr fun entry hentry => ?_
      exact List.not_mem_nil ((hnames entry.1).mp (List.mem_map_of_mem hentry))
    have hnone : t.deletingBackups = [] := by
      rcases hlast with hnil | hnone
      · refine List.eq_nil_iff_forall_not_mem.mpr fun backup hbackup => ?_
        exact (hp.backups backup (hbackups hbackup)).2.1 (List.map_eq_nil_iff.mp hnil.symm)
      · exact hnone
    refine Yields.look (a := ()) (ensure_ok.mpr ?_) ⟨hshrinks, hprojects, hdeleting, hnone, fun entry hentry =>
      (hleft entry hentry).resolve_left List.not_mem_nil⟩
    rw [hnone]
    exact fun backup hbackup => absurd hbackup List.not_mem_nil

end

/-! ## Opening -/

section
variable {K : Crates} {rm : Remover} {s : Root}

theorem Sound.preflightProject (hs : Sound K s) {id : Text} {tree : ProjectTree} (htree : s.projects[id]? = some tree) :
    Root.preflightProject K s.objects id tree false = .ok () := by
  obtain ⟨-, ⟨⟨pointer, files⟩, hvalid⟩, hinventory⟩ := hs.projects id tree htree
  obtain ⟨dir, hdir⟩ := proposals_isSome hvalid
  obtain ⟨revisions, manifest, hfound⟩ := validateProject_ok.mp hvalid
  obtain ⟨⟨⟩, -, hdirectories⟩ := Outcome.bind_ok.mp hfound.stable
  unfold Root.preflightProject
  rw [hfound.current, hfound.project]
  simp only [Outcome.bind_ok, present_ok]
  refine ⟨(), ensure_ok.mpr (by simp), revisions, hfound.retained, dir, hdir, (), hfound.all, (), hfound.pointerValid,
    manifest, hfound.read, files, hfound.load, (), hfound.site, (), hinventory dir hdir, ?_⟩
  split
  · exact hdirectories
  · rfl

theorem preflight_ok : preflight K s = .ok () ↔ (∀ backup ∈ s.deletingBackups, backup.intact = true) ∧
    (∀ backup ∈ s.backups, validateIdentifier backup.id "bkp_".toList = .ok ()) ∧
    s.backups.length ≤ maxRecoveryBackups ∧ s.projects.size + s.deleting.length ≤ maxPersistedProjects + 32 ∧
    (∀ entry ∈ s.deleting, preflightProject K s.objects entry.1.1 entry.2 true = .ok ()) ∧
    s.projects.size ≤ maxPersistedProjects ∧ ∀ entry ∈ s.projects.toList,
      validateIdentifier entry.1 "prj_".toList = .ok () ∧
        preflightProject K s.objects entry.1 entry.2 false = .ok () := by
  have hintact : (s.deletingBackups.forM fun backup => ensure backup.intact StorageError.corrupt) = .ok ⟨⟩ ↔
      ∀ backup ∈ s.deletingBackups, backup.intact = true :=
    Outcome.forM_ok.trans (forall₂_congr fun _ _ => ensure_ok)
  have hids : (s.backups.forM fun backup => validateIdentifier backup.id "bkp_".toList) = .ok ⟨⟩ ↔
      ∀ backup ∈ s.backups, validateIdentifier backup.id "bkp_".toList = .ok () := Outcome.forM_ok
  have hdeleting : (s.deleting.forM fun entry => preflightProject K s.objects entry.1.1 entry.2 true) = .ok ⟨⟩ ↔
      ∀ entry ∈ s.deleting, preflightProject K s.objects entry.1.1 entry.2 true = .ok () := Outcome.forM_ok
  have hprojects : (s.projects.toList.forM fun entry => do
      validateIdentifier entry.1 "prj_".toList
      preflightProject K s.objects entry.1 entry.2 false) = .ok ⟨⟩ ↔ ∀ entry ∈ s.projects.toList,
        validateIdentifier entry.1 "prj_".toList = .ok () ∧ preflightProject K s.objects entry.1 entry.2 false = .ok () := by
    rw [Outcome.forM_ok]
    refine forall₂_congr fun entry _ => ?_
    rw [Outcome.bind_ok]
    constructor
    · rintro ⟨⟨⟩, h⟩
      exact h
    · exact fun h => ⟨(), h⟩
  unfold preflight
  simp only [Outcome.bind_ok]
  constructor
  · rintro ⟨⟨⟩, h1, ⟨⟩, h2, ⟨⟩, h3, ⟨⟩, h4, ⟨⟩, h5, ⟨⟩, h6, h7⟩
    exact ⟨hintact.mp h1, hids.mp h2, boundedDirectoryEntries_ok.mp h3, boundedDirectoryEntries_ok.mp h4,
      hdeleting.mp h5, boundedDirectoryEntries_ok.mp h6, hprojects.mp h7⟩
  · rintro ⟨h1, h2, h3, h4, h5, h6, h7⟩
    exact ⟨(), hintact.mpr h1, (), hids.mpr h2, (), boundedDirectoryEntries_ok.mpr h3, (),
      boundedDirectoryEntries_ok.mpr h4, (), hdeleting.mpr h5, (), boundedDirectoryEntries_ok.mpr h6, hprojects.mpr h7⟩

/-- An open finishes what is pending, and loads what the root holds. -/
theorem openRoot_yields (hs : Sound K s) (hp : Pending K s) {projects : List PersistedProject}
    (hloads : Loads K s projects) : Yields (openRoot K rm) s fun loaded t => loaded = projects ∧
      t.projects.keys = s.projects.keys ∧ (∀ id, Settled t id) ∧ t.deleting = [] ∧ t.deletingBackups = [] ∧
      t.backups.Sublist s.backups ∧ ∀ entry ∈ s.deleting, ∀ backup ∈ t.backups, backup.projectId ≠ entry.1.1 := by
  have hpreflight : preflight K s = .ok () := by
    refine preflight_ok.mpr ⟨fun backup h => (hp.backups backup h).1, hs.backups, hs.backupCount, hs.entries,
      fun entry h => (hp.trees entry h).1, hs.count, fun entry hentry => ?_⟩
    have htree := Std.ExtTreeMap.mem_toList_iff_getElem?_eq_some.mp hentry
    exact ⟨(hs.projects _ _ htree).name, hs.preflightProject htree⟩
  unfold openRoot
  refine Yields.bind (Yields.look hpreflight (Yields.bind ((recoverOwnedProjectDeletions_yields hs hp).mono fun _ t ht => ?_)))
  obtain ⟨hshrinks, -, hdeleting, hnone, hgone⟩ := ht
  have hread : Loads K t projects := by
    unfold Loads
    rw [hshrinks.keys]
    exact Outcome.mapM_imp hloads fun id _ project => hshrinks.readProject
  refine (loadProjects_yields (hs.shrinks hshrinks) hread).mono fun loaded u hu => ?_
  obtain ⟨rfl, htrims, hsettled⟩ := hu
  refine ⟨rfl, htrims.keys.trans hshrinks.keys, hsettled, htrims.deletingEq.trans hdeleting,
    htrims.deletingBackupsEq.trans hnone, ?_⟩
  rw [htrims.backupsEq]
  exact ⟨hshrinks.backups, hgone⟩

end
end LpStudio.Storage.Root
