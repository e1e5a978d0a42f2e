import LpStudio.Storage.Sound

/-! # An open of a sound root succeeds
What the recovery of a sound root removes, and that it ends with every published project loaded and with nothing left
in staging.
-/
namespace LpStudio.Storage.Root
open Str Fault Fault.Program

theorem mem_of_lookup {ν τ : Type} [BEq ν] [LawfulBEq ν] {entries : List (ν × τ)} {name : ν} {tree : τ}
    (h : entries.lookup name = some tree) : (name, tree) ∈ entries := by
  obtain ⟨before, after, rfl, -⟩ := List.lookup_eq_some_iff.mp h
  exact List.mem_append_right before List.mem_cons_self

/-! ## Objects that go -/

/-- At most objects have gone. -/
def Erases (s t : Root) : Prop :=
  t = { s with objects := t.objects } ∧
    ∀ (digest : Text) (bytes : Bytes), t.objects[digest]? = some bytes → s.objects[digest]? = some bytes

/-- Moreover none of what the published projects name. -/
def Cleans (K : Crates) (s t : Root) : Prop :=
  Erases s t ∧ ∀ (id : Text) (tree : ProjectTree), s.projects[id]? = some tree → Kept K s.objects t.objects tree

instance : IsPreorder Root Erases where
  refl _ := ⟨rfl, fun _ _ h => h⟩
  trans s t u h h' := by
    refine ⟨?_, fun digest bytes hbytes => h.2 digest bytes (h'.2 digest bytes hbytes)⟩
    rw [h'.1, h.1]

section
variable {K : Crates} {s t : Root}

theorem erases_eraseObject (digest : Text) (s : Root) : Erases s (eraseObject digest s) := by
  refine ⟨rfl, fun other bytes h => ?_⟩
  change (s.objects.erase digest)[other]? = some bytes at h
  rw [Std.ExtTreeMap.getElem?_erase] at h
  split at h
  · cases h
  · exact h

theorem cleanupCandidateObjects_erases (candidates : ObjectBindings) :
    Within Erases (cleanupCandidateObjects K candidates) := by
  unfold cleanupCandidateObjects
  split
  · exact Within.pure _
  refine Within.bind (Within.look _ _ _) fun reachable => Within.forM fun candidate _ => ?_
  unfold cleanupCandidateObject
  split
  · split
    · exact Within.throw _
    · exact Within.pure _
  · unfold removeExactCandidateObject
    refine Within.bind (Within.look _ _ _) fun found => ?_
    split
    · exact Within.bind (Within.atomic (erases_eraseObject _)) fun _ => Within.atomic fun s => Std.Refl.refl s
    · exact Within.pure _

/-- A clean-up, wherever it ends. -/
theorem cleanupCandidateObjects_cleans (candidates : ObjectBindings) :
    Within (fun s t => Published s → Cleans K s t) (cleanupCandidateObjects K candidates) := by
  refine ((cleanupCandidateObjects_erases candidates).and (cleanupCandidateObjects_within (K := K) candidates)).mono ?_
  rintro s t ⟨herases, hsteady⟩ hp
  refine ⟨herases, fun id tree htree file hnames bytes hbytes => ?_⟩
  refine (hsteady hp).2.objects id tree ?_ file hnames bytes hbytes
  rw [herases.1]
  exact htree

theorem Sound.published (hs : Sound K s) : Published s := by
  intro id tree htree
  obtain ⟨-, ⟨⟨pointer, files⟩, hvalid⟩, -⟩ := hs.projects id tree htree
  obtain ⟨revisions, manifest, hfound⟩ := validateProject_ok.mp hvalid
  rw [hfound.current]
  rfl

/-- The clean-up of an object that files of the root name succeeds, and an object that is not reachable is gone. -/
theorem cleanupCandidateObject_yields (hs : Sound K s) {reachable : ObjectBindings}
    (hreachable : Sized (s.Sizes K) reachable) {candidate : Text × ℕ} (hQ : s.Sizes K candidate.1 candidate.2)
    (ht : Erases s t) : Yields (cleanupCandidateObject K reachable candidate) t fun _ u => Erases t u ∧
      (reachable[candidate.1]? = none → u.objects[candidate.1]? = none) := by
  unfold cleanupCandidateObject
  split
  · rename_i length hlength
    rw [if_neg (not_not.mpr (hs.sizing.functional _ _ _ (hreachable _ _ hlength) hQ))]
    exact Yields.pure ⟨Std.Refl.refl t, fun hnone => by rw [hlength] at hnone; cases hnone⟩
  · obtain ⟨file, hmentions, hdigest, hlength, hvalid, hmax⟩ := hQ
    unfold removeExactCandidateObject
    cases hbytes : t.objects[candidate.1]? with
    | none =>
      refine Yields.bind (Yields.look (a := false) ?_ (Yields.pure ⟨Std.Refl.refl t, fun _ => hbytes⟩))
      simp only [hvalid, hbytes, if_neg (Nat.not_lt.mpr hmax)]
      rfl
    | some bytes =>
      have hexact := hs.loose file hmentions bytes (hdigest ▸ ht.2 _ _ hbytes)
      rw [hdigest, hlength] at hexact
      have hfits : ¬ (bytes.length ≠ candidate.2 ∨ K.sha256 bytes ≠ candidate.1) := by
        rw [not_or, not_not, not_not]
        exact hexact
      have hgone : (eraseObject candidate.1 t).objects[candidate.1]? = none := Std.ExtTreeMap.getElem?_erase_self
      refine Yields.bind (Yields.look (a := true) ?_
        (Yields.bind (Yields.atomic (Yields.atomic ⟨erases_eraseObject candidate.1 t, fun _ => hgone⟩))))
      simp only [hvalid, hbytes, if_neg (Nat.not_lt.mpr hmax), if_neg hfits]
      rfl

theorem cleanupCandidateObjects_removes (hs : Sound K s) {candidates reachable : ObjectBindings}
    (hsized : Sized (s.Sizes K) candidates) (hreachable : collectActiveObjectBindings K s = .ok reachable) :
    Yields (cleanupCandidateObjects K candidates) s fun _ t => Cleans K s t ∧
      ∀ (digest : Text) (length : ℕ), candidates[digest]? = some length → reachable[digest]? = none →
        t.objects[digest]? = none := by
  suffices h : Yields (cleanupCandidateObjects K candidates) s fun _ t => ∀ candidate ∈ candidates.toList,
      reachable[candidate.1]? = none → t.objects[candidate.1]? = none by
    refine (h.within (cleanupCandidateObjects_cleans candidates)).mono fun _ t ht => ⟨ht.2 hs.published, ?_⟩
    intro digest length hcandidate
    exact ht.1 (digest, length) (Std.ExtTreeMap.mem_toList_iff_getElem?_eq_some.mpr hcandidate)
  obtain ⟨_, hcollect, hreachableSized⟩ := hs.collectActive
  rw [hreachable] at hcollect
  cases hcollect
  unfold cleanupCandidateObjects
  split
  · rename_i hempty
    refine Yields.pure fun candidate hmem => ?_
    rw [Std.ExtTreeMap.mem_toList_iff_getElem?_eq_some, Std.ExtTreeMap.isEmpty_iff.mp hempty,
      Std.ExtTreeMap.getElem?_empty] at hmem
    cases hmem
  refine Yields.bind (Yields.look hreachable ?_)
  refine (Yields.forM (I := fun rest t => Erases s t ∧ ∀ candidate ∈ candidates.toList, candidate ∈ rest ∨
    (reachable[candidate.1]? = none → t.objects[candidate.1]? = none)) ⟨Std.Refl.refl s, fun _ h => .inl h⟩
    fun candidate rest t hmem ht => ?_).mono fun _ t ht candidate hmem =>
      (ht.2 candidate hmem).resolve_left List.not_mem_nil
  have hQ := hsized candidate.1 candidate.2 (Std.ExtTreeMap.mem_toList_iff_getElem?_eq_some.mp hmem)
  refine (cleanupCandidateObject_yields hs hreachableSized hQ ht.1).mono fun _ u hu => ?_
  refine ⟨IsTrans.trans _ _ _ ht.1 hu.1, fun other hother => ?_⟩
  rcases ht.2 other hother with hin | hgone
  · rcases List.mem_cons.mp hin with rfl | hin
    · exact .inr hu.2
    · exact .inl hin
  · refine .inr fun hnone => Option.eq_none_iff_forall_ne_some.mpr fun bytes hbytes => ?_
    have := hu.1.2 _ _ hbytes
    rw [hgone hnone] at this
    cases this

/-- The clean-up of objects that files of the root name succeeds. -/
theorem cleanupCandidateObjects_yields (hs : Sound K s) {candidates : ObjectBindings}
    (hsized : Sized (s.Sizes K) candidates) :
    Yields (cleanupCandidateObjects K candidates) s fun _ t => Cleans K s t := by
  obtain ⟨reachable, hreachable, -⟩ := hs.collectActive
  exact (cleanupCandidateObjects_removes hs hsized hreachable).mono fun _ _ h => h.1

end

/-! ## Staging that goes -/

/-- At most staging trees have gone, or have become less, as far as the checks admit it. -/
structure DirectoryTrims (K : Crates) (dir dir' : ProposalsDirectory) : Prop where
  retained : dir'.retained = dir.retained
  length : dir'.staging.length ≤ dir.staging.length
  staging : ∀ entry ∈ dir'.staging, entry ∈ dir.staging ∨
    preflightProposalRoot K entry.2 entry.1.deleting = .ok () ∧ ∃ old ∈ dir.staging, entry.2.files K ⊆ old.2.files K

def TreeTrims (K : Crates) (tree tree' : ProjectTree) : Prop :=
  ∃ f : ProposalsDirectory → ProposalsDirectory, tree' = { tree with proposals := tree.proposals.map f } ∧
    ∀ dir, tree.proposals = some dir → DirectoryTrims K dir (f dir)

/-- Nothing new, and what the published projects name is kept. -/
structure Shrinks (K : Crates) (s t : Root) : Prop where
  keys : t.projects.keys = s.projects.keys
  trees : ∀ (id : Text) (tree' : ProjectTree), t.projects[id]? = some tree' →
    ∃ tree, s.projects[id]? = some tree ∧ TreeTrims K tree tree'
  sub : ∀ (digest : Text) (bytes : Bytes), t.objects[digest]? = some bytes → s.objects[digest]? = some bytes
  kept : ∀ (id : Text) (tree : ProjectTree), s.projects[id]? = some tree → Kept K s.objects t.objects tree
  deleting : t.deleting.Sublist s.deleting
  backups : t.backups.Sublist s.backups

/-- Only objects and staging have gone. -/
structure Trims (K : Crates) (s t : Root) : Prop extends Shrinks K s t where
  deletingEq : t.deleting = s.deleting
  backupsEq : t.backups = s.backups
  deletingBackupsEq : t.deletingBackups = s.deletingBackups

section
variable {K : Crates} {s t u : Root} {tree tree' tree'' : ProjectTree} {dir dir' dir'' : ProposalsDirectory}

theorem DirectoryTrims.refl (dir : ProposalsDirectory) : DirectoryTrims K dir dir :=
  ⟨rfl, Nat.le_refl _, fun _ h => .inl h⟩

theorem DirectoryTrims.trans (h : DirectoryTrims K dir dir') (h' : DirectoryTrims K dir' dir'') :
    DirectoryTrims K dir dir'' := by
  refine ⟨h'.retained.trans h.retained, Nat.le_trans h'.length h.length, fun entry hentry => ?_⟩
  rcases h'.staging entry hentry with hmem | ⟨hpass, middle, hmiddle, hsub⟩
  · exact h.staging entry hmem
  · rcases h.staging middle hmiddle with hold | ⟨-, old, hold, hsub'⟩
    · exact .inr ⟨hpass, middle, hold, hsub⟩
    · exact .inr ⟨hpass, old, hold, List.Subset.trans hsub hsub'⟩

theorem TreeTrims.refl (tree : ProjectTree) : TreeTrims K tree tree :=
  ⟨id, by rw [Option.map_id_fun, id], fun dir _ => DirectoryTrims.refl dir⟩

theorem TreeTrims.trans (h : TreeTrims K tree tree') (h' : TreeTrims K tree' tree'') : TreeTrims K tree tree'' := by
  obtain ⟨f, rfl, hf⟩ := h
  obtain ⟨g, rfl, hg⟩ := h'
  refine ⟨g ∘ f, by rw [Option.map_map], fun dir hdir => (hf dir hdir).trans (hg (f dir) ?_)⟩
  change tree.proposals.map f = some (f dir)
  rw [hdir, Option.map_some]

theorem TreeTrims.names (h : TreeTrims K tree tree') {file : StoredFile} :
    tree'.Names K file ↔ tree.Names K file := by
  obtain ⟨f, rfl, hf⟩ := h
  constructor
  · rintro (⟨revisions, hrevisions, hfile⟩ | ⟨dir', hdir', entry, hentry, hfile⟩)
    · exact .inl ⟨revisions, hrevisions, hfile⟩
    · obtain ⟨dir, hdir, rfl⟩ := Option.map_eq_some_iff.mp hdir'
      exact .inr ⟨dir, hdir, entry, (hf dir hdir).retained ▸ hentry, hfile⟩
  · rintro (⟨revisions, hrevisions, hfile⟩ | ⟨dir, hdir, entry, hentry, hfile⟩)
    · exact .inl ⟨revisions, hrevisions, hfile⟩
    · exact .inr ⟨f dir, by simp only [hdir, Option.map_some], entry, (hf dir hdir).retained ▸ hentry, hfile⟩

theorem TreeTrims.mentions (h : TreeTrims K tree tree') {file : StoredFile} (hfile : tree'.Mentions K file) :
    tree.Mentions K file := by
  rcases hfile with hnames | ⟨dir', hdir', entry, hentry, hfile⟩
  · exact .inl (h.names.mp hnames)
  · obtain ⟨f, rfl, hf⟩ := h
    obtain ⟨dir, hdir, rfl⟩ := Option.map_eq_some_iff.mp hdir'
    rcases (hf dir hdir).staging entry hentry with hold | ⟨-, old, hold, hsub⟩
    · exact .inr ⟨dir, hdir, entry, hold, hfile⟩
    · exact .inr ⟨dir, hdir, old, hold, hsub hfile⟩

/-- A project of the one root is one of the other. -/
theorem Shrinks.found (h : Shrinks K s t) {id : Text} (htree : s.projects[id]? = some tree) :
    ∃ tree', t.projects[id]? = some tree' ∧ TreeTrims K tree tree' := by
  have hmem : id ∈ t.projects := by
    rw [← Std.ExtTreeMap.mem_keys, h.keys, Std.ExtTreeMap.mem_keys]
    exact Std.ExtTreeMap.mem_iff_isSome_getElem?.mpr (Option.isSome_iff_exists.mpr ⟨tree, htree⟩)
  obtain ⟨tree', htree'⟩ := Option.isSome_iff_exists.mp (Std.ExtTreeMap.mem_iff_isSome_getElem?.mp hmem)
  obtain ⟨tree₀, htree₀, htrims⟩ := h.trees id tree' htree'
  rw [htree] at htree₀
  cases htree₀
  exact ⟨tree', htree', htrims⟩

instance : IsPreorder Root (Shrinks K) where
  refl s := ⟨rfl, fun _ tree h => ⟨tree, h, TreeTrims.refl tree⟩, fun _ _ h => h, fun _ _ _ _ _ _ h => h,
    List.Sublist.refl _, List.Sublist.refl _⟩
  trans s t u h h' := by
    refine ⟨h'.keys.trans h.keys, fun id tree'' htree'' => ?_, fun digest bytes hb => h.sub _ _ (h'.sub _ _ hb),
      fun id tree htree file hnames bytes hbytes => ?_, h'.deleting.trans h.deleting, h'.backups.trans h.backups⟩
    · obtain ⟨tree', htree', htrims'⟩ := h'.trees id tree'' htree''
      obtain ⟨tree, htree, htrims⟩ := h.trees id tree' htree'
      exact ⟨tree, htree, htrims.trans htrims'⟩
    · obtain ⟨tree', htree', htrims⟩ := h.found htree
      exact h'.kept id tree' htree' file (htrims.names.mpr hnames) bytes (h.kept id tree htree file hnames bytes hbytes)

instance : IsPreorder Root (Trims K) where
  refl s := ⟨Std.Refl.refl s, rfl, rfl, rfl⟩
  trans _ _ _ h h' := ⟨IsTrans.trans _ _ _ h.toShrinks h'.toShrinks, h'.deletingEq.trans h.deletingEq,
    h'.backupsEq.trans h.backupsEq, h'.deletingBackupsEq.trans h.deletingBackupsEq⟩

theorem Shrinks.size (h : Shrinks K s t) : t.projects.size = s.projects.size := by
  rw [← Std.ExtTreeMap.length_keys, h.keys, Std.ExtTreeMap.length_keys]

theorem Shrinks.mentions (h : Shrinks K s t) {file : StoredFile} (hfile : t.Mentions K file) : s.Mentions K file := by
  rcases hfile with ⟨id, tree', htree', hfile⟩ | ⟨entry, hentry, hfile⟩
  · obtain ⟨tree, htree, htrims⟩ := h.trees id tree' htree'
    exact .inl ⟨id, tree, htree, htrims.mentions hfile⟩
  · exact .inr ⟨entry, h.deleting.subset hentry, hfile⟩

theorem Shrinks.soundProject (h : Shrinks K s t) {id : Text} (htree : s.projects[id]? = some tree)
    (htrims : TreeTrims K tree tree') (hs : SoundProject K s.objects id tree) : SoundProject K t.objects id tree' := by
  obtain ⟨f, rfl, hf⟩ := htrims
  obtain ⟨hname, ⟨found, hvalid⟩, hinventory⟩ := hs
  refine ⟨hname, ⟨found, ?_⟩, fun dir' hdir' => ?_⟩
  · rw [validateProject_proposals]
    exact validateProject_kept hvalid (h.kept id tree htree)
  · obtain ⟨dir, hdir, rfl⟩ := Option.map_eq_some_iff.mp hdir'
    obtain ⟨hretainedEq, hlength, hstagingOf⟩ := hf dir hdir
    obtain ⟨hnames, hstaging, hretained⟩ := preflightProposalInventory_ok.mp (hinventory dir hdir)
    refine preflightProposalInventory_ok.mpr ⟨?_, fun entry hentry => ?_, hretainedEq ▸ hretained⟩
    · obtain ⟨hids, hcount, hstagingCount⟩ := validateProposalNames_ok.mp hnames
      refine validateProposalNames_ok.mpr ⟨hretainedEq ▸ hids, hretainedEq ▸ hcount, Nat.le_trans hlength hstagingCount⟩
    · rcases hstagingOf entry hentry with hold | ⟨hpass, -⟩
      · exact hstaging entry hold
      · exact hpass

theorem Sound.shrinks (hs : Sound K s) (h : Shrinks K s t) : Sound K t where
  projects id tree' htree' := by
    obtain ⟨tree, htree, htrims⟩ := h.trees id tree' htree'
    exact h.soundProject htree htrims (hs.projects id tree htree)
  count := by
    rw [h.size]
    exact hs.count
  entries := by
    rw [h.size]
    exact Nat.le_trans (Nat.add_le_add_left h.deleting.length_le _) hs.entries
  backups backup hbackup := hs.backups backup (h.backups.subset hbackup)
  backupCount := Nat.le_trans h.backups.length_le hs.backupCount
  agree f g hf hg := hs.agree f g (h.mentions hf) (h.mentions hg)
  loose f hf bytes hbytes := hs.loose f (h.mentions hf) bytes (h.sub _ _ hbytes)

theorem Cleans.trims (h : Cleans K s t) : Trims K s t := by
  obtain ⟨⟨hrest, hsub⟩, hkept⟩ := h
  have hprojects : t.projects = s.projects := by rw [hrest]
  have hdeleting : t.deleting = s.deleting := by rw [hrest]
  have hbackups : t.backups = s.backups := by rw [hrest]
  refine ⟨⟨by rw [hprojects], fun id tree htree => ⟨tree, hprojects ▸ htree, TreeTrims.refl tree⟩, hsub, hkept, ?_, ?_⟩,
    hdeleting, hbackups, by rw [hrest]⟩
  · rw [hdeleting]
  · rw [hbackups]

/-- A project reads the same after staging has gone. -/
theorem Shrinks.readProject (h : Shrinks K s t) {id : Text} {project : PersistedProject}
    (hread : readProjectOf K s id = .ok project) : readProjectOf K t id = .ok project := by
  obtain ⟨tree, htree, hread⟩ := Outcome.bind_ok.mp hread
  have htree := present_ok.mp htree
  obtain ⟨pointer, files, dir, proposals, hvalid, hdir, hload, rfl⟩ := readProject_ok.mp hread
  obtain ⟨_, htree', f, rfl, hf⟩ := h.found htree
  refine Outcome.bind_ok.mpr ⟨_, present_ok.mpr htree', readProject_ok.mpr ⟨pointer, files, f dir, proposals, ?_, ?_, ?_, rfl⟩⟩
  · rw [validateProject_proposals]
    exact validateProject_kept hvalid (h.kept id tree htree)
  · simp only [hdir, Option.map_some]
  · simp only [(hf dir hdir).retained]
    exact hload

/-! ## The recovery of proposals -/

theorem keys_eq {projects : Std.ExtTreeMap Text ProjectTree compare} {ids : List Text}
    (hids : ids.Pairwise fun a b => compare a b = .lt) (h : ∀ id, id ∈ projects ↔ id ∈ ids) : projects.keys = ids := by
  have : Std.Antisymm fun a b : Text => compare a b = .lt := ⟨fun _ _ h h' => absurd h' (Std.OrientedCmp.not_lt_of_lt h)⟩
  have : Std.Irrefl fun a b : Text => compare a b = .lt := ⟨fun _ h => absurd h (Std.OrientedCmp.not_lt_of_lt h)⟩
  refine List.Pairwise.eq_of_mem_iff Std.ExtTreeMap.ordered_keys hids fun id => ?_
  rw [Std.ExtTreeMap.mem_keys]
  exact h id

theorem keys_modify {id : Text} {f : ProjectTree → ProjectTree} (projects : Std.ExtTreeMap Text ProjectTree compare) :
    (projects.modify id f).keys = projects.keys := by
  refine keys_eq Std.ExtTreeMap.ordered_keys fun other => ?_
  rw [Std.ExtTreeMap.mem_keys, Std.ExtTreeMap.mem_modify]

theorem trims_leaveStaging {id : Text} {name : StagingName} {left : ProposalTree → Option ProposalTree}
    (hleft : ∀ dir tree tree', s.proposalsOf id = some dir → (name, tree) ∈ dir.staging → left tree = some tree' →
      preflightProposalRoot K tree' name.deleting = .ok () ∧ tree'.files K ⊆ tree.files K) :
    Trims K s (leaveStaging id name left s) := by
  refine ⟨⟨keys_modify s.projects, fun other tree' htree' => ?_, fun _ _ h => h, fun _ _ _ _ _ _ h => h,
    List.Sublist.refl _, List.Sublist.refl _⟩, rfl, rfl, rfl⟩
  change (s.projects.modify id _)[other]? = some tree' at htree'
  rw [Std.ExtTreeMap.getElem?_modify] at htree'
  split at htree'
  · rename_i heq
    obtain rfl := Std.LawfulEqCmp.eq_of_compare heq
    obtain ⟨tree, htree, rfl⟩ := Option.map_eq_some_iff.mp htree'
    refine ⟨tree, htree, _, rfl, fun dir hdir => ⟨rfl, List.length_filterMap_le _ _, fun entry hentry => ?_⟩⟩
    have hdirOf : s.proposalsOf id = some dir := by
      unfold proposalsOf
      rw [htree]
      exact hdir
    obtain ⟨⟨oldName, old⟩, hold, hleave⟩ := List.mem_filterMap.mp hentry
    unfold leaveEntry at hleave
    split at hleave
    · rename_i hname
      cases hname
      obtain ⟨left', hleft', rfl⟩ := Option.map_eq_some_iff.mp hleave
      obtain ⟨hpass, hsub⟩ := hleft dir old left' hdirOf hold hleft'
      exact .inr ⟨hpass, _, hold, hsub⟩
    · cases hleave
      exact .inl hold
  · exact ⟨tree', htree', TreeTrims.refl tree'⟩

theorem proposalsOf_leaveStaging {id : Text} {name : StagingName} {left : ProposalTree → Option ProposalTree}
    {dir' : ProposalsDirectory} (h : (leaveStaging id name left s).proposalsOf id = some dir') :
    ∃ dir, s.proposalsOf id = some dir ∧ dir' = { dir with staging := dir.staging.filterMap (leaveEntry name left) } := by
  unfold proposalsOf leaveStaging modifyProposals at h
  rw [Std.ExtTreeMap.getElem?_modify_self] at h
  unfold proposalsOf
  cases htree : s.projects[id]? with
  | none =>
    rw [htree] at h
    cases h
  | some tree =>
    rw [htree] at h
    obtain ⟨dir, hdir, rfl⟩ := Option.map_eq_some_iff.mp h
    exact ⟨dir, hdir, rfl⟩

/-- Staging trees are as they were, or gone. -/
theorem Shrinks.proposals (h : Shrinks K s t) {id : Text} (hdir : t.proposalsOf id = some dir') :
    ∃ dir, s.proposalsOf id = some dir ∧ DirectoryTrims K dir dir' := by
  unfold proposalsOf at hdir
  obtain ⟨tree', htree', hdir'⟩ := Option.bind_eq_some_iff.mp hdir
  obtain ⟨tree, htree, f, rfl, hf⟩ := h.trees id tree' htree'
  obtain ⟨dir₀, hdir₀, rfl⟩ := Option.map_eq_some_iff.mp hdir'
  refine ⟨dir₀, ?_, hf dir₀ hdir₀⟩
  unfold proposalsOf
  rw [htree]
  exact hdir₀

theorem Sound.staging (hs : Sound K s) {id : Text} (hdir : s.proposalsOf id = some dir) {name : StagingName}
    {tree : ProposalTree} (htree : (name, tree) ∈ dir.staging) :
    preflightProposalRoot K tree name.deleting = .ok () ∧ ∀ file ∈ tree.files K, s.Mentions K file := by
  unfold proposalsOf at hdir
  obtain ⟨project, hproject, hdir⟩ := Option.bind_eq_some_iff.mp hdir
  obtain ⟨-, hstaging, -⟩ := preflightProposalInventory_ok.mp ((hs.projects id project hproject).inventory dir hdir)
  exact ⟨hstaging _ htree, fun file hfile => .inl ⟨id, project, hproject, .inr ⟨dir, hdir, _, htree, hfile⟩⟩⟩

variable {rm : Remover}

theorem completeProposalStagingCleanup_yields (hs : Sound K s) {id : Text} {name : StagingName} :
    Yields (completeProposalStagingCleanup K rm id name name.deleting) s fun _ t => Trims K s t ∧
      ∀ dir', t.proposalsOf id = some dir' → ∃ dir, s.proposalsOf id = some dir ∧
        ∀ entry ∈ dir'.staging, entry ∈ dir.staging ∧ entry.1 ≠ name := by
  unfold completeProposalStagingCleanup
  refine Yields.bind (Yields.look rfl ?_)
  cases hlookup : (s.proposalsOf id).bind (·.staging.lookup name) with
  | none =>
    refine Yields.pure ⟨Std.Refl.refl s, fun dir hdir => ⟨dir, hdir, fun entry hentry => ⟨hentry, ?_⟩⟩⟩
    rintro rfl
    rw [hdir] at hlookup
    have := List.lookup_eq_none_iff.mp hlookup entry hentry
    simp at this
  | some tree =>
    obtain ⟨dir, hdir, hlookup⟩ := Option.bind_eq_some_iff.mp hlookup
    obtain ⟨hpass, hfiles⟩ := hs.staging hdir (mem_of_lookup hlookup)
    obtain ⟨candidates, hcandidates, hsized⟩ := proposalSiteObjectBindings_sized hs.sizing hpass
      (sizes_of_valid (files_valid hpass) hfiles)
    refine Yields.bind (Yields.look hcandidates ?_)
    refine Yields.bind (Yields.relabel ((cleanupCandidateObjects_yields hs hsized).mono fun _ t ht => ?_))
    refine Yields.bind (Yields.gradual (Yields.atomic ?_))
    refine ⟨IsTrans.trans _ _ _ ht.trims (trims_leaveStaging fun _ _ _ _ _ h => by cases h), fun dir' hdir' => ?_⟩
    obtain ⟨middle, hmiddle, rfl⟩ := proposalsOf_leaveStaging hdir'
    refine ⟨middle, by rw [ht.1.1] at hmiddle; exact hmiddle, fun entry hentry => ?_⟩
    obtain ⟨old, hold, hentry⟩ := List.mem_filterMap.mp hentry
    unfold leaveEntry at hentry
    split at hentry
    · cases hentry
    · rename_i hne
      cases hentry
      exact ⟨hold, hne⟩

/-- Nothing is left in the project's staging. -/
def Settled (s : Root) (id : Text) : Prop := ∀ dir, s.proposalsOf id = some dir → dir.staging = []

theorem Settled.trims {id : Text} (hs : Settled s id) (h : Trims K s t) : Settled t id := by
  intro dir' hdir'
  obtain ⟨dir, hdir, htrims⟩ := h.proposals hdir'
  have hlength := htrims.length
  rw [hs dir hdir] at hlength
  exact List.length_eq_zero_iff.mp (Nat.le_zero.mp hlength)

theorem recoverOwnedProposalStaging_yields (hs : Sound K s) {id : Text} (hdir : s.proposalsOf id = some dir)
    (hnames : validateProposalNames dir = .ok ()) :
    Yields (recoverOwnedProposalStaging K rm id) s fun _ t => Trims K s t ∧ Settled t id := by
  unfold recoverOwnedProposalStaging
  have hlist : (do
      let dir ← present (s.proposalsOf id)
      validateProposalNames dir
      return dir.staging.map (·.1) : Except StorageError (List StagingName)) = .ok (dir.staging.map (·.1)) := by
    rw [hdir]
    exact Outcome.bind_ok.mpr ⟨dir, rfl, Outcome.bind_ok.mpr ⟨(), hnames, rfl⟩⟩
  refine Yields.bind (Yields.look hlist ?_)
  -- The entries of the names that are still to come are all that is left.
  refine (Yields.forM (I := fun rest t => Trims K s t ∧
    ∀ dir', t.proposalsOf id = some dir' → ∀ entry ∈ dir'.staging, entry.1 ∈ rest)
    ⟨Std.Refl.refl s, fun dir' hdir' entry hentry => ?_⟩ fun name rest t _ ht => ?_).mono fun _ t ht => ?_
  · rw [hdir] at hdir'
    cases hdir'
    exact List.mem_map_of_mem hentry
  · refine Yields.relabel ((completeProposalStagingCleanup_yields (hs.shrinks ht.1.toShrinks)).mono fun _ u hu => ?_)
    refine ⟨IsTrans.trans _ _ _ ht.1 hu.1, fun dir' hdir' entry hentry => ?_⟩
    obtain ⟨dir, hdir, hleft⟩ := hu.2 dir' hdir'
    obtain ⟨hold, hne⟩ := hleft entry hentry
    exact (List.mem_cons.mp (ht.2 dir hdir entry hold)).resolve_left hne
  · exact ⟨ht.1, fun dir' hdir' => List.eq_nil_iff_forall_not_mem.mpr fun entry hentry =>
      absurd (ht.2 dir' hdir' entry hentry) List.not_mem_nil⟩

theorem Sound.names (hs : Sound K s) {id : Text} (hdir : s.proposalsOf id = some dir) :
    validateProposalNames dir = .ok () := by
  unfold proposalsOf at hdir
  obtain ⟨project, hproject, hdir⟩ := Option.bind_eq_some_iff.mp hdir
  exact (preflightProposalInventory_ok.mp ((hs.projects id project hproject).inventory dir hdir)).1

theorem loadProposals_yields (hs : Sound K s) {id : Text} (hdir : s.proposalsOf id = some dir)
    {proposals : List PersistedProposal} (hload : loadRetained K { dir with staging := [] } = .ok proposals) :
    Yields (loadProposals K rm id) s fun loaded t => loaded = proposals ∧ Trims K s t ∧ Settled t id := by
  unfold loadProposals
  refine Yields.bind (Yields.relabel ((recoverOwnedProposalStaging_yields hs hdir (hs.names hdir)).mono fun _ t ht => ?_))
  obtain ⟨project, hproject, hproposals⟩ := Option.bind_eq_some_iff.mp hdir
  obtain ⟨project', hproject', f, rfl, hf⟩ := ht.1.found hproject
  have hdir' : t.proposalsOf id = some (f dir) := by
    unfold proposalsOf
    rw [hproject']
    simp only [Option.bind_some, hproposals, Option.map_some]
  have heq : f dir = { dir with staging := [] } := by
    rw [← (hf dir hproposals).retained, ← ht.2 _ hdir']
  refine Yields.look (a := proposals) ?_ ⟨rfl, ht⟩
  rw [hdir', heq]
  exact hload

theorem loadProject_yields (hs : Sound K s) {id : Text} {project : PersistedProject}
    (hread : readProjectOf K s id = .ok project) :
    Yields (loadProject K rm id) s fun loaded t => loaded = project ∧ Trims K s t ∧ Settled t id := by
  have hvalid : ∀ {t}, Trims K s t → ∃ tree pointer files dir proposals, t.projects[id]? = some tree ∧
      validateProject K t.objects id tree = .ok (pointer, files) ∧ t.proposalsOf id = some dir ∧
        loadRetained K { dir with staging := [] } = .ok proposals ∧
          (⟨id, pointer.revisionId, pointer.artifactManifestSha256, files, proposals⟩ : PersistedProject) = project := by
    intro t ht
    obtain ⟨tree, htree, hread⟩ := Outcome.bind_ok.mp (ht.readProject hread)
    obtain ⟨pointer, files, dir, proposals, h1, h2, h3, h4⟩ := readProject_ok.mp hread
    have htree := present_ok.mp htree
    refine ⟨tree, pointer, files, dir, proposals, htree, h1, ?_, h3, h4⟩
    unfold proposalsOf
    rw [htree]
    exact h2
  obtain ⟨tree, pointer, files, dir, proposals, htree, hfound, hdir, hload, -⟩ := hvalid (Std.Refl.refl s)
  unfold loadProject validateNewProject
  refine Yields.bind (Yields.bind (Yields.look (a := (pointer, files)) ?_ ?_))
  · rw [htree]
    exact hfound
  refine Yields.bind (Yields.relabel ((loadProposals_yields hs hdir hload).mono fun _ t ht => Yields.pure ?_))
  obtain ⟨tree, pointer, files, dir, proposals, htree, hfound, hdir, hload, rfl⟩ := hvalid ht.2.1
  refine Yields.bind (Yields.look (a := (pointer, files)) ?_ ?_)
  · rw [htree]
    exact hfound
  refine Yields.bind (Yields.relabel ((loadProposals_yields (hs.shrinks ht.2.1.toShrinks) hdir hload).mono fun loaded u hu => ?_))
  obtain ⟨rfl, hu, hsettled⟩ := hu
  exact Yields.pure ⟨rfl, IsTrans.trans _ _ _ ht.2.1 hu, hsettled⟩

end
end LpStudio.Storage.Root
