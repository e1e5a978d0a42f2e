import LpStudio.Storage.ProposalResumption

/-! # Deletion of a project is resumed
A deletion that ends after the rename leaves the project's tree, whole or in part, and perhaps a backup in its removal.
The next open finishes it if and only if the tree still passes its checks, with the objects that are left, and the
backup is whole.
-/
namespace LpStudio.Storage
open Str Fault Fault.Program

theorem ProjectTree.Part.mentions {K : Crates} {left tree : ProjectTree} (h : left.Part tree) {file : StoredFile}
    (hfile : left.Mentions K file) : tree.Mentions K file := by
  rcases hfile with (⟨revisions, hrevisions, manifest, hmanifest, hfile⟩ | ⟨dir, hdir, entry, hentry, site, hsite, f, hf, rfl⟩) |
    ⟨dir, hdir, entry, hentry, hfile⟩
  · obtain ⟨whole, hwhole, hsub⟩ := h.revisions revisions hrevisions
    exact .inl (.inl ⟨whole, hwhole, manifest, hsub hmanifest, hfile⟩)
  · obtain ⟨whole, hwhole, hretained, -⟩ := h.proposals dir hdir
    obtain ⟨old, hold, hpart⟩ := hretained entry hentry
    obtain ⟨site', hsite', -, hfiles⟩ := hpart.site site hsite
    exact .inl (.inr ⟨whole, hwhole, _, hold, site', hsite', f, hfiles.subset hf, rfl⟩)
  · obtain ⟨whole, hwhole, -, hstaging⟩ := h.proposals dir hdir
    obtain ⟨old, hold, hpart⟩ := hstaging entry hentry
    exact .inr ⟨whole, hwhole, _, hold, hpart.files hfile⟩

theorem ProjectTree.part_refl (tree : ProjectTree) : tree.Part tree :=
  ⟨fun revisions h => ⟨revisions, h, fun _ h => h⟩, fun dir h => ⟨dir, h, fun entry hentry =>
    ⟨entry.2, hentry, Root.part_refl _⟩, fun entry hentry => ⟨entry.2, hentry, Root.part_refl _⟩⟩⟩

namespace Root

section
variable {K : Crates} {rm : Remover} {s t u : Root} {id nonce : Text} {tree : ProjectTree}

/-! ## The rename -/

theorem projects_detachProject {other : Text} {tree : ProjectTree}
    (h : (detachProject id nonce s).projects[other]? = some tree) : other ≠ id ∧ s.projects[other]? = some tree := by
  change (s.projects.erase id)[other]? = some tree at h
  rw [Std.ExtTreeMap.getElem?_erase] at h
  split at h
  · cases h
  · rename_i hne
    exact ⟨fun heq => hne (by rw [heq]; exact Std.ReflCmp.compare_self), h⟩

theorem sound_detachProject (hs : Sound K s) (htree : s.projects[id]? = some tree) :
    Sound K (detachProject id nonce s) := by
  have hsize : (s.projects.erase id).size = s.projects.size - 1 := by
    rw [Std.ExtTreeMap.size_erase, if_pos]
    exact Std.ExtTreeMap.mem_iff_isSome_getElem?.mpr (Option.isSome_iff_exists.mpr ⟨tree, htree⟩)
  have hmem : 0 < s.projects.size := by
    rw [← Std.ExtTreeMap.length_keys]
    refine List.length_pos_of_mem (a := id) ?_
    rw [Std.ExtTreeMap.mem_keys]
    exact Std.ExtTreeMap.mem_iff_isSome_getElem?.mpr (Option.isSome_iff_exists.mpr ⟨tree, htree⟩)
  have hold : ∀ file, (detachProject id nonce s).Mentions K file → s.Mentions K file := by
    rintro file (⟨other, tree', htree', hfile⟩ | ⟨entry, hentry, hfile⟩)
    · exact .inl ⟨other, tree', (projects_detachProject htree').2, hfile⟩
    · rcases List.mem_append.mp hentry with hnew | hentry
      · rw [htree] at hnew
        cases List.mem_singleton.mp hnew
        exact .inl ⟨id, tree, htree, hfile⟩
      · exact .inr ⟨entry, hentry, hfile⟩
  refine ⟨fun other tree' htree' => hs.projects other tree' (projects_detachProject htree').2, ?_, ?_, hs.backups,
    hs.backupCount, fun f g hf hg => hs.agree f g (hold f hf) (hold g hg), fun f hf => hs.loose f (hold f hf)⟩
  · change (s.projects.erase id).size ≤ _
    have := hs.count
    omega
  · have := hs.entries
    change (s.projects.erase id).size + ((s.projects[id]?.map fun tree => ((id, nonce), tree)).toList ++ s.deleting).length ≤ _
    rw [htree, List.length_append]
    change _ + (1 + _) ≤ _
    omega

/-! ## Where a deletion ends -/

/-- What is left of the backups while one of the project is in its removal. -/
def BackupsLeft (id nonce : Text) (s t : Root) : Prop :=
  SameButBackups s t ∧ t.backups.Sublist s.backups ∧ t.deletingBackups.length ≤ 1 ∧
    ∀ backup ∈ t.deletingBackups, backup.nonce = nonce ∧ backup.projectId = id

theorem backupsLeft_refl (hnone : u.deletingBackups = []) : BackupsLeft id nonce u u := by
  refine ⟨SameButBackups.refl u, List.Sublist.refl _, ?_, ?_⟩
  · rw [hnone]
    exact Nat.zero_le _
  · rw [hnone]
    exact fun backup hbackup => absurd hbackup List.not_mem_nil

theorem removeBackups_ends (hs : s.deletingBackups = []) (faults : DeletingStep → Fault.Outcome) :
    Ends (s.backups.forM (removeBackup id nonce)) faults s (fun _ t => BackupsLeft id nonce s t ∧
      t.deletingBackups = [] ∧ ∀ backup ∈ t.backups, backup.projectId ≠ id) (fun _ t => BackupsLeft id nonce s t)
      fun t => BackupsLeft id nonce s t := by
  refine (Ends.forM (I := fun rest t => BackupsLeft id nonce s t ∧ t.deletingBackups = [] ∧
      ∀ backup ∈ t.backups, backup.projectId ≠ id ∨ backup ∈ rest) ?_ fun backup rest t ht => ?_).mono
    (fun _ t ht => ⟨ht.1, ht.2.1, fun backup hbackup => (ht.2.2 backup hbackup).resolve_right List.not_mem_nil⟩)
    (fun _ _ h => h) fun _ h => h
  · exact ⟨backupsLeft_refl hs, hs, fun _ h => .inr h⟩
  obtain ⟨hleft, hnone, hrest⟩ := ht
  unfold removeBackup
  split
  · rename_i hother
    refine Ends.pure ⟨hleft, hnone, fun other hmem => ?_⟩
    rcases hrest other hmem with hne | hin
    · exact .inl hne
    · rcases List.mem_cons.mp hin with rfl | hin
      · exact .inl hother
      · exact .inr hin
  · rename_i hproject
    have hdetached : BackupsLeft id nonce s (detachBackup backup nonce t) := by
      refine ⟨hleft.1.trans rfl, List.filter_sublist.trans hleft.2.1, ?_, fun other hmem => ?_⟩
      · simp [detachBackup, hnone]
      · change other ∈ _ :: t.deletingBackups at hmem
        rw [hnone] at hmem
        cases List.mem_singleton.mp hmem
        exact ⟨rfl, not_not.mp hproject⟩
    have hbroken : ∀ n : ℕ, BackupsLeft id nonce s
        (if n = 0 then detachBackup backup nonce t else breakBackup backup.id (detachBackup backup nonce t)) := by
      intro n
      split
      · exact hdetached
      · refine ⟨hleft.1.trans rfl, hdetached.2.1, ?_, fun other hmem => ?_⟩
        · change (List.map _ (detachBackup backup nonce t).deletingBackups).length ≤ 1
          rw [List.length_map]
          exact hdetached.2.2.1
        · obtain ⟨old, hold, rfl⟩ := List.mem_map.mp hmem
          have := hdetached.2.2.2 old hold
          split
          · exact this
          · exact this
    have hdropped : (dropBackup backup.id (detachBackup backup nonce t)).deletingBackups = [] := by
      simp [dropBackup, detachBackup, hnone]
    have hdone : BackupsLeft id nonce s (dropBackup backup.id (detachBackup backup nonce t)) := by
      refine ⟨hleft.1.trans rfl, hdetached.2.1, ?_, ?_⟩
      · rw [hdropped]
        exact Nat.zero_le _
      · rw [hdropped]
        exact fun other hmem => absurd hmem List.not_mem_nil
    refine Ends.bind (Ends.atomic (fun _ => ?_) (fun _ => hleft) (fun _ _ => hdetached) (fun _ => hleft)
      fun _ _ => hdetached)
    refine Ends.bind (Ends.atomic (fun _ => ?_) (fun _ => hdetached) (fun _ _ => hdetached) (fun _ => hdetached)
      fun _ _ => hdetached)
    refine Ends.bind (Ends.gradual (fun _ => ?_) (fun n _ => hbroken n) fun n _ => hbroken n)
    refine Ends.atomic (fun _ => ⟨hdone, hdropped, fun other hmem => ?_⟩) (fun _ => hdone) (fun _ _ => hdone)
      (fun _ => hdone) fun _ _ => hdone
    obtain ⟨hmem, hne⟩ := List.mem_filter.mp hmem
    rcases hrest other hmem with hother | hin
    · exact .inl hother
    · refine .inr ((List.mem_cons.mp hin).resolve_left ?_)
      rintro rfl
      simp at hne

/-- What a deletion leaves of a root `t` in which the project has its staging name. -/
structure Remains (K : Crates) (id nonce : Text) (tree : ProjectTree) (t u : Root)
    (left : ProjectTree → Option ProjectTree) (s' : Root) : Prop where
  cleans : Cleans K t u
  part : ∀ rest, left tree = some rest → rest.Part tree
  projects : s'.projects = u.projects
  objects : s'.objects = u.objects
  deleting : s'.deleting = [((id, nonce), tree)].filterMap (leaveEntry (id, nonce) left)
  backups : s'.backups.Sublist u.backups
  one : s'.deletingBackups.length ≤ 1
  named : ∀ backup ∈ s'.deletingBackups, backup.nonce = nonce ∧ backup.projectId = id
  gone : left tree = none → s'.deletingBackups = [] ∧ ∀ backup ∈ s'.backups, backup.projectId ≠ id

theorem remains_whole (hu : Cleans K t u) (hdeleting : t.deleting = [((id, nonce), tree)]) {s' : Root}
    (h : BackupsLeft id nonce u s') : Remains K id nonce tree t u some s' := by
  obtain ⟨hsame, hsub, hone, hnamed⟩ := h
  refine ⟨hu, fun rest h => Option.some.inj h ▸ tree.part_refl, by rw [hsame], by rw [hsame], ?_, hsub, hone, hnamed,
    fun h => (by cases h)⟩
  have hentry : leaveEntry (id, nonce) some ((id, nonce), tree) = some ((id, nonce), tree) := if_pos rfl
  rw [hsame, List.filterMap_cons, hentry]
  exact hu.trims.deletingEq.trans hdeleting

theorem completeProjectDelete_ends (hp : Published t) (hnone : t.deletingBackups = [])
    (hdeleting : t.deleting = [((id, nonce), tree)]) (faults : DeletingStep → Fault.Outcome) :
    Ends (completeProjectDelete K rm id nonce) faults t (fun _ s' => ∃ u left, Remains K id nonce tree t u left s')
      (fun _ s' => ∃ u left, Remains K id nonce tree t u left s')
      fun s' => ∃ u left, Remains K id nonce tree t u left s' := by
  have hleft : ∀ {u}, Cleans K t u → BackupsLeft id nonce u u := fun hu =>
    backupsLeft_refl (hu.trims.deletingBackupsEq.trans hnone)
  have hwhole : ∀ {u s'}, Cleans K t u → BackupsLeft id nonce u s' → ∃ u left, Remains K id nonce tree t u left s' :=
    fun {u} {_} hu h => ⟨u, some, remains_whole hu hdeleting h⟩
  have hrefl : Cleans K t t := ⟨Std.Refl.refl t, fun _ _ _ _ _ _ h => h⟩
  have ht := hwhole hrefl (hleft hrefl)
  unfold completeProjectDelete
  refine Ends.bind (Ends.look (fun candidates _ _ => ?_) (fun _ _ => ht) (fun _ _ => ht) fun _ _ => ht)
  refine Ends.bind (Ends.relabel ((cleanupCandidateObjects_cleans (K := K) candidates _ t).mono
    (fun _ u hu => ?_) (fun _ u hu => hwhole (hu hp) (hleft (hu hp))) fun u hu => hwhole (hu hp) (hleft (hu hp))))
  have hu := hu hp
  have hnone : u.deletingBackups = [] := hu.trims.deletingBackupsEq.trans hnone
  have hu' := hwhole hu (hleft hu)
  refine Ends.bind (Ends.look (fun found hfound _ => ?_) (fun _ _ => hu') (fun _ _ => hu') fun _ _ => hu')
  obtain ⟨⟨⟩, -, hfound⟩ := Outcome.bind_ok.mp hfound
  cases hfound
  rw [hnone]
  refine Ends.bind (Ends.pure (Ends.bind ((removeBackups_ends hnone faults).mono (fun _ v hv => ?_)
    (fun _ _ h => hwhole hu h) fun _ h => hwhole hu h)))
  obtain ⟨⟨hsame, hsub, -, -⟩, hnone', hfree⟩ := hv
  have hremoved : ∀ left : ProjectTree → Option ProjectTree, (∀ rest, left tree = some rest → rest.Part tree) →
      ∃ u left', Remains K id nonce tree t u left' (leaveDeleting (id, nonce) left v) := by
    intro left hpart
    refine ⟨u, left, hu, hpart, ?_, ?_, ?_, hsub, ?_, ?_, fun _ => ⟨hnone', hfree⟩⟩
    · change v.projects = u.projects
      rw [hsame]
    · change v.objects = u.objects
      rw [hsame]
    · have hv : v.deleting = u.deleting := by rw [hsame]
      change v.deleting.filterMap _ = _
      rw [hv, hu.trims.deletingEq, hdeleting]
    · change v.deletingBackups.length ≤ 1
      rw [hnone']
      exact Nat.zero_le _
    · change ∀ backup ∈ v.deletingBackups, _
      rw [hnone']
      exact fun backup hbackup => absurd hbackup List.not_mem_nil
  have hpart := fun n => hremoved (rm.project n) fun rest h => rm.project_part n tree rest h
  have hgone := hremoved (fun _ => none) fun rest h => by cases h
  refine Ends.bind (Ends.gradual (fun _ => ?_) (fun n _ => hpart n) fun n _ => hpart n)
  exact Ends.atomic (fun _ => hgone) (fun _ => hgone) (fun _ _ => hgone) (fun _ => hgone) fun _ _ => hgone

/-- After the rename. -/
def Detached (K : Crates) (id nonce : Text) (s s' : Root) : Prop :=
  ∃ t tree u left, Trims K s t ∧ t.projects[id]? = some tree ∧
    Remains K id nonce tree (detachProject id nonce t) u left s'

theorem validateNewProject_plain (id : Text) : Plain (validateNewProject K rm id) := by
  unfold validateNewProject
  exact Plain.bind (Plain.look _ _ _) fun _ => Plain.bind (Plain.relabel (loadProposals_plain id)) fun _ => Plain.pure _

theorem validateNewProject_yields (hs : Sound K s) {project : PersistedProject}
    (hread : readProjectOf K s id = .ok project) : Yields (validateNewProject K rm id) s fun _ t => Trims K s t := by
  obtain ⟨tree, htree, hread⟩ := Outcome.bind_ok.mp hread
  obtain ⟨pointer, files, dir, proposals, hvalid, hdir, hload, rfl⟩ := readProject_ok.mp hread
  have htree := present_ok.mp htree
  unfold validateNewProject
  refine Yields.bind (Yields.look (a := (pointer, files)) ?_ ?_)
  · rw [htree]
    exact hvalid
  · have hdir' : s.proposalsOf id = some dir := Option.bind_eq_some_iff.mpr ⟨tree, htree, hdir⟩
    exact Yields.bind (Yields.relabel ((loadProposals_yields hs hdir' hload).mono fun _ t ht => Yields.pure ht.2.1))

/-- A deletion ends before the rename, with the project still there, or after it. -/
theorem deleteProject_ends (hs : Sound K s) (hdeleting : s.deleting = []) {project : PersistedProject}
    (hread : readProjectOf K s id = .ok project) (faults : DeleteProjectStep → Fault.Outcome) :
    ((deleteProject K rm id nonce faults s).2.proposalsOf id).isSome = true ∨
      Detached K id nonce s (deleteProject K rm id nonce faults s).2 := by
  suffices h : Ends (deleteProject K rm id nonce) faults s
      (fun _ s' => (s'.proposalsOf id).isSome = true ∨ Detached K id nonce s s')
      (fun _ s' => (s'.proposalsOf id).isSome = true ∨ Detached K id nonce s s')
      (fun s' => (s'.proposalsOf id).isSome = true ∨ Detached K id nonce s s') by
    unfold Ends at h
    split at h <;> next heq => rw [heq]; exact h
  obtain ⟨tree, htree, hread'⟩ := Outcome.bind_ok.mp hread
  obtain ⟨pointer, files, dir, proposals, -, hdir, -, -⟩ := readProject_ok.mp hread'
  have hdir' : s.proposalsOf id = some dir := Option.bind_eq_some_iff.mpr ⟨tree, present_ok.mp htree, hdir⟩
  have hsteady : ∀ s', Steady K s s' → (s'.proposalsOf id).isSome = true := by
    intro s' h
    have heq := (h hs.published).1 id
    rw [hdir', Option.map_some] at heq
    obtain ⟨dir', hdir', -⟩ := Option.map_eq_some_iff.mp heq
    rw [hdir']
    rfl
  have hwithin := validateNewProject_within (K := K) rm id
  unfold deleteProject
  refine Ends.bind (Ends.relabel ((((validateNewProject_yields hs hread).within hwithin).ends_within
    (validateNewProject_plain id) hwithin).mono (fun _ t ht => ?_) (fun _ _ h => .inl (hsteady _ h))
    fun _ h => .inl (hsteady _ h)))
  obtain ⟨htrims, hsteady'⟩ := ht
  have ht := hsteady t hsteady'
  obtain ⟨tree', htree', -⟩ := htrims.found (present_ok.mp htree)
  refine Ends.bind (Ends.look (fun _ hnone _ => ?_) (fun _ _ => .inl ht) (fun _ _ => .inl ht) fun _ _ => .inl ht)
  have hnone := ensure_ok.mp hnone
  have hsound : Sound K (detachProject id nonce t) := sound_detachProject (hs.shrinks htrims.toShrinks) htree'
  have hlist : (detachProject id nonce t).deleting = [((id, nonce), tree')] := by
    change (t.projects[id]?.map fun tree => ((id, nonce), tree)).toList ++ t.deleting = _
    rw [htree', htrims.deletingEq, hdeleting]
    rfl
  have hdetached : ∀ s', (∃ u left, Remains K id nonce tree' (detachProject id nonce t) u left s') →
      (s'.proposalsOf id).isSome = true ∨ Detached K id nonce s s' := by
    rintro s' ⟨u, left, h⟩
    exact .inr ⟨t, tree', u, left, htrims, htree', h⟩
  have hleft : BackupsLeft id nonce (detachProject id nonce t) (detachProject id nonce t) := backupsLeft_refl hnone
  have hrenamed := hdetached _ ⟨_, _, remains_whole ⟨Std.Refl.refl _, fun _ _ _ _ _ _ h => h⟩ hlist hleft⟩
  refine Ends.bind (Ends.atomic (fun _ => ?_) (fun _ => .inl ht) (fun _ _ => hrenamed) (fun _ => .inl ht)
    fun _ _ => hrenamed)
  refine Ends.bind (Ends.atomic (fun _ => ?_) (fun _ => hrenamed) (fun _ _ => hrenamed) (fun _ => hrenamed)
    fun _ _ => hrenamed)
  exact Ends.relabel ((completeProjectDelete_ends hsound.published hnone hlist _).mono (fun _ => hdetached)
    (fun _ => hdetached) hdetached)

/-! ## What the next open makes of it -/

/-- The next open gives back every other project, and leaves nothing of this one. -/
def ResumesDeletion (K : Crates) (rm : Remover) (id : Text) (projects : List PersistedProject) (s' : Root) : Prop :=
  Yields (openRoot K rm) s' fun loaded t => loaded = projects.filter (fun project => project.id != id) ∧
    id ∉ t.projects ∧ t.deleting = [] ∧ t.deletingBackups = [] ∧ ∀ backup ∈ t.backups, backup.projectId ≠ id

/-- What is left of the project, if anything is, passes its checks with the objects that are left, and the backups in
their removal are whole. -/
def RecoverableDeletion (K : Crates) (s' : Root) : Prop :=
  (∀ entry ∈ s'.deleting,
    preflightProject K s'.objects entry.1.1 entry.2 true = .ok () ∧ validateStableProject entry.2 = .ok ()) ∧
    ∀ backup ∈ s'.deletingBackups, backup.intact = true

theorem readProjectOf_id {project : PersistedProject} (h : readProjectOf K s id = .ok project) : project.id = id := by
  obtain ⟨tree, -, h⟩ := Outcome.bind_ok.mp h
  obtain ⟨pointer, files, dir, proposals, -, -, -, rfl⟩ := readProject_ok.mp h
  rfl

theorem keys_detachProject : (detachProject id nonce s).projects.keys = s.projects.keys.filter (· != id) := by
  refine keys_eq (Std.ExtTreeMap.ordered_keys.filter _) fun other => ?_
  change other ∈ s.projects.erase id ↔ _
  rw [Std.ExtTreeMap.mem_erase, List.mem_filter, Std.ExtTreeMap.mem_keys, bne_iff_ne, ne_eq,
    Std.LawfulEqCmp.compare_eq_iff_eq, and_comm, eq_comm]

theorem loads_detachProject {projects : List PersistedProject} (h : Loads K s projects) :
    Loads K (detachProject id nonce s) (projects.filter fun project => project.id != id) := by
  unfold Loads at h ⊢
  rw [keys_detachProject]
  have hfilter := Outcome.mapM_filter (p := (· != id)) (q := fun project : PersistedProject => project.id != id) h
    fun other _ project hread => by rw [readProjectOf_id hread]
  refine Outcome.mapM_imp hfilter fun other hother project hread => ?_
  obtain ⟨-, hne⟩ := List.mem_filter.mp hother
  obtain ⟨tree, htree, hread⟩ := Outcome.bind_ok.mp hread
  refine Outcome.bind_ok.mpr ⟨tree, present_ok.mpr ?_, hread⟩
  change (s.projects.erase id)[other]? = some tree
  rw [Std.ExtTreeMap.getElem?_erase, if_neg]
  · exact present_ok.mp htree
  · rw [Std.LawfulEqCmp.compare_eq_iff_eq]
    rintro rfl
    simp at hne

theorem stable_of_resumes {W : List PersistedProject → Root → Prop} (h : Yields (openRoot K rm) s W)
    (hdeleting : s.deleting = [((id, nonce), tree)]) : validateStableProject tree = .ok () := by
  obtain ⟨⟨⟩, -, h⟩ := Yields.of_look h
  have h := Yields.of_bind h
  obtain ⟨names, hnames, h⟩ := Yields.of_look (h.mono fun _ _ _ => trivial : Yields _ s fun _ _ => True)
  obtain ⟨⟨⟩, -, hnames⟩ := Outcome.bind_ok.mp hnames
  cases hnames
  rw [hdeleting] at h
  obtain ⟨candidates, hread, -⟩ := Yields.of_look (Yields.of_bind (Yields.of_bind h))
  obtain ⟨tree', htree', hread⟩ := Outcome.bind_ok.mp hread
  obtain ⟨⟨⟩, hstable, -⟩ := Outcome.bind_ok.mp hread
  rw [hdeleting] at htree'
  have heq := present_ok.mp htree'
  rw [List.lookup_cons_self] at heq
  cases heq
  exact hstable

/-- A root in which a deletion ended is sound, as far as its published projects go. -/
theorem Remains.sound {s' : Root} {left : ProjectTree → Option ProjectTree} (h : Remains K id nonce tree t u left s')
    (ht : Sound K t) (hdeleting : t.deleting = [((id, nonce), tree)]) : Sound K s' := by
  have hu := ht.shrinks h.cleans.trims.toShrinks
  have hold : ∀ file, s'.Mentions K file → u.Mentions K file := by
    rintro file (⟨other, tree', htree', hfile⟩ | ⟨entry, hentry, hfile⟩)
    · exact .inl ⟨other, tree', h.projects ▸ htree', hfile⟩
    · rw [h.deleting] at hentry
      obtain ⟨old, hold, hentry⟩ := List.mem_filterMap.mp hentry
      cases List.mem_singleton.mp hold
      obtain ⟨rest, hrest, rfl⟩ := Option.map_eq_some_iff.mp ((if_pos rfl).symm.trans hentry)
      refine .inr ⟨((id, nonce), tree), ?_, (h.part rest hrest).mentions hfile⟩
      rw [h.cleans.trims.deletingEq, hdeleting]
      exact List.mem_singleton_self _
  have hlength : s'.deleting.length ≤ u.deleting.length := by
    rw [h.deleting, h.cleans.trims.deletingEq, hdeleting]
    exact List.length_filterMap_le _ _
  refine ⟨fun other tree' htree' => ?_, h.projects ▸ hu.count, ?_, fun backup hbackup => hu.backups backup
    (h.backups.subset hbackup), Nat.le_trans h.backups.length_le hu.backupCount,
    fun f g hf hg => hu.agree f g (hold f hf) (hold g hg), fun f hf => ?_⟩
  · rw [h.objects]
    exact hu.projects other tree' (h.projects ▸ htree')
  · rw [h.projects]
    exact Nat.le_trans (Nat.add_le_add_left hlength _) hu.entries
  · rw [h.objects]
    exact hu.loose f (hold f hf)

theorem Remains.loads {s' : Root} {left : ProjectTree → Option ProjectTree} (h : Remains K id nonce tree t u left s')
    {projects : List PersistedProject} (hloads : Loads K t projects) : Loads K s' projects := by
  unfold Loads
  rw [h.projects, h.cleans.trims.keys]
  refine Outcome.mapM_imp hloads fun other _ project hread => ?_
  have hread := h.cleans.trims.readProject hread
  unfold readProjectOf at hread ⊢
  rw [h.projects, h.objects]
  exact hread

theorem Remains.pending {s' : Root} {left : ProjectTree → Option ProjectTree} (h : Remains K id nonce tree t u left s')
    (ht : Sound K t) (hr : RecoverableDeletion K s') : Pending K s' := by
  have hnames : ∀ entry ∈ s'.deleting, entry.1 = (id, nonce) := by
    intro entry hentry
    rw [h.deleting] at hentry
    obtain ⟨old, hold, hentry⟩ := List.mem_filterMap.mp hentry
    cases List.mem_singleton.mp hold
    obtain ⟨rest, -, rfl⟩ := Option.map_eq_some_iff.mp ((if_pos rfl).symm.trans hentry)
    rfl
  refine ⟨?_, hr.1, fun backup hbackup => ⟨hr.2 backup hbackup, fun hnil => ?_, fun entry hentry => ?_⟩, ?_⟩
  · rw [h.deleting, List.filterMap_cons]
    split
    · exact List.nodup_nil
    · exact List.nodup_singleton _
  · cases hleft : left tree with
    | none =>
      rw [(h.gone hleft).1] at hbackup
      exact List.not_mem_nil hbackup
    | some rest =>
      have hentry : leaveEntry (id, nonce) left ((id, nonce), tree) = some ((id, nonce), rest) := by
        unfold leaveEntry
        rw [if_pos rfl, hleft]
        rfl
      rw [h.deleting, List.filterMap_cons, hentry] at hnil
      cases hnil
  · rw [hnames entry hentry]
    exact h.named backup hbackup
  · have hbackups := (ht.shrinks h.cleans.trims.toShrinks).backupCount
    have hle := h.backups.length_le
    have hone := h.one
    unfold maxRecoveryBackups maxPersistedProjects at *
    omega

theorem resumes_of_detached (hs : Sound K s) (hdeleting : s.deleting = []) {projects : List PersistedProject}
    (hloads : Loads K s projects) {s' : Root} (h : Detached K id nonce s s') :
    ResumesDeletion K rm id projects s' ↔ RecoverableDeletion K s' := by
  obtain ⟨t, tree, u, left, htrims, htree, hremains⟩ := h
  have ht : Sound K (detachProject id nonce t) := sound_detachProject (hs.shrinks htrims.toShrinks) htree
  have hlist : (detachProject id nonce t).deleting = [((id, nonce), tree)] := by
    change (t.projects[id]?.map fun tree => ((id, nonce), tree)).toList ++ t.deleting = _
    rw [htree, htrims.deletingEq, hdeleting]
    rfl
  constructor
  · intro hresumes
    obtain ⟨⟨⟩, hpreflight, -⟩ := Yields.of_look hresumes
    obtain ⟨hintact, -, -, -, hpending, -, -⟩ := preflight_ok.mp hpreflight
    refine ⟨fun entry hentry => ⟨hpending entry hentry, ?_⟩, hintact⟩
    have hdeleting' := hremains.deleting
    rw [List.filterMap_cons] at hdeleting'
    split at hdeleting'
    · rw [hdeleting'] at hentry
      exact absurd hentry List.not_mem_nil
    · rename_i left' hleft'
      obtain ⟨rest, -, rfl⟩ := Option.map_eq_some_iff.mp ((if_pos rfl).symm.trans hleft')
      rw [List.filterMap_nil] at hdeleting'
      rw [hdeleting'] at hentry
      cases List.mem_singleton.mp hentry
      exact stable_of_resumes hresumes hdeleting'
  · intro hrecoverable
    have hloads' : Loads K t projects := by
      unfold Loads
      rw [htrims.keys]
      exact Outcome.mapM_imp hloads fun other _ project => htrims.readProject
    unfold ResumesDeletion
    refine (openRoot_yields (hremains.sound ht hlist) (hremains.pending ht hrecoverable)
      (hremains.loads (loads_detachProject hloads'))).mono fun loaded v hv => ?_
    obtain ⟨hloaded, hkeys, -, hnone, hnone', hsub, hgone⟩ := hv
    refine ⟨hloaded, ?_, hnone, hnone', ?_⟩
    · rw [← Std.ExtTreeMap.mem_keys, hkeys, hremains.projects, hremains.cleans.trims.keys, keys_detachProject]
      intro hmem
      have := (List.mem_filter.mp hmem).2
      simp at this
    · cases hleft : left tree with
      | none => exact fun backup hbackup => (hremains.gone hleft).2 backup (hsub.subset hbackup)
      | some rest =>
        refine hgone ((id, nonce), rest) ?_
        rw [hremains.deleting, List.mem_filterMap]
        refine ⟨_, List.mem_cons_self, ?_⟩
        unfold leaveEntry
        rw [if_pos rfl, hleft]
        rfl

/-- The deletion of the project has started. -/
def StartedDeletion (id : Text) (s s' : Root) : Prop := id ∈ s.projects ∧ id ∉ s'.projects

theorem deleteProject_detached (hs : Sound K s) (hdeleting : s.deleting = []) {projects : List PersistedProject}
    (hloads : Loads K s projects) {faults : DeleteProjectStep → Fault.Outcome}
    (hstarted : StartedDeletion id s (deleteProject K rm id nonce faults s).2) :
    Detached K id nonce s (deleteProject K rm id nonce faults s).2 := by
  obtain ⟨project, -, hread⟩ := Outcome.exists_of_mapM hloads (Std.ExtTreeMap.mem_keys.mpr hstarted.1)
  refine (deleteProject_ends hs hdeleting hread faults).resolve_left fun hthere => hstarted.2 ?_
  obtain ⟨dir, hdir⟩ := Option.isSome_iff_exists.mp hthere
  obtain ⟨tree, htree, -⟩ := proposalsOf_eq_some hdir
  exact Std.ExtTreeMap.mem_iff_isSome_getElem?.mpr (Option.isSome_iff_exists.mpr ⟨tree, htree⟩)

/-! ## A deletion that stops before it removes the tree -/

/-- Everything is done, up to the removal of the tree. -/
def deletionStopsAt (n : ℕ) : DeleteProjectStep → Fault.Outcome
  | .complete .removeTree => .stopped n
  | _ => .done

/-- Of a root with one project and no backups, the objects of its revisions are gone then. -/
theorem deleteProject_stops (hs : Sound K s) (hp : Pending K s) (hdeleting : s.deleting = []) (hbackups : s.backups = [])
    {project : PersistedProject} (hread : readProjectOf K s id = .ok project) (hkeys : s.projects.keys = [id]) (n : ℕ) :
    id ∉ (deleteProject K rm id nonce (deletionStopsAt n) s).2.projects ∧
      ∃ tree tree', s.projects[id]? = some tree ∧ TreeTrims K tree tree' ∧
        (deleteProject K rm id nonce (deletionStopsAt n) s).2.deleting =
          [((id, nonce), tree')].filterMap (leaveEntry (id, nonce) (rm.project n)) ∧
        ∀ revisions, tree.revisions = some revisions → ∀ manifest ∈ revisions, ∀ file ∈ manifest.files,
          (deleteProject K rm id nonce (deletionStopsAt n) s).2.objects[file.sha256]? = none := by
  obtain ⟨tree, htree, -⟩ := Outcome.bind_ok.mp hread
  have htree := present_ok.mp htree
  suffices h : Ends (deleteProject K rm id nonce) (deletionStopsAt n) s (fun _ _ => False) (fun _ _ => False) fun s' =>
      id ∉ s'.projects ∧ ∃ tree', TreeTrims K tree tree' ∧
        s'.deleting = [((id, nonce), tree')].filterMap (leaveEntry (id, nonce) (rm.project n)) ∧
        ∀ revisions, tree.revisions = some revisions → ∀ manifest ∈ revisions, ∀ file ∈ manifest.files,
          s'.objects[file.sha256]? = none by
    unfold Ends at h
    split at h
    · exact h.elim
    · exact h.elim
    · next heq =>
      rw [heq]
      obtain ⟨hgone, tree', htrims, hrest⟩ := h
      exact ⟨hgone, tree, tree', htree, htrims, hrest⟩
  have hnone : s.deletingBackups = [] := List.eq_nil_iff_forall_not_mem.mpr fun backup hbackup =>
    (hp.backups backup hbackup).2.1 hdeleting
  unfold deleteProject
  refine Ends.bind (Ends.relabel ((validateNewProject_yields hs hread).mono fun _ t htrims => ?_).ends_smooth)
  obtain ⟨tree', htree', htreeTrims⟩ := htrims.found htree
  have ht := hs.shrinks htrims.toShrinks
  have hnone : t.deletingBackups = [] := htrims.deletingBackupsEq.trans hnone
  refine Ends.bind (Ends.look_done rfl (ensure_ok.mpr hnone) ?_)
  refine Ends.bind (Ends.gradual_done rfl (Ends.bind (Ends.gradual_done rfl ?_)))
  have hu : Sound K (detachProject id nonce t) := sound_detachProject ht htree'
  have hlist : (detachProject id nonce t).deleting = [((id, nonce), tree')] := by
    change (t.projects[id]?.map fun tree => ((id, nonce), tree)).toList ++ t.deleting = _
    rw [htree', htrims.deletingEq, hdeleting]
    rfl
  have hlookup : (detachProject id nonce t).deleting.lookup (id, nonce) = some tree' := by
    rw [hlist]
    exact List.lookup_cons_self
  obtain ⟨-, ⟨⟨pointer, files⟩, hvalid⟩, -⟩ := ht.projects id tree' htree'
  obtain ⟨revisions, manifest, hfound⟩ := validateProject_ok.mp hvalid
  have hpreflight : preflightProject K t.objects id tree' true = .ok () := by
    have := ht.preflightProject htree'
    unfold Root.preflightProject at this ⊢
    rw [hfound.current] at this ⊢
    exact this
  obtain ⟨candidates, hcandidates, hsized, hnamed⟩ := deleting_reads hu hlookup hpreflight hfound.stable
  have hempty : collectActiveObjectBindings K (detachProject id nonce t) = .ok ∅ := by
    have hkeys' : (detachProject id nonce t).projects.keys = [] := by
      rw [keys_detachProject, htrims.keys, hkeys]
      simp
    have htoList : (detachProject id nonce t).projects.toList = [] := by
      rw [← Std.ExtTreeMap.map_fst_toList_eq_keys] at hkeys'
      exact List.map_eq_nil_iff.mp hkeys'
    refine Outcome.bind_ok.mpr ⟨(), boundedDirectoryEntries_ok.mpr hu.entries,
      Outcome.bind_ok.mpr ⟨(), boundedDirectoryEntries_ok.mpr hu.count, ?_⟩⟩
    rw [htoList]
    rfl
  unfold completeProjectDelete
  refine Ends.relabel (Ends.bind (Ends.look_done rfl hcandidates ?_))
  refine Ends.bind (Ends.relabel ((cleanupCandidateObjects_removes hu hsized hempty).mono fun _ v hv => ?_).ends_smooth)
  obtain ⟨hclean, hremoved⟩ := hv
  have hnone' : v.deletingBackups = [] := hclean.trims.deletingBackupsEq.trans hnone
  have hbackups' : v.backups = [] := hclean.trims.backupsEq.trans (htrims.backupsEq.trans hbackups)
  have hlooked : (do
      boundedDirectoryEntries (v.backups.length + v.deletingBackups.length) (maxRecoveryBackups + maxPersistedProjects)
      return (v.deletingBackups, v.backups) : Except StorageError _) = .ok ([], []) := by
    rw [hnone', hbackups']
    rfl
  refine Ends.bind (Ends.look_done rfl hlooked (Ends.bind (Ends.pure (Ends.bind (Ends.pure ?_)))))
  refine Ends.bind (Ends.gradual_stopped rfl ⟨?_, tree', htreeTrims, ?_, fun revisions hrevisions manifest hmanifest file hfile => ?_⟩)
  · change id ∉ v.projects
    rw [hclean.1.1, ← Std.ExtTreeMap.mem_keys]
    change id ∉ (detachProject id nonce t).projects.keys
    rw [keys_detachProject, htrims.keys, hkeys]
    simp
  · change v.deleting.filterMap _ = _
    rw [hclean.trims.deletingEq, hlist]
  · obtain ⟨f, rfl, -⟩ := htreeTrims
    exact hremoved _ _ (hnamed revisions hrevisions manifest hmanifest file hfile) Std.ExtTreeMap.getElem?_empty

end

theorem sample_read : readProjectOf sampleCrates sampleRoot sampleRevision.projectId = .ok samplePersisted :=
  Outcome.bind_ok.mpr ⟨_, present_ok.mpr sample_project, readProject_ok.mpr ⟨_, _, _, _, sample_valid, rfl,
    sample_retained, rfl⟩⟩

theorem sample_startedDeletion : StartedDeletion sampleRevision.projectId sampleRoot (deleteProject sampleCrates
    sampleRemover sampleRevision.projectId (List.replicate 32 '0') (deletionStopsAt 0) sampleRoot).2 := by
  refine ⟨Std.ExtTreeMap.mem_iff_isSome_getElem?.mpr (by rw [sample_project]; rfl), ?_⟩
  exact (deleteProject_stops sample_sound sample_pending rfl rfl sample_read sample_keys 0).1

end Root
end LpStudio.Storage
