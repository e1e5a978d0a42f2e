import LpStudio.Lib.Run
import LpStudio.Storage.Deletion

/-! # Clean-up of objects is safe
What the retained revisions and proposals of the published projects name is reachable for every clean-up, and a
clean-up removes only what is not reachable. So an operation, wherever it ends, keeps the objects named by what
survives it.
-/
namespace LpStudio.Storage
open Str Fault Fault.Program

/-- A retained revision or a retained proposal of the project names the file. -/
def ProjectTree.Names (K : Crates) (tree : ProjectTree) (file : StoredFile) : Prop :=
  (∃ revisions, tree.revisions = some revisions ∧ ∃ manifest ∈ revisions, file ∈ manifest.files) ∨
    ∃ dir, tree.proposals = some dir ∧ ∃ entry ∈ dir.retained, ∃ site, entry.2.site = some site ∧
      ∃ f ∈ site.files, file = store K f

namespace Root

/-- Every project has its `current.json`. -/
def Published (s : Root) : Prop := ∀ (id : Text) (tree : ProjectTree), s.projects[id]? = some tree → tree.current.isSome

/-- The bindings cover what the projects name. -/
def Covers (K : Crates) (bindings : ObjectBindings) (s : Root) : Prop :=
  ∀ (id : Text) (tree : ProjectTree), s.projects[id]? = some tree →
    ∀ file, tree.Names K file → bindings[file.sha256]? = some file.byteLength

section
variable {K : Crates} {bindings bindings' : ObjectBindings}

theorem collectRevisionBindings_ok {revisions : List RevisionManifest}
    (h : collectRevisionBindings K revisions bindings = .ok bindings') :
    (∀ manifest ∈ revisions, ∀ file ∈ manifest.files, bindings'[file.sha256]? = some file.byteLength) ∧
      Keeps bindings bindings' := by
  simp only [collectRevisionBindings, Outcome.bind_ok] at h
  obtain ⟨⟨⟩, -, ⟨⟩, -, h⟩ := h
  refine foldlM_keeps (P := fun manifest b => ∀ file ∈ manifest.files, b[file.sha256]? = some file.byteLength)
    (fun manifest b b' hb hkeeps file hfile => hkeeps _ _ (hb file hfile)) (fun manifest b b' hb => ?_) h
  obtain ⟨⟨⟩, -, hb⟩ := Outcome.bind_ok.mp hb
  exact extendObjectBindings_ok hb

theorem collectProposalBindings_ok {trees : List (ProposalTree × Bool)}
    (h : collectProposalBindings K trees bindings = .ok bindings') :
    (∀ entry ∈ trees, ∀ site, entry.1.site = some site →
      ∀ file ∈ site.files, bindings'[K.sha256 file.2]? = some file.2.length) ∧ Keeps bindings bindings' := by
  refine foldlM_keeps (P := fun (entry : ProposalTree × Bool) b => ∀ site, entry.1.site = some site →
    ∀ file ∈ site.files, b[K.sha256 file.2]? = some file.2.length)
    (fun entry b b' hb hkeeps site hsite file hfile => hkeeps _ _ (hb site hsite file hfile))
    (fun entry b b' hb => ?_) h
  obtain ⟨inserted, hinserted, hb⟩ := Outcome.bind_ok.mp hb
  obtain ⟨hnew, hkeeps⟩ := insertBindings_ok hb
  exact ⟨fun site hsite file hfile => hnew _ _ (proposalSiteObjectBindings_ok hinserted hsite file hfile), hkeeps⟩

theorem collectProjectBindings_ok {id : Text} {tree : ProjectTree}
    (h : collectProjectBindings K id tree bindings = .ok bindings') :
    (tree.current.isSome → ∀ file, tree.Names K file → bindings'[file.sha256]? = some file.byteLength) ∧
      Keeps bindings bindings' := by
  obtain ⟨⟨⟩, -, h⟩ := Outcome.bind_ok.mp h
  split at h
  · rename_i hcurrent
    split at h
    · cases h
      refine ⟨fun hsome => ?_, Keeps.refl⟩
      rw [hcurrent] at hsome
      cases hsome
    · cases h
  · rename_i pointer hcurrent
    simp only [Outcome.bind_ok, present_ok] at h
    obtain ⟨⟨⟩, -, ⟨⟩, -, revisions, hrevisions, manifest, -, middle, hmiddle, dir, hdir, h⟩ := h
    simp only [collectActiveProposalBindings, Outcome.bind_ok] at h
    obtain ⟨⟨⟩, -, h⟩ := h
    obtain ⟨hmanifests, hkeeps⟩ := collectRevisionBindings_ok hmiddle
    obtain ⟨hsites, hkeeps'⟩ := collectProposalBindings_ok h
    refine ⟨fun _ file hnames => ?_, hkeeps.trans hkeeps'⟩
    rcases hnames with ⟨revisions', heq, manifest, hmanifest, hfile⟩ | ⟨dir', heq, entry, hentry, site, hsite, f, hf, rfl⟩
    · rw [hrevisions] at heq
      cases heq
      exact hkeeps' _ _ (hmanifests manifest hmanifest file hfile)
    · rw [hdir] at heq
      cases heq
      exact hsites (entry.2, true) (List.mem_map_of_mem hentry) site hsite f hf

/-- What a clean-up takes for reachable covers what the published projects name. -/
theorem collectActiveObjectBindings_covers {s : Root} (hs : Published s)
    (h : collectActiveObjectBindings K s = .ok bindings) : Covers K bindings s := by
  simp only [collectActiveObjectBindings, Outcome.bind_ok] at h
  obtain ⟨⟨⟩, -, ⟨⟩, -, h⟩ := h
  have hall := (foldlM_keeps (P := fun entry b => entry.2.current.isSome →
    ∀ file, entry.2.Names K file → b[file.sha256]? = some file.byteLength)
    (fun entry b b' hb hkeeps hcurrent file hnames => hkeeps _ _ (hb hcurrent file hnames))
    (fun entry b b' hb => collectProjectBindings_ok hb) h).1
  intro id tree htree file hnames
  exact hall (id, tree) (Std.ExtTreeMap.mem_toList_iff_getElem?_eq_some.mpr htree) (hs id tree htree) file hnames

end

/-! ## What operations keep -/

/-- The project after an operation and before it: the same revisions, and no new proposals. -/
structure ProjectLess (tree' tree : ProjectTree) : Prop where
  current : tree'.current = tree.current
  revisions : tree'.revisions = tree.revisions
  proposals : ∀ dir', tree'.proposals = some dir' → ∃ dir, tree.proposals = some dir ∧ dir'.retained ⊆ dir.retained

/-- Every project was there before, with all it names, and what it names is kept. -/
structure Safe (K : Crates) (s s' : Root) : Prop where
  trees : ∀ (id : Text) (tree' : ProjectTree), s'.projects[id]? = some tree' →
    ∃ tree, s.projects[id]? = some tree ∧ ProjectLess tree' tree
  objects : ∀ (id : Text) (tree' : ProjectTree), s'.projects[id]? = some tree' → ∀ file, tree'.Names K file →
    ∀ bytes, s.objects[file.sha256]? = some bytes → s'.objects[file.sha256]? = some bytes

/-- The retained proposals of every project are the same. -/
def SameRetained (s s' : Root) : Prop :=
  ∀ id, (s'.proposalsOf id).map (·.retained) = (s.proposalsOf id).map (·.retained)

section
variable {K : Crates} {s s' s'' : Root}

theorem less_refl (tree : ProjectTree) : ProjectLess tree tree :=
  ⟨rfl, rfl, fun dir h => ⟨dir, h, fun _ h => h⟩⟩

theorem names_of_less {tree tree' : ProjectTree} {file : StoredFile} (h : ProjectLess tree' tree)
    (hnames : tree'.Names K file) : tree.Names K file := by
  rcases hnames with ⟨revisions, heq, hfile⟩ | ⟨dir', heq, entry, hentry, hfile⟩
  · exact .inl ⟨revisions, h.revisions ▸ heq, hfile⟩
  · obtain ⟨dir, hdir, hsub⟩ := h.proposals dir' heq
    exact .inr ⟨dir, hdir, entry, hsub hentry, hfile⟩

theorem Safe.refl (s : Root) : Safe K s s :=
  ⟨fun _ tree h => ⟨tree, h, less_refl tree⟩, fun _ _ _ _ _ _ h => h⟩

theorem Safe.trans (h : Safe K s s') (h' : Safe K s' s'') : Safe K s s'' := by
  refine ⟨fun id tree'' htree => ?_, fun id tree'' htree file hnames bytes hbytes => ?_⟩
  · obtain ⟨tree', htree', hless'⟩ := h'.trees id tree'' htree
    obtain ⟨tree, htree, hless⟩ := h.trees id tree' htree'
    refine ⟨tree, htree, hless'.current.trans hless.current, hless'.revisions.trans hless.revisions, ?_⟩
    intro dir'' hdir''
    obtain ⟨dir', hdir', hsub'⟩ := hless'.proposals dir'' hdir''
    obtain ⟨dir, hdir, hsub⟩ := hless.proposals dir' hdir'
    exact ⟨dir, hdir, List.Subset.trans hsub' hsub⟩
  · obtain ⟨tree', htree', hless'⟩ := h'.trees id tree'' htree
    exact h'.objects id tree'' htree file hnames bytes
      (h.objects id tree' htree' file (names_of_less hless' hnames) bytes hbytes)

theorem Safe.published (h : Safe K s s') (hs : Published s) : Published s' := by
  intro id tree' htree'
  obtain ⟨tree, htree, hless⟩ := h.trees id tree' htree'
  rw [hless.current]
  exact hs id tree htree

theorem Safe.covers {bindings : ObjectBindings} (h : Safe K s s') (hs : Covers K bindings s) :
    Covers K bindings s' := by
  intro id tree' htree' file hnames
  obtain ⟨tree, htree, hless⟩ := h.trees id tree' htree'
  exact hs id tree htree file (names_of_less hless hnames)

/-- From published projects, safe. -/
def Careful (K : Crates) (s s' : Root) : Prop := Published s → Safe K s s'

/-- Moreover the retained proposals stay. -/
def Steady (K : Crates) (s s' : Root) : Prop := Published s → SameRetained s s' ∧ Safe K s s'

instance : IsPreorder Root (Careful K) where
  refl s _ := Safe.refl s
  trans _ _ _ h h' hs := (h hs).trans (h' ((h hs).published hs))

instance : IsPreorder Root (Steady K) where
  refl s _ := ⟨fun _ => rfl, Safe.refl s⟩
  trans _ _ _ h h' hs := by
    obtain ⟨hsame, hsafe⟩ := h hs
    obtain ⟨hsame', hsafe'⟩ := h' (hsafe.published hs)
    exact ⟨fun id => (hsame' id).trans (hsame id), hsafe.trans hsafe'⟩

/-! ## Steps -/

/-- An object that is not reachable may go. -/
theorem safe_eraseObject {bindings : ObjectBindings} {digest : Text} (hs : Covers K bindings s)
    (hdigest : bindings[digest]? = none) : Safe K s (eraseObject digest s) := by
  refine ⟨fun _ tree h => ⟨tree, h, less_refl tree⟩, fun id tree htree file hnames bytes hbytes => ?_⟩
  have hne : ¬ compare digest file.sha256 = .eq := by
    intro heq
    rw [Std.LawfulEqCmp.eq_of_compare heq, hs id tree htree file hnames] at hdigest
    cases hdigest
  change (s.objects.erase digest)[file.sha256]? = some bytes
  rw [Std.ExtTreeMap.getElem?_erase, if_neg hne, hbytes]

/-- A change to a directory `proposals` that takes no proposal in. -/
theorem safe_modifyProposals {id : Text} {f : ProposalsDirectory → ProposalsDirectory}
    (hf : ∀ dir, (f dir).retained ⊆ dir.retained) : Safe K s (modifyProposals id f s) := by
  refine ⟨fun other tree' htree' => ?_, fun _ _ _ _ _ _ h => h⟩
  change (s.projects.modify id _)[other]? = some tree' at htree'
  rw [Std.ExtTreeMap.getElem?_modify] at htree'
  split at htree'
  · rename_i heq
    rw [Std.LawfulEqCmp.eq_of_compare heq, Option.map_eq_some_iff] at htree'
    obtain ⟨tree, htree, rfl⟩ := htree'
    refine ⟨tree, htree, rfl, rfl, fun dir' hdir' => ?_⟩
    obtain ⟨dir, hdir, rfl⟩ := Option.map_eq_some_iff.mp hdir'
    exact ⟨dir, hdir, hf dir⟩
  · exact ⟨tree', htree', less_refl tree'⟩

theorem sameRetained_modifyProposals {id : Text} {f : ProposalsDirectory → ProposalsDirectory}
    (hf : ∀ dir, (f dir).retained = dir.retained) : SameRetained s (modifyProposals id f s) := by
  intro other
  change (((s.projects.modify id _)[other]?).bind (·.proposals)).map (·.retained) = _
  rw [Std.ExtTreeMap.getElem?_modify]
  split
  · rename_i heq
    rw [Std.LawfulEqCmp.eq_of_compare heq]
    unfold proposalsOf
    cases s.projects[other]? with
    | none => rfl
    | some tree => cases hproposals : tree.proposals with
      | none => simp [hproposals]
      | some dir => simp [hproposals, hf]
  · rfl

theorem steady_modifyProposals {id : Text} {f : ProposalsDirectory → ProposalsDirectory}
    (hf : ∀ dir, (f dir).retained = dir.retained) : Steady K s (modifyProposals id f s) :=
  fun _ => ⟨sameRetained_modifyProposals hf, safe_modifyProposals fun dir => by rw [hf dir]; exact fun _ h => h⟩

theorem steady_leaveStaging {id : Text} {name : StagingName} {left : ProposalTree → Option ProposalTree} :
    Steady K s (leaveStaging id name left s) :=
  steady_modifyProposals fun _ => rfl

/-! ## Clean-ups -/

/-- While the bindings cover what is named, steady. -/
def SteadyCovered (K : Crates) (bindings : ObjectBindings) (s s' : Root) : Prop :=
  Covers K bindings s → SameRetained s s' ∧ Safe K s s'

instance {bindings : ObjectBindings} : IsPreorder Root (SteadyCovered K bindings) where
  refl s _ := ⟨fun _ => rfl, Safe.refl s⟩
  trans _ _ _ h h' hs := by
    obtain ⟨hsame, hsafe⟩ := h hs
    obtain ⟨hsame', hsafe'⟩ := h' (hsafe.covers hs)
    exact ⟨fun id => (hsame' id).trans (hsame id), hsafe.trans hsafe'⟩

theorem cleanupCandidateObject_within {bindings : ObjectBindings} (candidate : Text × ℕ) :
    Within (SteadyCovered K bindings) (cleanupCandidateObject K bindings candidate) := by
  unfold cleanupCandidateObject
  split
  · split
    · exact Within.throw _
    · exact Within.pure _
  · rename_i hnone
    unfold removeExactCandidateObject
    refine Within.bind (Within.look _ _ _) fun found => ?_
    split
    · refine Within.bind (Within.atomic fun s hs => ?_) fun _ => Within.atomic fun s hs => ?_
      · exact ⟨fun _ => rfl, safe_eraseObject hs hnone⟩
      · exact ⟨fun _ => rfl, Safe.refl s⟩
    · exact Within.pure _

theorem cleanupCandidateObjects_within (candidates : ObjectBindings) :
    Within (Steady K) (cleanupCandidateObjects K candidates) := by
  unfold cleanupCandidateObjects
  split
  · exact Within.pure _
  · intro faults s
    have hrefl := Std.Refl.refl (r := Steady K) s
    refine Ends.bind (Ends.look (fun reachable hreachable _ => ?_) (fun _ _ => hrefl) (fun _ _ => hrefl)
      fun _ _ => hrefl)
    have hloop : Within (SteadyCovered K reachable)
        (candidates.toList.forM (cleanupCandidateObject K reachable)) :=
      Within.forM fun candidate _ => cleanupCandidateObject_within candidate
    have hsteady : ∀ s', SteadyCovered K reachable s s' → Steady K s s' :=
      fun s' h hs => h (collectActiveObjectBindings_covers hs hreachable)
    exact (hloop faults s).mono (fun _ => hsteady) (fun _ => hsteady) hsteady

theorem completeProposalStagingCleanup_within (rm : Remover) (id : Text) (name : StagingName) (requireComplete : Bool) :
    Within (Steady K) (completeProposalStagingCleanup K rm id name requireComplete) := by
  unfold completeProposalStagingCleanup
  refine Within.bind (Within.look _ _ _) fun found => ?_
  split
  · exact Within.pure _
  · refine Within.bind (Within.look _ _ _) fun candidates => ?_
    refine Within.bind (Within.relabel (cleanupCandidateObjects_within candidates)) fun _ => ?_
    refine Within.bind (Within.gradual (fun _ _ => steady_leaveStaging) fun _ => steady_leaveStaging) fun _ => ?_
    exact Within.atomic fun s => Std.Refl.refl s

theorem recoverOwnedProposalStaging_within (rm : Remover) (id : Text) :
    Within (Steady K) (recoverOwnedProposalStaging K rm id) := by
  unfold recoverOwnedProposalStaging
  refine Within.bind (Within.look _ _ _) fun names => ?_
  exact Within.forM fun name _ => Within.relabel (completeProposalStagingCleanup_within rm id name name.deleting)

theorem loadProposals_within (rm : Remover) (id : Text) : Within (Steady K) (loadProposals K rm id) := by
  unfold loadProposals
  exact Within.bind (Within.relabel (recoverOwnedProposalStaging_within rm id)) fun _ => Within.look _ _ _

theorem validateNewProject_within (rm : Remover) (id : Text) : Within (Steady K) (validateNewProject K rm id) := by
  unfold validateNewProject
  refine Within.bind (Within.look _ _ _) fun _ => ?_
  exact Within.bind (Within.relabel (loadProposals_within rm id)) fun _ => Within.pure _

theorem loadProject_within (rm : Remover) (id : Text) : Within (Steady K) (loadProject K rm id) := by
  unfold loadProject
  refine Within.bind (validateNewProject_within rm id) fun _ => ?_
  refine Within.bind (Within.look _ _ _) fun found => ?_
  exact Within.bind (Within.relabel (loadProposals_within rm id)) fun _ => Within.pure _

theorem Steady.careful (h : Steady K s s') : Careful K s s' := fun hs => (h hs).2

/-- A step that leaves the objects alone and takes nothing new in. -/
theorem safe_of_less (hobjects : s'.objects = s.objects)
    (htrees : ∀ (id : Text) (tree' : ProjectTree), s'.projects[id]? = some tree' →
      ∃ tree, s.projects[id]? = some tree ∧ ProjectLess tree' tree) : Safe K s s' :=
  ⟨htrees, fun _ _ _ _ _ _ h => by rw [hobjects]; exact h⟩

theorem steady_of_projects (hobjects : s'.objects = s.objects) (hprojects : s'.projects = s.projects) :
    Steady K s s' := by
  refine fun _ => ⟨fun id => ?_, safe_of_less hobjects fun id tree htree => ⟨tree, hprojects ▸ htree, less_refl tree⟩⟩
  unfold proposalsOf
  rw [hprojects]

theorem steady_backups {backups : List Backup} {deletingBackups : List DeletingBackup} :
    Steady K s { s with backups, deletingBackups } :=
  steady_of_projects rfl rfl

theorem steady_deleting {deleting : List ((Text × Text) × ProjectTree)} : Steady K s { s with deleting } :=
  steady_of_projects rfl rfl

theorem removeDeletingBackup_within (id nonce : Text) (backup : DeletingBackup) :
    Within (Steady K) (removeDeletingBackup id nonce backup) := by
  unfold removeDeletingBackup
  split
  · exact Within.throw _
  · refine Within.bind (Within.gradual (fun n s => ?_) fun _ => steady_backups) fun _ => ?_
    · split
      · exact Std.Refl.refl s
      · exact steady_backups
    · exact Within.atomic fun s => Std.Refl.refl s

theorem removeBackup_within (id nonce : Text) (backup : Backup) :
    Within (Steady K) (removeBackup id nonce backup) := by
  unfold removeBackup
  split
  · exact Within.pure _
  · refine Within.bind (Within.atomic fun _ => steady_backups) fun _ => ?_
    refine Within.bind (Within.atomic fun s => Std.Refl.refl s) fun _ => ?_
    refine Within.bind (Within.gradual (fun n s => ?_) fun _ => steady_backups) fun _ => ?_
    · split
      · exact Std.Refl.refl s
      · exact steady_backups
    · exact Within.atomic fun s => Std.Refl.refl s

theorem completeProjectDelete_within (rm : Remover) (id nonce : Text) :
    Within (Steady K) (completeProjectDelete K rm id nonce) := by
  unfold completeProjectDelete
  refine Within.bind (Within.look _ _ _) fun candidates => ?_
  refine Within.bind (Within.relabel (cleanupCandidateObjects_within candidates)) fun _ => ?_
  refine Within.bind (Within.look _ _ _) fun backups => ?_
  refine Within.bind (Within.forM fun backup _ => removeDeletingBackup_within id nonce backup) fun _ => ?_
  refine Within.bind (Within.forM fun backup _ => removeBackup_within id nonce backup) fun _ => ?_
  refine Within.bind (Within.gradual (fun _ _ => steady_deleting) fun _ => steady_deleting) fun _ => ?_
  exact Within.atomic fun s => Std.Refl.refl s

/-! ## Operations -/

theorem careful_erase {id : Text} {s : Root} {deleting : List ((Text × Text) × ProjectTree)} :
    Careful K s { s with projects := s.projects.erase id, deleting } := by
  refine fun _ => safe_of_less rfl fun other tree htree => ?_
  rw [Std.ExtTreeMap.getElem?_erase] at htree
  split at htree
  · cases htree
  · exact ⟨tree, htree, less_refl tree⟩

theorem careful_unmark {id : Text} {s : Root} :
    Careful K s { s with projects := s.projects.modify id fun tree => { tree with creating := false } } := by
  refine fun _ => safe_of_less rfl fun other tree' htree => ?_
  rw [Std.ExtTreeMap.getElem?_modify] at htree
  split at htree
  · rename_i heq
    rw [Std.LawfulEqCmp.eq_of_compare heq, Option.map_eq_some_iff] at htree
    obtain ⟨tree, htree, rfl⟩ := htree
    exact ⟨tree, htree, rfl, rfl, fun dir h => ⟨dir, h, fun _ h => h⟩⟩
  · exact ⟨tree', htree, less_refl tree'⟩

theorem deleteProposal_within (rm : Remover) (r : DeleteProposal) : Within (Careful K) (deleteProposal K rm r) := by
  unfold deleteProposal
  refine Within.bind ((Within.relabel (loadProposals_within rm r.projectId)).mono fun _ _ => Steady.careful)
    fun proposals => ?_
  refine Within.bind (Within.look _ _ _) fun _ => ?_
  refine Within.bind (Within.atomic fun s _ => safe_modifyProposals fun dir => List.filter_subset_self _) fun _ => ?_
  refine Within.bind (Within.atomic fun s => Std.Refl.refl s) fun _ => ?_
  exact (Within.relabel (completeProposalStagingCleanup_within rm r.projectId r.staging true)).mono
    fun _ _ => Steady.careful

theorem deleteProject_within (rm : Remover) (id nonce : Text) : Within (Careful K) (deleteProject K rm id nonce) := by
  unfold deleteProject
  refine Within.bind ((Within.relabel (validateNewProject_within rm id)).mono fun _ _ => Steady.careful) fun _ => ?_
  refine Within.bind (Within.look _ _ _) fun _ => ?_
  refine Within.bind (Within.atomic fun s => careful_erase) fun _ => ?_
  refine Within.bind (Within.atomic fun s => Std.Refl.refl s) fun _ => ?_
  exact (Within.relabel (completeProjectDelete_within rm id nonce)).mono fun _ _ => Steady.careful

theorem loadEach_within (rm : Remover) (ids : List Text) : Within (Careful K) (loadEach K rm ids) := by
  induction ids with
  | nil => exact Within.pure _
  | cons id ids ih =>
    unfold loadEach
    refine Within.bind (Within.look _ _ _) fun tree => ?_
    split
    · exact Within.throw _
    split
    · refine Within.bind (Within.atomic fun _ => careful_erase) fun _ => ?_
      exact Within.bind (Within.atomic fun s => Std.Refl.refl s) fun _ => ih
    · refine Within.bind (Within.atomic fun s => careful_unmark) fun _ => ?_
      refine Within.bind ((Within.relabel (loadProject_within rm id)).mono fun _ _ => Steady.careful) fun project => ?_
      exact Within.bind ih fun _ => Within.pure _

theorem openRoot_within (rm : Remover) : Within (Careful K) (openRoot K rm) := by
  unfold openRoot recoverOwnedProjectDeletions loadProjects
  refine Within.bind (Within.look _ _ _) fun _ => ?_
  refine Within.bind (Within.bind (Within.look _ _ _) fun names => ?_) fun _ => ?_
  · refine Within.bind (Within.forM fun name _ => ?_) fun _ => Within.look _ _ _
    exact (Within.relabel (completeProjectDelete_within rm name.1 name.2)).mono fun _ _ => Steady.careful
  · exact Within.bind (Within.look _ _ _) fun ids => loadEach_within rm ids

/-! ## Preparing a proposal -/

theorem insertObject_keeps {digest other : Text} {bytes held : Bytes} (h : s.objects[other]? = some held) :
    (insertObject digest bytes s).objects[other]? = some held := by
  unfold insertObject
  split
  · exact h
  · rename_i hnot
    have hne : ¬ compare digest other = .eq := by
      intro heq
      rw [← Std.LawfulEqCmp.eq_of_compare heq] at h
      exact hnot (Std.ExtTreeMap.isSome_getElem?_iff_mem.mp (by rw [h]; rfl))
    rw [Std.ExtTreeMap.getElem?_insert, if_neg hne, h]

theorem insertObject_projects (digest : Text) (bytes : Bytes) (s : Root) :
    (insertObject digest bytes s).projects = s.projects := by
  unfold insertObject
  split <;> rfl

theorem writeObject_within (file : Text × Bytes) : Within (Steady K) (writeObject K file) := by
  unfold writeObject
  refine Within.bind (Within.look _ _ _) fun _ => Within.atomic fun s _ => ⟨fun id => ?_, fun id tree htree => ?_, ?_⟩
  · unfold proposalsOf
    rw [insertObject_projects]
  · rw [insertObject_projects] at htree
    exact ⟨tree, htree, less_refl tree⟩
  · exact fun _ _ _ _ _ _ h => insertObject_keeps h

theorem writeObjects_within (files : List (Text × Bytes)) : Within (Steady K) (files.forM (writeObject K)) :=
  Within.forM fun file _ => writeObject_within file

/-- What survives an operation is as before: its objects, its revisions and its proposals. -/
structure Preserved (K : Crates) (s s' : Root) : Prop where
  objects : ∀ (id : Text) (tree tree' : ProjectTree), s.projects[id]? = some tree → s'.projects[id]? = some tree' →
    ∀ file, tree.Names K file → tree'.Names K file →
      ∀ bytes, s.objects[file.sha256]? = some bytes → s'.objects[file.sha256]? = some bytes
  revisions : ∀ (id : Text) (tree tree' : ProjectTree), s.projects[id]? = some tree → s'.projects[id]? = some tree' →
    ∀ revisions revisions', tree.revisions = some revisions → tree'.revisions = some revisions' →
      ∀ manifest ∈ revisions, manifest ∈ revisions' → ∀ files, loadManifestFiles K s.objects manifest = .ok files →
        loadManifestFiles K s'.objects manifest = .ok files
  proposals : ∀ id dir dir', s.proposalsOf id = some dir → s'.proposalsOf id = some dir' →
    ∀ entry ∈ dir'.retained, entry.1 ∈ dir.retained.map (·.1) → entry ∈ dir.retained

theorem readObject_ok {objects : Objects} {file : StoredFile} {found : Text × Bytes}
    (h : readObject K objects file = .ok found) : ∃ bytes, objects[file.sha256]? = some bytes ∧
      ∀ objects' : Objects, objects'[file.sha256]? = some bytes → readObject K objects' file = .ok found := by
  unfold readObject at h
  split at h
  · cases h
  · rename_i bytes hbytes
    refine ⟨bytes, hbytes, fun objects' hbytes' => ?_⟩
    unfold readObject
    rw [hbytes']
    exact h

/-- Kept objects are read alike. -/
theorem preserved_of
    (hobjects : ∀ (id : Text) (tree tree' : ProjectTree), s.projects[id]? = some tree → s'.projects[id]? = some tree' →
      ∀ file, tree.Names K file → tree'.Names K file →
        ∀ bytes, s.objects[file.sha256]? = some bytes → s'.objects[file.sha256]? = some bytes)
    (hproposals : ∀ id dir dir', s.proposalsOf id = some dir → s'.proposalsOf id = some dir' →
      ∀ entry ∈ dir'.retained, entry.1 ∈ dir.retained.map (·.1) → entry ∈ dir.retained) : Preserved K s s' := by
  refine ⟨hobjects, ?_, hproposals⟩
  intro id tree tree' htree htree' revisions revisions' hrevisions hrevisions' manifest hmanifest hmanifest' files hload
  refine Outcome.mapM_imp hload fun file hfile found hfound => ?_
  obtain ⟨bytes, hbytes, hread⟩ := readObject_ok hfound
  exact hread _ (hobjects id tree tree' htree htree' file (.inl ⟨revisions, hrevisions, manifest, hmanifest, hfile⟩)
    (.inl ⟨revisions', hrevisions', manifest, hmanifest', hfile⟩) bytes hbytes)

theorem proposalsOf_eq_some {id : Text} {dir : ProposalsDirectory} (h : s.proposalsOf id = some dir) :
    ∃ tree, s.projects[id]? = some tree ∧ tree.proposals = some dir :=
  Option.bind_eq_some_iff.mp h

theorem Safe.preserved (h : Safe K s s') : Preserved K s s' := by
  refine preserved_of (fun id tree tree' _ htree' file _ hnames => h.objects id tree' htree' file hnames) ?_
  intro id dir dir' hdir hdir' entry hentry _
  obtain ⟨tree', htree', hproposals'⟩ := proposalsOf_eq_some hdir'
  obtain ⟨tree, htree, hless⟩ := h.trees id tree' htree'
  obtain ⟨dir0, hdir0, hsub⟩ := hless.proposals dir' hproposals'
  have heq : s.proposalsOf id = some dir0 := Option.bind_eq_some_iff.mpr ⟨tree, htree, hdir0⟩
  rw [hdir] at heq
  cases heq
  exact hsub hentry

/-- After its checks a request knows that its proposal is new. -/
def Fresh (r : PrepareProposal) (s : Root) : Prop :=
  ∀ dir, s.proposalsOf r.projectId = some dir → r.proposalId ∉ dir.retained.map (·.1)

theorem Fresh.of_sameRetained {r : PrepareProposal} (h : SameRetained s s') (hs : Fresh r s) : Fresh r s' := by
  intro dir' hdir'
  have heq := h r.projectId
  rw [hdir'] at heq
  cases hdir : s.proposalsOf r.projectId with
  | none => rw [hdir] at heq; cases heq
  | some dir =>
    rw [hdir] at heq
    have heq : dir'.retained = dir.retained := Option.some.inj heq
    rw [heq]
    exact hs dir hdir

theorem Preserved.trans_safe (h : Preserved K s s') (h' : Safe K s' s'') : Preserved K s s'' := by
  refine preserved_of (fun id tree tree'' htree htree'' file hnames hnames'' bytes hbytes => ?_) ?_
  · obtain ⟨tree', htree', hless⟩ := h'.trees id tree'' htree''
    exact h'.objects id tree'' htree'' file hnames'' bytes
      (h.objects id tree tree' htree htree' file hnames (names_of_less hless hnames'') bytes hbytes)
  · intro id dir dir'' hdir hdir'' entry hentry hold
    obtain ⟨tree'', htree'', hproposals''⟩ := proposalsOf_eq_some hdir''
    obtain ⟨tree', htree', hless⟩ := h'.trees id tree'' htree''
    obtain ⟨dir', hproposals', hsub⟩ := hless.proposals dir'' hproposals''
    exact h.proposals id dir dir' hdir (Option.bind_eq_some_iff.mpr ⟨tree', htree', hproposals'⟩) entry (hsub hentry) hold

theorem getElem?_modifyProposals {id other : Text} {f : ProposalsDirectory → ProposalsDirectory} {tree' : ProjectTree}
    (h : (modifyProposals id f s).projects[other]? = some tree') :
    ∃ tree, s.projects[other]? = some tree ∧
      tree' = if id = other then { tree with proposals := tree.proposals.map f } else tree := by
  change (s.projects.modify id _)[other]? = some tree' at h
  rw [Std.ExtTreeMap.getElem?_modify] at h
  simp only [Std.LawfulEqCmp.compare_eq_iff_eq] at h
  split at h
  · rename_i heq
    obtain ⟨tree, htree, rfl⟩ := Option.map_eq_some_iff.mp h
    exact ⟨tree, heq ▸ htree, by rw [if_pos heq]⟩
  · rename_i hne
    exact ⟨tree', h, by rw [if_neg hne]⟩

theorem published_modifyProposals {id : Text} {f : ProposalsDirectory → ProposalsDirectory} (hs : Published s) :
    Published (modifyProposals id f s) := by
  intro other tree' htree'
  obtain ⟨tree, htree, rfl⟩ := getElem?_modifyProposals htree'
  have := hs other tree htree
  split <;> exact this

/-- Steady steps change nothing of what a project names. -/
theorem names_of_sameRetained {id : Text} {tree tree' : ProjectTree} {file : StoredFile}
    (hs : SameRetained s s' ∧ Safe K s s') (htree : s.projects[id]? = some tree)
    (htree' : s'.projects[id]? = some tree') (hnames : tree.Names K file) : tree'.Names K file := by
  obtain ⟨tree0, htree0, hless⟩ := hs.2.trees id tree' htree'
  rw [htree] at htree0
  cases htree0
  rcases hnames with ⟨revisions, heq, hfile⟩ | ⟨dir, heq, entry, hentry, hfile⟩
  · exact .inl ⟨revisions, hless.revisions.trans heq, hfile⟩
  · have hsame := hs.1 id
    unfold proposalsOf at hsame
    rw [htree, htree', Option.bind_some, Option.bind_some, heq, Option.map_some] at hsame
    obtain ⟨dir', hdir', hretained⟩ := Option.map_eq_some_iff.mp hsame
    exact .inr ⟨dir', hdir', entry, hretained ▸ hentry, hfile⟩

/-- The publication of a new proposal, after steady steps. -/
theorem preserved_publish {r : PrepareProposal} (hs : SameRetained s s' ∧ Safe K s s') (hfresh : Fresh r s) :
    Preserved K s (publish r s') := by
  refine preserved_of (fun id tree tree'' htree htree'' file hnames _ bytes hbytes => ?_) ?_
  · obtain ⟨tree', htree', -⟩ := getElem?_modifyProposals htree''
    exact hs.2.objects id tree' htree' file (names_of_sameRetained hs htree htree' hnames) bytes hbytes
  · intro id dir dir'' hdir hdir'' entry hentry hold
    obtain ⟨tree'', htree'', hproposals''⟩ := proposalsOf_eq_some hdir''
    obtain ⟨tree', htree', rfl⟩ := getElem?_modifyProposals htree''
    have hsame := hs.1 id
    unfold proposalsOf at hsame hdir
    rw [hdir, htree', Option.bind_some, Option.map_some] at hsame
    obtain ⟨dir', hdir', hretained⟩ := Option.map_eq_some_iff.mp hsame
    split at hproposals''
    · rename_i heq
      rw [hdir', Option.map_some] at hproposals''
      cases hproposals''
      rcases List.mem_append.mp hentry with hnew | hentry
      · obtain ⟨built, -, rfl⟩ := Option.map_eq_some_iff.mp (Option.mem_toList.mp hnew)
        exact absurd hold (hfresh dir (heq ▸ hdir))
      · exact hretained ▸ hentry
    · rw [hdir'] at hproposals''
      cases hproposals''
      exact hretained ▸ hentry

/-- Before its publication, the building of a proposal is steady. -/
theorem buildProposal_preserved {partly : ℕ → SiteTree → SiteTree} {r : PrepareProposal}
    {faults : PrepareStep → Fault.Outcome} (hp : Published s) (hs : SameRetained s s' ∧ Safe K s s')
    (hfresh : Fresh r s) :
    Ends (buildProposal K partly r) faults s' (fun _ s'' => Published s'' ∧ Preserved K s s'')
      (fun _ s'' => Published s'' ∧ Preserved K s s'') (fun s'' => Published s'' ∧ Preserved K s s'') := by
  have hsteady : ∀ {t t'}, (SameRetained s t ∧ Safe K s t) → Steady K t t' → SameRetained s t' ∧ Safe K s t' := by
    intro t t' ht h
    obtain ⟨hsame, hsafe⟩ := h (ht.2.published hp)
    exact ⟨fun id => (hsame id).trans (ht.1 id), ht.2.trans hsafe⟩
  have hdone : ∀ {t}, (SameRetained s t ∧ Safe K s t) → Published t ∧ Preserved K s t :=
    fun ht => ⟨ht.2.published hp, ht.2.preserved⟩
  have hpublished : ∀ {t}, (SameRetained s t ∧ Safe K s t) → Published (publish r t) ∧ Preserved K s (publish r t) :=
    fun ht => ⟨published_modifyProposals (ht.2.published hp), preserved_publish ht hfresh⟩
  have hchange : ∀ {f : ProposalTree → ProposalTree} {t}, Steady K t (changeStaging r f t) := steady_leaveStaging
  unfold buildProposal
  refine Ends.bind (Ends.look (fun _ _ _ => ?_) (fun _ _ => hdone hs) (fun _ _ => hdone hs) fun _ _ => hdone hs)
  refine Ends.bind ((Within.relabel (writeObjects_within (K := K) r.site.files) faults s').mono (fun _ t ht => ?_)
    (fun _ t ht => hdone (hsteady hs ht)) fun t ht => hdone (hsteady hs ht))
  have ht := hsteady hs ht
  have hpart : ∀ n : ℕ, SameRetained s (if n = 0 then t else
      changeStaging r (fun tree => { tree with site := some (partly n r.site) }) t) ∧ Safe K s (if n = 0 then t else
      changeStaging r (fun tree => { tree with site := some (partly n r.site) }) t) := by
    intro n
    split
    · exact ht
    · exact hsteady ht hchange
  refine Ends.bind (Ends.gradual (fun _ => ?_) (fun n _ => hdone (hpart n)) fun n _ => hdone (hpart n))
  have ht := hsteady ht (hchange (f := fun tree => { tree with site := some r.site }))
  refine Ends.bind (Ends.atomic (fun _ => ?_) (fun _ => hdone ht) (fun _ _ => hdone (hsteady ht hchange))
    (fun _ => hdone ht) fun _ _ => hdone (hsteady ht hchange))
  have ht := hsteady ht (hchange (f := fun tree => { tree with proposal := some r.canonicalMetadata }))
  refine Ends.bind (Ends.atomic (fun _ => ?_) (fun _ => hdone ht) (fun _ _ => hpublished ht) (fun _ => hdone ht)
    fun _ _ => hpublished ht)
  have ht := hpublished ht
  exact Ends.atomic (fun _ => ht) (fun _ => ht) (fun _ _ => ht) (fun _ => ht) fun _ _ => ht

theorem prepareProposal_preserved (rm : Remover) (partly : ℕ → SiteTree → SiteTree) (r : PrepareProposal)
    (faults : PrepareStep → Fault.Outcome) (hp : Published s) :
    Published (prepareProposal K rm partly r faults s).2 ∧ Preserved K s (prepareProposal K rm partly r faults s).2 := by
  suffices h : Ends (prepareProposal K rm partly r) faults s (fun _ s' => Published s' ∧ Preserved K s s')
      (fun _ s' => Published s' ∧ Preserved K s s') (fun s' => Published s' ∧ Preserved K s s') by
    unfold Ends at h
    split at h <;> next heq => rw [heq]; exact h
  have hdone : ∀ {t}, (SameRetained s t ∧ Safe K s t) → Published t ∧ Preserved K s t :=
    fun ht => ⟨ht.2.published hp, ht.2.preserved⟩
  have hs : SameRetained s s ∧ Safe K s s := ⟨fun _ => rfl, Safe.refl s⟩
  unfold prepareProposal
  refine Ends.bind (Ends.look (fun _ _ _ => ?_) (fun _ _ => hdone hs) (fun _ _ => hdone hs) fun _ _ => hdone hs)
  refine Ends.bind ((Within.relabel (recoverOwnedProposalStaging_within (K := K) rm r.projectId) faults s).mono
    (fun _ t ht => ?_) (fun _ t ht => hdone (ht hp)) fun t ht => hdone (ht hp))
  have ht := ht hp
  refine Ends.bind (Ends.look (fun _ hlist _ => ?_) (fun _ _ => hdone ht) (fun _ _ => hdone ht) fun _ _ => hdone ht)
  have hfresh : Fresh r s := by
    refine Fresh.of_sameRetained (fun id => (ht.1 id).symm) (s := t) ?_
    intro dir hdir hmem
    rw [hdir] at hlist
    obtain ⟨dir', hdir', hlist⟩ := Outcome.bind_ok.mp hlist
    cases hdir'
    split at hlist
    · cases hlist
    · rename_i hnot
      have hnone := Option.not_isSome_iff_eq_none.mp (not_or.mp hnot).2
      obtain ⟨entry, hentry, heq⟩ := List.mem_map.mp hmem
      have hne := List.lookup_eq_none_iff.mp hnone entry hentry
      rw [heq] at hne
      simp at hne
  have hcreate : SameRetained s (modifyProposals r.projectId (fun dir =>
      { dir with staging := (r.staging, ⟨none, none, none, none, none⟩) :: dir.staging }) t) ∧
      Safe K s (modifyProposals r.projectId (fun dir =>
      { dir with staging := (r.staging, ⟨none, none, none, none, none⟩) :: dir.staging }) t) := by
    have hsteady : Steady K t (modifyProposals r.projectId (fun dir =>
      { dir with staging := (r.staging, ⟨none, none, none, none, none⟩) :: dir.staging }) t) :=
      steady_modifyProposals fun _ => rfl
    obtain ⟨hsame, hsafe⟩ := hsteady (ht.2.published hp)
    exact ⟨fun id => (hsame id).trans (ht.1 id), ht.2.trans hsafe⟩
  refine Ends.bind (Ends.atomic (fun _ => ?_) (fun _ => hdone ht) (fun _ _ => hdone hcreate) (fun _ => hdone ht)
    fun _ _ => hdone hcreate)
  refine Ends.rescue ((buildProposal_preserved hp hcreate hfresh).mono (fun _ _ h => h) (fun e t' ht' => ?_)
    fun _ h => h)
  have hclean := Within.ignore (Within.relabel (f := PrepareStep.clean)
    (completeProposalStagingCleanup_within (K := K) rm r.projectId r.staging false))
  have hfinal : ∀ t'', Steady K t' t'' → Published t'' ∧ Preserved K s t'' := by
    intro t'' h
    have hsafe := (h ht'.1).2
    exact ⟨hsafe.published ht'.1, ht'.2.trans_safe hsafe⟩
  exact Ends.bind ((hclean faults t').mono (fun _ t'' h => Ends.throw (hfinal t'' h)) (fun _ => hfinal) hfinal)

/-! ## Runs -/

inductive Operation where
  | createProject (r : CommitRevision) (faults : CommitStep → Fault.Outcome)
  | commitRevision (r : CommitRevision) (faults : CommitStep → Fault.Outcome)
  | persistProposalFile (projectId proposalId : Text) (file : ProposalFile) (bytes : Bytes)
      (faults : CommitStep → Fault.Outcome)
  | prepareProposal (r : PrepareProposal) (faults : PrepareStep → Fault.Outcome)
  | deleteProposal (r : DeleteProposal) (faults : DeleteProposalStep → Fault.Outcome)
  | deleteProject (projectId nonce : Text) (faults : DeleteProjectStep → Fault.Outcome)
  | openRoot (faults : OpenStep → Fault.Outcome)

/-- What an operation leaves, wherever its faults end it. -/
def Operation.run (K : Crates) (rm : Remover) (partly : ℕ → SiteTree → SiteTree) (s : Root) : Operation → Root
  | .createProject r faults => (Root.createProject K r faults s).2
  | .commitRevision r faults => (Root.commitRevision K r faults s).2
  | .persistProposalFile projectId proposalId file bytes faults =>
    (Root.persistProposalFile projectId proposalId file bytes faults s).2
  | .prepareProposal r faults => (Root.prepareProposal K rm partly r faults s).2
  | .deleteProposal r faults => (Root.deleteProposal K rm r faults s).2
  | .deleteProject projectId nonce faults => (Root.deleteProject K rm projectId nonce faults s).2
  | .openRoot faults => (Root.openRoot K rm faults s).2

/-- The operations that clean objects up. -/
def Operation.cleans : Operation → Bool
  | .prepareProposal .. | .deleteProposal .. | .deleteProject .. | .openRoot .. => true
  | .createProject .. | .commitRevision .. | .persistProposalFile .. => false

def KeepsPublished (s s' : Root) : Prop := Published s → Published s'

instance : IsPreorder Root KeepsPublished where
  refl _ hs := hs
  trans _ _ _ h h' hs := h' (h hs)

theorem Steady.keepsPublished (h : Steady K s s') : KeepsPublished s s' := fun hs => (h hs).2.published hs

theorem Careful.keepsPublished (h : Careful K s s') : KeepsPublished s s' := fun hs => (h hs).published hs

theorem createProject_within (r : CommitRevision) : Within KeepsPublished (createProject K r) := by
  unfold createProject
  refine Within.bind (Within.look _ _ _) fun _ => ?_
  refine Within.bind ((Within.relabel (writeObjects_within (K := K) r.site.files)).mono
    fun _ _ => Steady.keepsPublished) fun _ => ?_
  refine Within.bind (Within.atomic fun s hs => ?_) fun _ => Within.atomic fun _ hs => hs
  intro other tree htree
  rw [Std.ExtTreeMap.getElem?_insert] at htree
  split at htree
  · cases htree
    rfl
  · exact hs other tree htree

/-- A change to one project that leaves it with a `current.json`. -/
theorem published_modify {id : Text} {f : ProjectTree → ProjectTree}
    (hf : ∀ tree, tree.current.isSome → (f tree).current.isSome) (hs : Published s) :
    Published { s with projects := s.projects.modify id f } := by
  intro other tree' htree'
  rw [Std.ExtTreeMap.getElem?_modify] at htree'
  split at htree'
  · obtain ⟨tree, htree, rfl⟩ := Option.map_eq_some_iff.mp htree'
    exact hf tree (hs id tree htree)
  · exact hs other tree' htree'

theorem commitRevision_within (r : CommitRevision) : Within KeepsPublished (commitRevision K r) := by
  unfold commitRevision
  refine Within.bind ((Within.relabel (writeObjects_within (K := K) r.site.files)).mono
    fun _ _ => Steady.keepsPublished) fun _ => ?_
  refine Within.bind (Within.atomic fun s hs => published_modify (fun _ h => h) hs) fun _ => ?_
  exact Within.atomic fun s hs => published_modify (fun _ _ => rfl) hs

theorem persistProposalFile_within (projectId proposalId : Text) (file : ProposalFile) (bytes : Bytes) :
    Within KeepsPublished (persistProposalFile projectId proposalId file bytes) :=
  Within.atomic fun _ hs => published_modifyProposals hs

variable {rm : Remover} {partly : ℕ → SiteTree → SiteTree}

theorem published_run (op : Operation) (hs : Published s) : Published (op.run K rm partly s) := by
  cases op with
  | createProject r faults => exact (createProject_within r).final faults s hs
  | commitRevision r faults => exact (commitRevision_within r).final faults s hs
  | persistProposalFile projectId proposalId file bytes faults =>
    exact (persistProposalFile_within projectId proposalId file bytes).final faults s hs
  | prepareProposal r faults => exact (prepareProposal_preserved rm partly r faults hs).1
  | deleteProposal r faults => exact ((deleteProposal_within rm r).final faults s).keepsPublished hs
  | deleteProject id nonce faults => exact ((deleteProject_within rm id nonce).final faults s).keepsPublished hs
  | openRoot faults => exact ((openRoot_within rm).final faults s).keepsPublished hs

theorem preserved_run (op : Operation) (hs : Published s) (hop : op.cleans = true) :
    Preserved K s (op.run K rm partly s) := by
  cases op with
  | createProject r faults => cases hop
  | commitRevision r faults => cases hop
  | persistProposalFile projectId proposalId file bytes faults => cases hop
  | prepareProposal r faults => exact (prepareProposal_preserved rm partly r faults hs).2
  | deleteProposal r faults => exact ((deleteProposal_within rm r).final faults s hs).preserved
  | deleteProject id nonce faults => exact ((deleteProject_within rm id nonce).final faults s hs).preserved
  | openRoot faults => exact ((openRoot_within rm).final faults s hs).preserved

end

/-- The root that the first open creates. -/
def emptyRoot : Root := ⟨∅, ∅, [], [], []⟩

def reached (K : Crates) (rm : Remover) (partly : ℕ → SiteTree → SiteTree) (ops : List Operation) : Root :=
  Run.final (fun s op => ((), op.run K rm partly s)) emptyRoot ops

theorem published_empty : Published emptyRoot := by
  intro id tree htree
  change (∅ : Std.ExtTreeMap Text ProjectTree compare)[id]? = some tree at htree
  rw [Std.ExtTreeMap.getElem?_empty] at htree
  cases htree

theorem published_reached (K : Crates) (rm : Remover) (partly : ℕ → SiteTree → SiteTree) (ops : List Operation) :
    Published (reached K rm partly ops) := by
  unfold reached
  exact Run.final_inv (I := Published) (fun _ op hs => published_run op hs) ops published_empty

def sampleRevision : CommitRevision where
  projectId := "prj_".toList ++ List.replicate 32 '0'
  site := ⟨[], [("index.html".toList, [1])], List.pairwise_singleton _ _⟩
  manifest := ⟨"rev_".toList ++ List.replicate 32 '0', List.replicate 64 '0',
    [store sampleCrates ("index.html".toList, [1])], List.replicate 64 '0'⟩
  pointer := ⟨"rev_".toList ++ List.replicate 32 '0', List.replicate 64 '0', List.replicate 64 '0'⟩

/-- A remover that ends early only before its first step. -/
def sampleRemover : Remover where
  proposal _ tree := some tree
  project _ tree := some tree
  proposal_part _ tree left h := by
    cases h
    exact ⟨fun site h => ⟨site, h, List.Sublist.refl _, List.Sublist.refl _⟩, fun _ h => h, fun _ h => h,
      fun _ h => h, fun _ h => h⟩
  project_part _ tree left h := by
    cases h
    have hpart : ∀ tree : ProposalTree, tree.Part tree := fun tree =>
      ⟨fun site h => ⟨site, h, List.Sublist.refl _, List.Sublist.refl _⟩, fun _ h => h, fun _ h => h, fun _ h => h,
        fun _ h => h⟩
    exact ⟨fun revisions h => ⟨revisions, h, fun _ h => h⟩, fun dir h => ⟨dir, h, fun entry he => ⟨entry.2, he, hpart _⟩,
      fun entry he => ⟨entry.2, he, hpart _⟩⟩⟩

end Root
end LpStudio.Storage
