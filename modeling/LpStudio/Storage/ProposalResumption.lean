import LpStudio.Storage.Opening

/-! # Deletion of a proposal is resumed
A deletion that ends after the rename leaves a staging tree, whole or in part. The next open finishes it if and only
if the part still has the site and `proposal.json`, and no file without the one that comes before it.
-/
namespace LpStudio.Storage
open Str Fault Fault.Program

/-! ## Parts of a proposal -/

section
variable {K : Crates} {left tree : ProposalTree}

theorem storedFiles_sublist {files whole : List (Text × Bytes)} {stored : List StoredFile} (hsub : files.Sublist whole)
    (h : storedFiles K whole = some stored) : storedFiles K files = some (files.map (store K)) := by
  unfold storedFiles at h ⊢
  split at h
  · rename_i hfits
    obtain ⟨hcount, hpaths, hfolded, hlengths, htotal⟩ := hfits
    refine if_pos ⟨Nat.le_trans hsub.length_le hcount, fun file hfile => hpaths file (hsub.subset hfile),
      hfolded.sublist (hsub.map _), fun file hfile => hlengths file (hsub.subset hfile), ?_⟩
    exact Nat.le_trans ((hsub.map _).sum_le_sum fun _ _ => Nat.zero_le _) htotal
  · cases h

theorem scanMaterialized_sublist {site whole : SiteTree} {files : List StoredFile}
    (hdirectories : site.directories.Sublist whole.directories) (hfiles : site.files.Sublist whole.files)
    (h : scanMaterialized K whole = .ok files) : scanMaterialized K site = .ok (site.files.map (store K)) := by
  unfold scanMaterialized at h ⊢
  split at h
  · rename_i hfits
    obtain ⟨hdepths, hcount⟩ := hfits
    rw [if_pos ⟨fun directory hmem => hdepths directory (hdirectories.subset hmem),
      Nat.le_trans (Nat.add_le_add hdirectories.length_le hfiles.length_le) hcount⟩]
    cases hstored : storedFiles K whole.files with
    | none =>
      rw [hstored] at h
      cases h
    | some stored =>
      rw [storedFiles_sublist hfiles hstored]
      rfl
  · cases h

theorem readProposalFiles_ok : readProposalFiles tree = .ok () ↔
    ∀ file ∈ [tree.proposal, tree.review, tree.decision, tree.completion], ∀ bytes, file = some bytes →
      bytes.length ≤ maxProposalMetadataBytes := by
  unfold readProposalFiles
  refine Outcome.forM_ok.trans (forall₂_congr fun file _ => ?_)
  cases file with
  | none => simp
  | some bytes => simp

/-- What is left of a proposal can still be deleted. -/
def ProposalTree.Resumable (left : ProposalTree) : Prop :=
  left.site.isSome = true ∧ left.proposal.isSome = true ∧ Root.filesOrdered left = true

theorem ProposalTree.Part.files (h : left.Part tree) : left.files K ⊆ tree.files K := by
  unfold ProposalTree.files
  refine List.map_subset _ ?_
  cases hsite : left.site with
  | none => exact List.nil_subset _
  | some site =>
    obtain ⟨whole, hwhole, -, hfiles⟩ := h.site site hsite
    rw [hwhole]
    exact hfiles.subset

/-- Of a proposal that passes the checks, a part passes them if and only if it is resumable. -/
theorem ProposalTree.Part.preflight (h : left.Part tree) (htree : Root.preflightProposalRoot K tree true = .ok ()) :
    Root.preflightProposalRoot K left true = .ok () ↔ left.Resumable := by
  obtain ⟨hscan, hread, -, -⟩ := preflightProposalRoot_ok.mp htree
  have hstable : validateStableProposal left = .ok () ↔ left.site.isSome = true ∧ left.proposal.isSome = true := by
    unfold validateStableProposal
    rw [← Bool.and_eq_true]
    split
    · rename_i hboth
      exact ⟨fun _ => hboth, fun _ => rfl⟩
    · rename_i hnot
      exact ⟨fun heq => (by cases heq), fun hboth => absurd hboth hnot⟩
  constructor
  · intro hleft
    obtain ⟨-, -, hleft, hordered⟩ := preflightProposalRoot_ok.mp hleft
    obtain ⟨hsite, hproposal⟩ := hstable.mp (hleft rfl)
    exact ⟨hsite, hproposal, hordered⟩
  · rintro ⟨hsite, hproposal, hordered⟩
    refine preflightProposalRoot_ok.mpr ⟨fun site hleft => ?_, ?_, fun _ => hstable.mpr ⟨hsite, hproposal⟩, hordered⟩
    · obtain ⟨whole, hwhole, hdirectories, hfiles⟩ := h.site site hleft
      exact scanMaterialized_sublist hdirectories hfiles (hscan whole hwhole)
    · rw [readProposalFiles_ok] at hread ⊢
      simp only [List.forall_mem_cons] at hread ⊢
      obtain ⟨h1, h2, h3, h4, -⟩ := hread
      exact ⟨fun bytes hb => h1 bytes (h.proposal bytes hb), fun bytes hb => h2 bytes (h.review bytes hb),
        fun bytes hb => h3 bytes (h.decision bytes hb), fun bytes hb => h4 bytes (h.completion bytes hb),
        fun file hfile => absurd hfile List.not_mem_nil⟩

end

namespace Root

/-! ## The rename -/

/-- The project without the proposal. -/
def DeleteProposal.without (r : DeleteProposal) (project : PersistedProject) : PersistedProject :=
  if project.id = r.projectId then
    { project with proposals := project.proposals.filter fun proposal => proposal.id != r.proposalId }
  else project

section
variable {K : Crates} {rm : Remover} {s t u : Root}

theorem proposalsOf_modifyProposals {id other : Text} {f : ProposalsDirectory → ProposalsDirectory} :
    (modifyProposals id f s).proposalsOf other =
      if id = other then (s.proposalsOf other).map f else s.proposalsOf other := by
  unfold proposalsOf modifyProposals
  simp only [Std.ExtTreeMap.getElem?_modify, Std.LawfulEqCmp.compare_eq_iff_eq]
  split
  · rename_i heq
    rw [heq]
    cases s.projects[other]? with
    | none => rfl
    | some tree => rfl
  · rfl

/-- A change to a directory `proposals` that mentions nothing new. -/
theorem Sound.modifyProposals {id : Text} {f : ProposalsDirectory → ProposalsDirectory} (hs : Sound K s)
    (hinventory : ∀ dir, s.proposalsOf id = some dir → preflightProposalInventory K (f dir) = .ok ())
    (hmentions : ∀ tree, s.projects[id]? = some tree → ∀ file,
      ({ tree with proposals := tree.proposals.map f } : ProjectTree).Mentions K file → tree.Mentions K file) :
    Sound K (Root.modifyProposals id f s) := by
  have hold : ∀ file, (Root.modifyProposals id f s).Mentions K file → s.Mentions K file := by
    rintro file (⟨other, tree', htree', hfile⟩ | hfile)
    · obtain ⟨tree, htree, rfl⟩ := getElem?_modifyProposals htree'
      refine .inl ⟨other, tree, htree, ?_⟩
      split at hfile
      · rename_i heq
        exact hmentions tree (heq ▸ htree) file hfile
      · exact hfile
    · exact .inr hfile
  have hsize : (Root.modifyProposals id f s).projects.size = s.projects.size := Std.ExtTreeMap.size_modify
  refine ⟨fun other tree' htree' => ?_, hsize ▸ hs.count, hsize ▸ hs.entries, hs.backups, hs.backupCount,
    fun f g hf hg => hs.agree f g (hold f hf) (hold g hg), fun f hf => hs.loose f (hold f hf)⟩
  obtain ⟨tree, htree, rfl⟩ := getElem?_modifyProposals htree'
  obtain ⟨hname, ⟨found, hvalid⟩, hdirs⟩ := hs.projects other tree htree
  split
  · rename_i heq
    refine ⟨hname, ⟨found, ?_⟩, fun dir' hdir' => ?_⟩
    · rw [validateProject_proposals]
      exact hvalid
    · obtain ⟨dir, hdir, rfl⟩ := Option.map_eq_some_iff.mp hdir'
      exact hinventory dir (Option.bind_eq_some_iff.mpr ⟨tree, heq ▸ htree, hdir⟩)
  · exact ⟨hname, ⟨found, hvalid⟩, hdirs⟩

/-- What the rename makes of a directory `proposals` with nothing in staging. -/
theorem detach_directory {r : DeleteProposal} {dir : ProposalsDirectory} {tree : ProposalTree}
    (hsettled : Settled t r.projectId) (hdir : t.proposalsOf r.projectId = some dir)
    (hlookup : dir.retained.lookup r.proposalId = some tree) : (detach r t).proposalsOf r.projectId =
      some ⟨dir.retained.filter (·.1 != r.proposalId), [(r.staging, tree)]⟩ := by
  unfold detach
  rw [proposalsOf_modifyProposals, if_pos rfl, hdir, Option.map_some, hlookup, hsettled dir hdir]
  rfl

theorem sound_detach {r : DeleteProposal} {dir : ProposalsDirectory} {tree : ProposalTree} (hs : Sound K t)
    (hsettled : Settled t r.projectId) (hdir : t.proposalsOf r.projectId = some dir)
    (hlookup : dir.retained.lookup r.proposalId = some tree) : Sound K (detach r t) := by
  have hmem := mem_of_lookup hlookup
  obtain ⟨project, hproject, hproposals⟩ := proposalsOf_eq_some hdir
  obtain ⟨hnames, -, hretained⟩ :=
    preflightProposalInventory_ok.mp ((hs.projects _ _ hproject).inventory dir hproposals)
  obtain ⟨hids, hcount, -⟩ := validateProposalNames_ok.mp hnames
  refine hs.modifyProposals (fun dir' hdir' => ?_) fun project' hproject' file hfile => ?_
  · rw [hdir] at hdir'
    cases hdir'
    rw [hlookup, hsettled dir hdir]
    refine preflightProposalInventory_ok.mpr ⟨validateProposalNames_ok.mpr ⟨fun entry hentry => ?_, ?_, ?_⟩,
      fun entry hentry => ?_, fun entry hentry => ?_⟩
    · exact hids entry (List.mem_of_mem_filter hentry)
    · exact Nat.le_trans (List.length_filter_le _ _) hcount
    · exact Nat.le_of_ble_eq_true rfl
    · cases List.mem_singleton.mp hentry
      exact hretained _ hmem
    · exact hretained entry (List.mem_of_mem_filter hentry)
  · rw [hproject] at hproject'
    cases hproject'
    rw [hproposals, Option.map_some, hlookup, hsettled dir hdir] at hfile
    rcases hfile with (hrevision | ⟨dir', hdir', entry, hentry, site, hsite, f, hf, rfl⟩) | ⟨dir', hdir', entry, hentry, hfile⟩
    · exact .inl (.inl hrevision)
    · cases hdir'
      exact .inl (.inr ⟨dir, hproposals, entry, List.mem_of_mem_filter hentry, site, hsite, f, hf, rfl⟩)
    · cases hdir'
      cases List.mem_singleton.mp hentry
      exact .inl (names_of_files hproposals hmem hfile)

theorem loadProposal_id {id : Text} {tree : ProposalTree} {proposal : PersistedProposal}
    (h : loadProposal K id tree = .ok proposal) : proposal.id = id := by
  simp only [loadProposal, Outcome.bind_ok] at h
  obtain ⟨⟨⟩, -, ⟨⟩, -, files, -, h⟩ := h
  cases h
  rfl

theorem loadRetained_filter {id : Text} {dir : ProposalsDirectory} {proposals : List PersistedProposal}
    (h : loadRetained K { dir with staging := [] } = .ok proposals) :
    loadRetained K ⟨dir.retained.filter (·.1 != id), []⟩ = .ok (proposals.filter fun proposal => proposal.id != id) := by
  obtain ⟨⟨⟩, -, h⟩ := Outcome.bind_ok.mp h
  obtain ⟨⟨⟩, hnames, hload⟩ := Outcome.bind_ok.mp h
  obtain ⟨hids, hcount, hstaging⟩ := validateProposalNames_ok.mp hnames
  refine Outcome.bind_ok.mpr ⟨(), ensure_ok.mpr rfl, Outcome.bind_ok.mpr ⟨(), ?_, ?_⟩⟩
  · exact validateProposalNames_ok.mpr ⟨fun entry hentry => hids entry (List.mem_of_mem_filter hentry),
      Nat.le_trans (List.length_filter_le _ _) hcount, hstaging⟩
  · refine Outcome.mapM_filter hload fun entry _ proposal hproposal => ?_
    rw [loadProposal_id hproposal]

theorem readProject_detach {r : DeleteProposal} {id : Text} {project : PersistedProject}
    (h : readProjectOf K t id = .ok project) : readProjectOf K (detach r t) id = .ok (r.without project) := by
  obtain ⟨tree, htree, h⟩ := Outcome.bind_ok.mp h
  obtain ⟨pointer, files, dir, proposals, hvalid, hdir, hload, rfl⟩ := readProject_ok.mp h
  have htree' : (detach r t).projects[id]? = some (if r.projectId = id then
      { tree with proposals := tree.proposals.map fun dir =>
        { retained := dir.retained.filter (·.1 != r.proposalId)
          staging := ((dir.retained.lookup r.proposalId).map fun tree => (r.staging, tree)).toList ++ dir.staging } }
      else tree) := by
    unfold detach modifyProposals
    simp only [Std.ExtTreeMap.getElem?_modify, Std.LawfulEqCmp.compare_eq_iff_eq]
    split
    · rename_i heq
      rw [heq, present_ok.mp htree, Option.map_some]
    · exact present_ok.mp htree
  refine Outcome.bind_ok.mpr ⟨_, present_ok.mpr htree', ?_⟩
  unfold DeleteProposal.without
  split
  · rename_i heq
    rw [if_pos heq.symm]
    refine readProject_ok.mpr ⟨pointer, files, ⟨dir.retained.filter (·.1 != r.proposalId),
      ((dir.retained.lookup r.proposalId).map fun tree => (r.staging, tree)).toList ++ dir.staging⟩, _, ?_, ?_,
      loadRetained_filter hload, rfl⟩
    · rw [validateProject_proposals]
      exact hvalid
    · simp only [hdir, Option.map_some]
  · rename_i hne
    rw [if_neg (Ne.symm hne)]
    exact readProject_ok.mpr ⟨pointer, files, dir, proposals, hvalid, hdir, hload, rfl⟩

end

/-! ## Runs that end in a value -/

section
variable {K : Crates} {rm : Remover}

theorem cleanupCandidateObjects_plain (candidates : ObjectBindings) : Plain (cleanupCandidateObjects K candidates) := by
  unfold cleanupCandidateObjects
  split
  · exact Plain.pure _
  refine Plain.bind (Plain.look _ _ _) fun reachable => Plain.forM fun candidate => ?_
  unfold cleanupCandidateObject
  split
  · split
    · exact Plain.throw _
    · exact Plain.pure _
  · refine Plain.bind (Plain.look _ _ _) fun found => ?_
    split
    · exact Plain.bind (Plain.atomic _ _ _) fun _ => Plain.atomic _ _ _
    · exact Plain.pure _

theorem completeProposalStagingCleanup_plain (id : Text) (name : StagingName) (requireComplete : Bool) :
    Plain (completeProposalStagingCleanup K rm id name requireComplete) := by
  unfold completeProposalStagingCleanup
  refine Plain.bind (Plain.look _ _ _) fun found => ?_
  split
  · exact Plain.pure _
  · refine Plain.bind (Plain.look _ _ _) fun candidates => ?_
    refine Plain.bind (Plain.relabel (cleanupCandidateObjects_plain candidates)) fun _ => ?_
    exact Plain.bind (Plain.gradual _ _ _ _) fun _ => Plain.atomic _ _ _

theorem loadProposals_plain (id : Text) : Plain (loadProposals K rm id) := by
  unfold loadProposals recoverOwnedProposalStaging
  refine Plain.bind (Plain.relabel (Plain.bind (Plain.look _ _ _) fun names => Plain.forM fun name => ?_)) fun _ =>
    Plain.look _ _ _
  exact Plain.relabel (completeProposalStagingCleanup_plain id name name.deleting)

end

/-! ## Where a deletion ends -/

section
variable {K : Crates} {rm : Remover} {s t u : Root} {r : DeleteProposal}

theorem part_refl (tree : ProposalTree) : tree.Part tree :=
  ⟨fun site h => ⟨site, h, List.Sublist.refl _, List.Sublist.refl _⟩, fun _ h => h, fun _ h => h, fun _ h => h,
    fun _ h => h⟩

theorem leaveStaging_some (id : Text) (name : StagingName) (s : Root) : leaveStaging id name some s = s := by
  have hentries : ∀ entries : List (StagingName × ProposalTree), entries.filterMap (leaveEntry name some) = entries := by
    intro entries
    have : (leaveEntry name some : StagingName × ProposalTree → _) = some := by
      funext entry
      unfold leaveEntry
      split
      · rfl
      · rfl
    rw [this, List.filterMap_some]
  unfold leaveStaging modifyProposals
  simp only [hentries]
  have hsame : s.projects.modify id (fun tree => { tree with proposals := tree.proposals.map fun dir => dir }) =
      s.projects := by
    refine Std.ExtTreeMap.ext_getElem? fun {other} => ?_
    rw [Std.ExtTreeMap.getElem?_modify]
    split
    · rename_i heq
      rw [Std.LawfulEqCmp.eq_of_compare heq]
      simp
    · rfl
  rw [hsame]

/-- What is left of a staging tree whose clean-up has started. -/
def Left (K : Crates) (id : Text) (name : StagingName) (tree : ProposalTree) (t s' : Root) : Prop :=
  ∃ (u : Root) (left : ProposalTree → Option ProposalTree), Cleans K t u ∧
    (∀ rest, left tree = some rest → rest.Part tree) ∧ s' = leaveStaging id name left u

theorem completeProposalStagingCleanup_ends {id : Text} {name : StagingName} {dir : ProposalsDirectory}
    {tree : ProposalTree} (requireComplete : Bool) (hp : Published t) (hdir : t.proposalsOf id = some dir)
    (hlookup : dir.staging.lookup name = some tree) (faults : StagingStep → Fault.Outcome) :
    Ends (completeProposalStagingCleanup K rm id name requireComplete) faults t (fun _ => Left K id name tree t)
      (fun _ => Left K id name tree t) (Left K id name tree t) := by
  have hwhole : ∀ {u}, Cleans K t u → Left K id name tree t u := fun {u} hu =>
    ⟨u, some, hu, fun rest h => Option.some.inj h ▸ part_refl tree, (leaveStaging_some id name u).symm⟩
  have ht : Left K id name tree t t := hwhole ⟨Std.Refl.refl t, fun _ _ _ _ _ _ h => h⟩
  unfold completeProposalStagingCleanup
  refine Ends.bind (Ends.look (fun found hfound _ => ?_) (fun _ _ => ht) (fun _ _ => ht) fun _ _ => ht)
  rw [hdir, Option.bind_some, hlookup] at hfound
  cases hfound
  refine Ends.bind (Ends.look (fun candidates _ _ => ?_) (fun _ _ => ht) (fun _ _ => ht) fun _ _ => ht)
  refine Ends.bind (Ends.relabel ((cleanupCandidateObjects_cleans (K := K) candidates _ t).mono
    (fun _ u hu => ?_) (fun _ u hu => hwhole (hu hp)) fun u hu => hwhole (hu hp)))
  have hpart : ∀ n, Left K id name tree t (leaveStaging id name (rm.proposal n) u) := fun n =>
    ⟨u, rm.proposal n, hu hp, fun rest h => rm.proposal_part n tree rest h, rfl⟩
  have hgone : Left K id name tree t (leaveStaging id name (fun _ => none) u) :=
    ⟨u, fun _ => none, hu hp, fun rest h => (by cases h), rfl⟩
  refine Ends.bind (Ends.gradual (fun _ => ?_) (fun n _ => hpart n) fun n _ => hpart n)
  exact Ends.atomic (fun _ => hgone) (fun _ => hgone) (fun _ _ => hgone) (fun _ => hgone) fun _ _ => hgone

/-- After the rename. -/
def Renamed (K : Crates) (r : DeleteProposal) (s s' : Root) : Prop :=
  ∃ t dir tree, Trims K s t ∧ Settled t r.projectId ∧ t.proposalsOf r.projectId = some dir ∧
    dir.retained.lookup r.proposalId = some tree ∧ Left K r.projectId r.staging tree (detach r t) s'

/-- A deletion ends before the rename, with every proposal still there, or after it. -/
theorem deleteProposal_ends (hs : Sound K s) {dir : ProposalsDirectory} (hdir : s.proposalsOf r.projectId = some dir)
    {proposals : List PersistedProposal} (hload : loadRetained K { dir with staging := [] } = .ok proposals)
    (faults : DeleteProposalStep → Fault.Outcome) :
    SameRetained s (deleteProposal K rm r faults s).2 ∨ Renamed K r s (deleteProposal K rm r faults s).2 := by
  suffices h : Ends (deleteProposal K rm r) faults s (fun _ s' => SameRetained s s' ∨ Renamed K r s s')
      (fun _ s' => SameRetained s s' ∨ Renamed K r s s') (fun s' => SameRetained s s' ∨ Renamed K r s s') by
    unfold Ends at h
    split at h <;> next heq => rw [heq]; exact h
  have hwithin := loadProposals_within (K := K) rm r.projectId
  unfold deleteProposal
  refine Ends.bind (Ends.relabel ((((loadProposals_yields hs hdir hload).within hwithin).ends_within
    (loadProposals_plain r.projectId) hwithin).mono (fun loaded t ht => ?_) (fun _ _ h => .inl (h hs.published).1)
    fun _ h => .inl (h hs.published).1))
  obtain ⟨⟨rfl, htrims, hsettled⟩, hsteady⟩ := ht
  have hsame : SameRetained s t ∨ Renamed K r s t := .inl (hsteady hs.published).1
  refine Ends.bind (Ends.look (fun _ hstable _ => ?_) (fun _ _ => hsame) (fun _ _ => hsame) fun _ _ => hsame)
  obtain ⟨⟨⟩, -, hstable⟩ := Outcome.bind_ok.mp hstable
  obtain ⟨dir, hdir, hstable⟩ := Outcome.bind_ok.mp hstable
  obtain ⟨tree, hlookup, -⟩ := Outcome.bind_ok.mp hstable
  have hdir := present_ok.mp hdir
  have hlookup := present_ok.mp hlookup
  have hrenamed : ∀ s', Left K r.projectId r.staging tree (detach r t) s' → SameRetained s s' ∨ Renamed K r s s' :=
    fun s' h => .inr ⟨t, dir, tree, htrims, hsettled, hdir, hlookup, h⟩
  have hpublished := (sound_detach (hs.shrinks htrims.toShrinks) hsettled hdir hlookup).published
  have hdetached := hrenamed (detach r t) ⟨detach r t, some, ⟨Std.Refl.refl _, fun _ _ _ _ _ _ h => h⟩,
    fun rest h => Option.some.inj h ▸ part_refl tree, (leaveStaging_some _ _ _).symm⟩
  refine Ends.bind (Ends.atomic (fun _ => ?_) (fun _ => hsame) (fun _ _ => hdetached) (fun _ => hsame)
    fun _ _ => hdetached)
  refine Ends.bind (Ends.atomic (fun _ => ?_) (fun _ => hdetached) (fun _ _ => hdetached) (fun _ => hdetached)
    fun _ _ => hdetached)
  exact Ends.relabel ((completeProposalStagingCleanup_ends true hpublished (detach_directory hsettled hdir hlookup)
    List.lookup_cons_self _).mono (fun _ => hrenamed) (fun _ => hrenamed) hrenamed)

theorem preflightProject_inventory {objects : Objects} {id : Text} {tree : ProjectTree} {deleting : Bool}
    {dir : ProposalsDirectory} (h : preflightProject K objects id tree deleting = .ok ())
    (hcurrent : tree.current.isSome = true) (hdir : tree.proposals = some dir) :
    preflightProposalInventory K dir = .ok () := by
  obtain ⟨⟨⟩, -, h⟩ := Outcome.bind_ok.mp h
  split at h
  · rename_i hnone
    rw [hnone] at hcurrent
    cases hcurrent
  · simp only [Outcome.bind_ok, present_ok] at h
    obtain ⟨revisions, -, dir', hdir', ⟨⟩, -, ⟨⟩, -, manifest, -, files, -, ⟨⟩, -, ⟨⟩, hinventory, -⟩ := h
    rw [hdir] at hdir'
    cases hdir'
    exact hinventory

theorem lookup_leaveEntry {ν τ : Type} [DecidableEq ν] {name : ν} {tree : τ} {left : τ → Option τ} :
    ([(name, tree)].filterMap (leaveEntry name left)).lookup name = left tree := by
  unfold leaveEntry
  cases h : left tree with
  | none => simp [h]
  | some rest => simp [h]

/-- The next open gives back every project, without the proposal, and leaves nothing in staging. -/
def DeleteProposal.Resumes (K : Crates) (rm : Remover) (r : DeleteProposal) (projects : List PersistedProject)
    (s' : Root) : Prop :=
  Yields (openRoot K rm) s' fun loaded t => loaded = projects.map r.without ∧ ∀ id, Settled t id

/-- The deletion of the proposal has started. -/
def DeleteProposal.Started (r : DeleteProposal) (s s' : Root) : Prop :=
  (∃ dir, s.proposalsOf r.projectId = some dir ∧ r.proposalId ∈ dir.retained.map (·.1)) ∧
    ∀ dir, s'.proposalsOf r.projectId = some dir → r.proposalId ∉ dir.retained.map (·.1)

/-- What is left of the proposal, if anything is, can still be deleted, and no pending deletion of a project has lost
an object. -/
def DeleteProposal.Recoverable (K : Crates) (r : DeleteProposal) (s' : Root) : Prop :=
  (∀ dir, s'.proposalsOf r.projectId = some dir → ∀ left, dir.staging.lookup r.staging = some left → left.Resumable) ∧
    ∀ entry ∈ s'.deleting, preflightProject K s'.objects entry.1.1 entry.2 true = .ok ()

/-- What the staging tree is after the rename. -/
theorem resumes_of_renamed (hs : Sound K s) (hp : Pending K s) {projects : List PersistedProject}
    (hloads : Loads K s projects) {s' : Root} (h : Renamed K r s s') :
    r.Resumes K rm projects s' ↔ r.Recoverable K s' := by
  obtain ⟨t, dir, tree, htrims, hsettled, hdir, hlookup, u, left, hclean, hpart, rfl⟩ := h
  have ht := hs.shrinks htrims.toShrinks
  have hu := (sound_detach ht hsettled hdir hlookup).shrinks hclean.trims.toShrinks
  have hproposals : u.proposalsOf r.projectId =
      some ⟨dir.retained.filter (·.1 != r.proposalId), [(r.staging, tree)]⟩ := by
    rw [hclean.1.1]
    exact detach_directory hsettled hdir hlookup
  have hleft : (leaveStaging r.projectId r.staging left u).proposalsOf r.projectId =
      some ⟨dir.retained.filter (·.1 != r.proposalId), [(r.staging, tree)].filterMap (leaveEntry r.staging left)⟩ := by
    unfold leaveStaging
    rw [proposalsOf_modifyProposals, if_pos rfl, hproposals, Option.map_some]
  have htree : preflightProposalRoot K tree true = .ok () := (hu.staging hproposals List.mem_cons_self).1
  have hdeleting : u.deleting = s.deleting := hclean.trims.deletingEq.trans htrims.deletingEq
  have hbackups : u.backups = s.backups := hclean.trims.backupsEq.trans htrims.backupsEq
  have hdeletingBackups : u.deletingBackups = s.deletingBackups :=
    hclean.trims.deletingBackupsEq.trans htrims.deletingBackupsEq
  constructor
  · intro hresumes
    obtain ⟨⟨⟩, hpreflight, -⟩ := Yields.of_look hresumes
    obtain ⟨-, -, -, -, hpending, -, hprojects⟩ := preflight_ok.mp hpreflight
    refine ⟨fun dir' hdir' rest hrest => ?_, hpending⟩
    rw [hleft] at hdir'
    cases hdir'
    rw [lookup_leaveEntry] at hrest
    refine ((hpart rest hrest).preflight htree).mp ?_
    obtain ⟨project', hproject', hdir'⟩ := proposalsOf_eq_some hleft
    obtain ⟨project, hproject, rfl⟩ := getElem?_modifyProposals hproject'
    have hcurrent := hu.published _ _ hproject
    rw [if_pos rfl] at hproject' hdir'
    have hinventory := preflightProject_inventory
      (hprojects _ (Std.ExtTreeMap.mem_toList_iff_getElem?_eq_some.mpr hproject')).2 hcurrent hdir'
    obtain ⟨-, hstaging, -⟩ := preflightProposalInventory_ok.mp hinventory
    refine hstaging (r.staging, rest) (mem_of_lookup ?_)
    rw [lookup_leaveEntry]
    exact hrest
  · rintro ⟨hresumable, hpending⟩
    have htrims' : Trims K u (leaveStaging r.projectId r.staging left u) := by
      refine trims_leaveStaging fun dir' old rest hdir' hold hrest => ?_
      rw [hproposals] at hdir'
      cases hdir'
      cases List.mem_singleton.mp hold
      have hwhole := hresumable _ hleft rest (by rw [lookup_leaveEntry]; exact hrest)
      exact ⟨((hpart rest hrest).preflight htree).mpr hwhole, (hpart rest hrest).files⟩
    have hpending' : Pending K (leaveStaging r.projectId r.staging left u) := by
      refine ⟨?_, fun entry hentry => ⟨hpending entry hentry, ?_⟩, ?_, ?_⟩
      · change (u.deleting.map (·.1)).Nodup
        rw [hdeleting]
        exact hp.nodup
      · exact (hp.trees entry (hdeleting ▸ hentry)).2
      · change ∀ backup ∈ u.deletingBackups, backup.intact = true ∧ u.deleting ≠ [] ∧
          ∀ entry ∈ u.deleting, backup.nonce = entry.1.2 ∧ backup.projectId = entry.1.1
        rw [hdeletingBackups, hdeleting]
        exact hp.backups
      · change u.backups.length + u.deletingBackups.length ≤ _
        rw [hdeletingBackups, hbackups]
        exact hp.backupCount
    have hkeys : (leaveStaging r.projectId r.staging left u).projects.keys = s.projects.keys :=
      htrims'.keys.trans (hclean.trims.keys.trans ((keys_modify t.projects).trans htrims.keys))
    have hloads' : Loads K (leaveStaging r.projectId r.staging left u) (projects.map r.without) := by
      unfold Loads
      rw [hkeys]
      exact Outcome.mapM_map hloads fun id _ project hread =>
        htrims'.readProject (hclean.trims.readProject (readProject_detach (htrims.readProject hread)))
    refine (openRoot_yields (hu.shrinks htrims'.toShrinks) hpending' hloads').mono fun loaded v hv => ?_
    exact ⟨hv.1, hv.2.2.1⟩

theorem Renamed.deleting {s' : Root} (h : Renamed K r s s') : s'.deleting = s.deleting := by
  obtain ⟨t, dir, tree, htrims, -, -, -, u, left, hclean, -, rfl⟩ := h
  exact hclean.trims.deletingEq.trans htrims.deletingEq

theorem deleteProposal_renamed (hs : Sound K s) {projects : List PersistedProject} (hloads : Loads K s projects)
    {faults : DeleteProposalStep → Fault.Outcome} (hstarted : r.Started s (deleteProposal K rm r faults s).2) :
    Renamed K r s (deleteProposal K rm r faults s).2 := by
  obtain ⟨⟨dir, hdir, hmem⟩, hgone⟩ := hstarted
  obtain ⟨tree, htree, hproposals⟩ := proposalsOf_eq_some hdir
  have hkey : r.projectId ∈ s.projects.keys := by
    rw [Std.ExtTreeMap.mem_keys]
    exact Std.ExtTreeMap.mem_iff_isSome_getElem?.mpr (Option.isSome_iff_exists.mpr ⟨tree, htree⟩)
  obtain ⟨project, -, hread⟩ := Outcome.exists_of_mapM hloads hkey
  obtain ⟨tree', htree', hread⟩ := Outcome.bind_ok.mp hread
  obtain ⟨pointer, files, dir', proposals, -, hdir', hload, -⟩ := readProject_ok.mp hread
  rw [present_ok.mp htree'] at htree
  cases htree
  rw [hproposals] at hdir'
  cases hdir'
  refine (deleteProposal_ends hs hdir hload faults).resolve_left fun hsame => ?_
  have heq := hsame r.projectId
  rw [hdir, Option.map_some] at heq
  obtain ⟨dir', hdir', heq⟩ := Option.map_eq_some_iff.mp heq
  exact hgone dir' hdir' (heq ▸ hmem)

/-! ## A deletion that stops while it removes the tree -/

/-- Everything is done, up to the removal of the tree. -/
def DeleteProposal.stopsAt (n : ℕ) : DeleteProposalStep → Fault.Outcome
  | .clean .removeTree => .stopped n
  | _ => .done

theorem deleteProposal_stops (hs : Sound K s) {dir : ProposalsDirectory} (hdir : s.proposalsOf r.projectId = some dir)
    {proposals : List PersistedProposal} (hload : loadRetained K { dir with staging := [] } = .ok proposals)
    {tree : ProposalTree} (hlookup : dir.retained.lookup r.proposalId = some tree) (hcheck : r.check proposals = .ok ())
    (n : ℕ) : (deleteProposal K rm r (DeleteProposal.stopsAt n) s).2.proposalsOf r.projectId =
      some ⟨dir.retained.filter (·.1 != r.proposalId), [(r.staging, tree)].filterMap (leaveEntry r.staging (rm.proposal n))⟩ := by
  suffices h : Ends (deleteProposal K rm r) (DeleteProposal.stopsAt n) s (fun _ _ => False) (fun _ _ => False) fun s' =>
      s'.proposalsOf r.projectId = some ⟨dir.retained.filter (·.1 != r.proposalId),
        [(r.staging, tree)].filterMap (leaveEntry r.staging (rm.proposal n))⟩ by
    unfold Ends at h
    split at h
    · exact h.elim
    · exact h.elim
    · next heq => rw [heq]; exact h
  have hroot : preflightProposalRoot K tree true = .ok () := by
    obtain ⟨project, hproject, hproposals⟩ := proposalsOf_eq_some hdir
    have hinventory := (hs.projects _ _ hproject).inventory dir hproposals
    exact (preflightProposalInventory_ok.mp hinventory).2.2 _ (mem_of_lookup hlookup)
  have hstable : validateStableProposal tree = .ok () := (preflightProposalRoot_ok.mp hroot).2.2.1 rfl
  unfold deleteProposal
  refine Ends.bind (Ends.relabel ((loadProposals_yields hs hdir hload).mono fun loaded t ht => ?_).ends_smooth)
  obtain ⟨rfl, htrims, hsettled⟩ := ht
  obtain ⟨project, hproject, hproposals⟩ := proposalsOf_eq_some hdir
  obtain ⟨_, hproject', f, rfl, hf⟩ := htrims.found hproject
  have hdir' : t.proposalsOf r.projectId = some (f dir) :=
    Option.bind_eq_some_iff.mpr ⟨_, hproject', by simp only [hproposals, Option.map_some]⟩
  have hlookup' : (f dir).retained.lookup r.proposalId = some tree := by
    rw [(hf dir hproposals).retained]
    exact hlookup
  have hread : (do
      r.check loaded
      let dir ← present (t.proposalsOf r.projectId)
      validateStableProposal (← present (dir.retained.lookup r.proposalId)) : Except StorageError Unit) = .ok () := by
    rw [hcheck, hdir']
    refine Outcome.bind_ok.mpr ⟨(), rfl, Outcome.bind_ok.mpr ⟨f dir, rfl, ?_⟩⟩
    rw [hlookup']
    exact hstable
  refine Ends.bind (Ends.look_done rfl hread ?_)
  refine Ends.bind (Ends.gradual_done rfl (Ends.bind (Ends.gradual_done rfl ?_)))
  have hu := sound_detach (hs.shrinks htrims.toShrinks) hsettled hdir' hlookup'
  have hstaging := detach_directory hsettled hdir' hlookup'
  rw [(hf dir hproposals).retained] at hstaging
  obtain ⟨hpass, hfiles⟩ := hu.staging hstaging List.mem_cons_self
  obtain ⟨candidates, hcandidates, hsized⟩ := proposalSiteObjectBindings_sized hu.sizing hpass
    (sizes_of_valid (files_valid hpass) hfiles)
  have hfound : ((detach r t).proposalsOf r.projectId).bind (·.staging.lookup r.staging) = some tree := by
    rw [hstaging, Option.bind_some, List.lookup_cons_self]
  unfold completeProposalStagingCleanup
  refine Ends.relabel (Ends.bind (Ends.look_done rfl (congrArg Except.ok hfound) ?_))
  refine Ends.bind (Ends.look_done rfl hcandidates ?_)
  refine Ends.bind (Ends.relabel ((cleanupCandidateObjects_yields hu hsized).mono fun _ v hv => ?_).ends_smooth)
  refine Ends.bind (Ends.gradual_stopped rfl ?_)
  have hv' : v.proposalsOf r.projectId = (detach r t).proposalsOf r.projectId := by rw [hv.1.1]; rfl
  unfold leaveStaging
  rw [proposalsOf_modifyProposals, if_pos rfl, hv', hstaging, Option.map_some]

end

/-! ## A sample -/

section

def sampleProposal : ProposalTree := ⟨some sampleRevision.site, some [123, 125], none, none, none⟩

def sampleProposalId : Text := "pro_".toList ++ List.replicate 32 '0'

def sampleProposals : ProposalsDirectory := ⟨[(sampleProposalId, sampleProposal)], []⟩

/-- The project of `sampleRevision`, with a proposal of the same site. -/
def sampleProject : ProjectTree where
  creating := false
  project := some sampleRevision.projectId
  layoutMarker := true
  current := some sampleRevision.pointer
  site := some sampleRevision.site
  revisions := some [sampleRevision.manifest]
  proposals := some sampleProposals
  directories := ["targets".toList, "synapse".toList, "exports".toList, "publications".toList]

def sampleRoot : Root where
  objects := (∅ : Objects).insert (sampleCrates.sha256 [1]) [1]
  projects := (∅ : Std.ExtTreeMap Text ProjectTree compare).insert sampleRevision.projectId sampleProject
  deleting := []
  backups := []
  deletingBackups := []

def samplePersisted : PersistedProject :=
  ⟨sampleRevision.projectId, sampleRevision.pointer.revisionId, sampleRevision.pointer.artifactManifestSha256,
    sampleRevision.site.files, [⟨sampleProposalId, some [123, 125], none, none, none, sampleRevision.site.files⟩]⟩

theorem sample_projects {id : Text} {tree : ProjectTree} (h : sampleRoot.projects[id]? = some tree) :
    id = sampleRevision.projectId ∧ tree = sampleProject := by
  change ((∅ : Std.ExtTreeMap Text ProjectTree compare).insert sampleRevision.projectId sampleProject)[id]? = some tree at h
  rw [Std.ExtTreeMap.getElem?_insert] at h
  split at h
  · rename_i heq
    cases h
    exact ⟨(Std.LawfulEqCmp.eq_of_compare heq).symm, rfl⟩
  · rw [Std.ExtTreeMap.getElem?_empty] at h
    cases h

theorem sample_project : sampleRoot.projects[sampleRevision.projectId]? = some sampleProject :=
  Std.ExtTreeMap.getElem?_insert_self

theorem sample_keys : sampleRoot.projects.keys = [sampleRevision.projectId] := by
  refine keys_eq (List.pairwise_singleton _ _) fun id => ?_
  rw [Std.ExtTreeMap.mem_iff_isSome_getElem?, Option.isSome_iff_exists, List.mem_singleton]
  constructor
  · rintro ⟨tree, htree⟩
    exact (sample_projects htree).1
  · rintro rfl
    exact ⟨sampleProject, sample_project⟩

theorem sample_object : sampleRoot.objects[sampleCrates.sha256 [1]]? = some [1] :=
  Std.ExtTreeMap.getElem?_insert_self

theorem sample_scan : scanMaterialized sampleCrates sampleRevision.site = .ok sampleRevision.manifest.files := by
  have hstored : storedFiles sampleCrates sampleRevision.site.files = some sampleRevision.manifest.files :=
    if_pos ⟨by decide, by decide, by decide, by decide, by decide⟩
  unfold scanMaterialized
  rw [if_pos ⟨by decide, by decide⟩, hstored]
  rfl

theorem sample_mentions {file : StoredFile} (h : sampleRoot.Mentions sampleCrates file) :
    file = store sampleCrates ("index.html".toList, [1]) := by
  rcases h with ⟨id, tree, htree, hfile⟩ | ⟨entry, hentry, -⟩
  · obtain ⟨-, rfl⟩ := sample_projects htree
    rcases hfile with (⟨revisions, hrevisions, manifest, hmanifest, hfile⟩ | ⟨dir, hdir, entry, hentry, site, hsite, f, hf,
      rfl⟩) | ⟨dir, hdir, entry, hentry, -⟩
    · cases hrevisions
      cases List.mem_singleton.mp hmanifest
      exact List.mem_singleton.mp hfile
    · cases hdir
      cases List.mem_singleton.mp hentry
      cases hsite
      rw [List.mem_singleton.mp hf]
    · cases hdir
      exact absurd hentry List.not_mem_nil
  · exact absurd hentry List.not_mem_nil

theorem sample_preflight : preflightProposalRoot sampleCrates sampleProposal true = .ok () := by
  refine preflightProposalRoot_ok.mpr ⟨fun site hsite => ?_, by decide, fun _ => by decide, by decide⟩
  cases hsite
  exact sample_scan

theorem sample_load : loadManifestFiles sampleCrates sampleRoot.objects sampleRevision.manifest =
    .ok sampleRevision.site.files := by
  have hread : readObject sampleCrates sampleRoot.objects (store sampleCrates ("index.html".toList, [1])) =
      .ok ("index.html".toList, [1]) := by
    unfold readObject store
    rw [sample_object]
    exact if_pos ⟨rfl, rfl⟩
  refine Outcome.mapM_ok.mpr (.cons hread .nil)

theorem sample_valid : validateProject sampleCrates sampleRoot.objects sampleRevision.projectId sampleProject =
    .ok (sampleRevision.pointer, sampleRevision.site.files) := by
  have hmanifest : validateManifest sampleCrates sampleRevision.manifest = .ok () :=
    Outcome.bind_ok.mpr ⟨(), by decide, Outcome.bind_ok.mpr ⟨(), by decide, scan_valid sample_scan⟩⟩
  refine validateProject_ok.mpr ⟨[sampleRevision.manifest], sampleRevision.manifest, by decide, rfl, rfl, by decide, rfl,
    ?_, sample_load, ?_, ?_⟩
  · unfold readManifest
    rw [List.find?_cons_of_pos (by decide)]
    exact Outcome.bind_ok.mpr ⟨(), by decide, Outcome.bind_ok.mpr ⟨(), hmanifest, rfl⟩⟩
  · exact Outcome.bind_ok.mpr ⟨_, rfl, Outcome.bind_ok.mpr ⟨_, sample_scan, ensure_ok.mpr rfl⟩⟩
  · refine validateAllRetainedRevisions_ok.mpr ⟨by decide, List.cons_ne_nil _ _, fun manifest hmem => ?_⟩
    cases List.mem_singleton.mp hmem
    exact ⟨hmanifest, _, sample_load⟩

theorem sample_sound : Sound sampleCrates sampleRoot where
  projects id tree htree := by
    obtain ⟨rfl, rfl⟩ := sample_projects htree
    refine ⟨by decide, ⟨_, sample_valid⟩, fun dir hdir => ?_⟩
    cases hdir
    refine preflightProposalInventory_ok.mpr ⟨by decide, fun entry hentry => absurd hentry List.not_mem_nil, ?_⟩
    intro entry hentry
    cases List.mem_singleton.mp hentry
    exact sample_preflight
  count := by
    rw [← Std.ExtTreeMap.length_keys, sample_keys]
    exact Nat.le_of_ble_eq_true rfl
  entries := by
    rw [← Std.ExtTreeMap.length_keys, sample_keys]
    exact Nat.le_of_ble_eq_true rfl
  backups _ h := absurd h List.not_mem_nil
  backupCount := Nat.zero_le _
  agree f g hf hg _ := by rw [sample_mentions hf, sample_mentions hg]
  loose f hf bytes hbytes := by
    rw [sample_mentions hf] at hbytes ⊢
    change sampleRoot.objects[sampleCrates.sha256 [1]]? = some bytes at hbytes
    rw [sample_object] at hbytes
    cases hbytes
    exact ⟨rfl, rfl⟩

theorem sample_pending : Pending sampleCrates sampleRoot :=
  ⟨List.nodup_nil, fun _ h => absurd h List.not_mem_nil, fun _ h => absurd h List.not_mem_nil, Nat.zero_le _⟩

theorem sample_retained : loadRetained sampleCrates sampleProposals =
    .ok [⟨sampleProposalId, some [123, 125], none, none, none, sampleRevision.site.files⟩] := by
  have hload : loadProposal sampleCrates sampleProposalId sampleProposal =
      .ok ⟨sampleProposalId, some [123, 125], none, none, none, sampleRevision.site.files⟩ := by
    refine Outcome.bind_ok.mpr ⟨(), by decide, Outcome.bind_ok.mpr ⟨(), by decide, Outcome.bind_ok.mpr
      ⟨sampleRevision.site.files, ?_, rfl⟩⟩⟩
    exact Outcome.bind_ok.mpr ⟨_, sample_scan, rfl⟩
  exact Outcome.bind_ok.mpr ⟨(), by decide, Outcome.bind_ok.mpr ⟨(), by decide, Outcome.mapM_ok.mpr (.cons hload .nil)⟩⟩

theorem sample_loads : Loads sampleCrates sampleRoot [samplePersisted] := by
  have hread : readProjectOf sampleCrates sampleRoot sampleRevision.projectId = .ok samplePersisted := by
    refine Outcome.bind_ok.mpr ⟨_, present_ok.mpr sample_project, readProject_ok.mpr ⟨_, _, _, _, sample_valid, rfl,
      sample_retained, rfl⟩⟩
  unfold Loads
  rw [sample_keys]
  exact Outcome.mapM_ok.mpr (.cons hread .nil)

def sampleDelete : DeleteProposal :=
  ⟨sampleRevision.projectId, sampleProposalId, [123, 125], none, List.replicate 32 '0'⟩

/-- A remover that takes `proposal.json` first. -/
def metadataFirst : Remover where
  proposal n tree := if n = 0 then some tree else some { tree with proposal := none }
  project _ tree := some tree
  proposal_part n tree left h := by
    split at h
    · cases h
      exact part_refl tree
    · cases h
      exact { part_refl tree with proposal := fun bytes h => (by cases h) }
  project_part n tree left h := sampleRemover.project_part n tree left h

theorem sample_stops (n : ℕ) : (deleteProposal sampleCrates metadataFirst sampleDelete (DeleteProposal.stopsAt n)
    sampleRoot).2.proposalsOf sampleDelete.projectId = some ⟨[], [(sampleDelete.staging, sampleProposal)].filterMap
      (leaveEntry sampleDelete.staging (metadataFirst.proposal n))⟩ := by
  have hdir : sampleRoot.proposalsOf sampleDelete.projectId = some sampleProposals :=
    Option.bind_eq_some_iff.mpr ⟨_, sample_project, rfl⟩
  exact deleteProposal_stops sample_sound hdir sample_retained List.lookup_cons_self (by decide) n

theorem sample_started (n : ℕ) : sampleDelete.Started sampleRoot
    (deleteProposal sampleCrates metadataFirst sampleDelete (DeleteProposal.stopsAt n) sampleRoot).2 := by
  refine ⟨⟨sampleProposals, Option.bind_eq_some_iff.mpr ⟨_, sample_project, rfl⟩, List.mem_cons_self⟩, fun dir hdir => ?_⟩
  rw [sample_stops] at hdir
  cases hdir
  exact List.not_mem_nil

end

/-- A deletion that has ended after the rename, wherever, is finished by the next open if and only if what is left can
still be deleted. -/
theorem deleteProposal_resumes_iff (K : Crates) (rm : Remover) (r : DeleteProposal) (s : Root)
    (projects : List PersistedProject) (faults : DeleteProposalStep → Fault.Outcome) (hs : Sound K s) (hp : Pending K s)
    (hloads : Loads K s projects) (hstarted : r.Started s (deleteProposal K rm r faults s).2) :
    r.Resumes K rm projects (deleteProposal K rm r faults s).2 ↔
      r.Recoverable K (deleteProposal K rm r faults s).2 :=
  resumes_of_renamed hs hp hloads (deleteProposal_renamed hs hloads hstarted)

theorem deleteProposal_resumes_whole : sampleDelete.Resumes sampleCrates metadataFirst [samplePersisted]
    (deleteProposal sampleCrates metadataFirst sampleDelete (DeleteProposal.stopsAt 0) sampleRoot).2 := by
  refine (deleteProposal_resumes_iff sampleCrates metadataFirst sampleDelete sampleRoot [samplePersisted]
    (DeleteProposal.stopsAt 0) sample_sound sample_pending sample_loads (sample_started 0)).mpr ⟨fun dir hdir left hleft => ?_,
      fun entry hentry => ?_⟩
  · rw [sample_stops] at hdir
    cases hdir
    rw [lookup_leaveEntry] at hleft
    cases hleft
    exact ⟨rfl, rfl, rfl⟩
  · rw [(deleteProposal_renamed sample_sound sample_loads (sample_started 0)).deleting] at hentry
    exact absurd hentry List.not_mem_nil

/-- The removal of the tree took `proposal.json` and stopped: the next open fails. -/
theorem deleteProposal_not_resumed : ¬ ∀ (K : Crates) (rm : Remover) (r : DeleteProposal) (s : Root)
    (projects : List PersistedProject) (faults : DeleteProposalStep → Fault.Outcome), Sound K s → Pending K s →
    Loads K s projects → r.Started s (deleteProposal K rm r faults s).2 →
      r.Resumes K rm projects (deleteProposal K rm r faults s).2 := by
  intro h
  have hresumes := h sampleCrates metadataFirst sampleDelete sampleRoot [samplePersisted] (DeleteProposal.stopsAt 1)
    sample_sound sample_pending sample_loads (sample_started 1)
  have hrecoverable := (resumes_of_renamed sample_sound sample_pending sample_loads
    (deleteProposal_renamed sample_sound sample_loads (sample_started 1))).mp hresumes
  have hleft := hrecoverable.1 _ (sample_stops 1) { sampleProposal with proposal := none }
    (by rw [lookup_leaveEntry]; rfl)
  exact absurd hleft.2.1 Bool.false_ne_true

end Root
end LpStudio.Storage
