import LpStudio.Storage.Creation

/-! # Roots in which nothing is published
While a project or a proposal is built out of sight, the root stays one that loads as before: objects are added, trees
come and go in the staging of one project, and no file of a new tree disagrees with the others about an object.
-/
namespace LpStudio.Storage
namespace Root
open Str Fault Fault.Program

/-- The new files agree with each other and with what the root mentions, and their objects, where there, are theirs. -/
structure Clear (K : Crates) (s : Root) (new : StoredFile → Prop) : Prop where
  agree : ∀ f g, new f → s.Mentions K g ∨ new g → f.sha256 = g.sha256 → f.byteLength = g.byteLength
  loose : ∀ f, new f → Loose K s.objects f

/-- The root `t` loads as `s` does, and mentions no other files than `s` and the new ones. -/
structure Unchanged (K : Crates) (s : Root) (projects : List PersistedProject) (new : StoredFile → Prop) (t : Root) :
    Prop where
  sound : Sound K t
  loads : Loads K t projects
  keys : t.projects.keys = s.projects.keys
  trees : ∀ (id : Text) (tree' : ProjectTree), t.projects[id]? = some tree' → ∃ tree, s.projects[id]? = some tree ∧
    tree'.revisions = tree.revisions ∧ tree'.proposals.map (·.retained) = tree.proposals.map (·.retained)
  deleting : t.deleting = []
  deletingBackups : t.deletingBackups = []
  mentions : ∀ file, t.Mentions K file → s.Mentions K file ∨ new file
  loose : ∀ file, new file → Loose K t.objects file

section
variable {K : Crates} {rm : Remover} {s t u : Root} {projects : List PersistedProject} {new : StoredFile → Prop}

theorem Unchanged.pending (h : Unchanged K s projects new t) : Pending K t := by
  refine ⟨?_, fun entry hentry => ?_, fun backup hbackup => ?_, ?_⟩
  · rw [h.deleting]
    exact List.nodup_nil
  · rw [h.deleting] at hentry
    exact absurd hentry List.not_mem_nil
  · rw [h.deletingBackups] at hbackup
    exact absurd hbackup List.not_mem_nil
  · rw [h.deletingBackups]
    exact Nat.le_trans h.sound.backupCount (Nat.le_add_right _ _)

theorem Unchanged.size (h : Unchanged K s projects new t) : t.projects.size = s.projects.size := by
  rw [← Std.ExtTreeMap.length_keys, h.keys, Std.ExtTreeMap.length_keys]

theorem Unchanged.found (h : Unchanged K s projects new t) {id : Text} {tree : ProjectTree}
    (htree : s.projects[id]? = some tree) : ∃ tree', t.projects[id]? = some tree' ∧ tree'.revisions = tree.revisions := by
  have hmem : id ∈ t.projects := by
    rw [← Std.ExtTreeMap.mem_keys, h.keys, Std.ExtTreeMap.mem_keys]
    exact Std.ExtTreeMap.mem_iff_isSome_getElem?.mpr (Option.isSome_iff_exists.mpr ⟨tree, htree⟩)
  obtain ⟨tree', htree'⟩ := Option.isSome_iff_exists.mp (Std.ExtTreeMap.mem_iff_isSome_getElem?.mp hmem)
  obtain ⟨other, hother, hrevisions, -⟩ := h.trees id tree' htree'
  rw [htree] at hother
  cases hother
  exact ⟨tree', htree', hrevisions⟩

theorem Unchanged.refl (hs : Sound K s) (hloads : Loads K s projects) (hdeleting : s.deleting = [])
    (hbackups : s.deletingBackups = []) (hclear : Clear K s new) : Unchanged K s projects new s where
  sound := hs
  loads := hloads
  keys := rfl
  trees _ tree h := ⟨tree, h, rfl, rfl⟩
  deleting := hdeleting
  deletingBackups := hbackups
  mentions _ h := .inl h
  loose := hclear.loose

/-! ## Objects -/

theorem insertObject_rest (digest : Text) (bytes : Bytes) (t : Root) :
    insertObject digest bytes t = { t with objects := (insertObject digest bytes t).objects } := by
  unfold insertObject
  split
  · rfl
  · rfl

theorem insertObject_mentions {digest : Text} {bytes : Bytes} {file : StoredFile} :
    (insertObject digest bytes t).Mentions K file ↔ t.Mentions K file := by
  rw [insertObject_rest]
  exact Iff.rfl

/-- What the object of a file is after an insertion. -/
theorem insertObject_cases {digest other : Text} {bytes held : Bytes}
    (h : (insertObject digest bytes t).objects[other]? = some held) :
    t.objects[other]? = some held ∨ digest = other ∧ bytes = held := by
  unfold insertObject at h
  split at h
  · exact .inl h
  · change (t.objects.insert digest bytes)[other]? = some held at h
    rw [Std.ExtTreeMap.getElem?_insert] at h
    split at h
    · rename_i heq
      exact .inr ⟨Std.LawfulEqCmp.eq_of_compare heq, Option.some.inj h⟩
    · exact .inl h

theorem Loose.insertObject {file : StoredFile} {bytes : Bytes} (h : Loose K t.objects file)
    (hagree : K.sha256 bytes = file.sha256 → bytes.length = file.byteLength) :
    Loose K (Root.insertObject (K.sha256 bytes) bytes t).objects file := by
  intro held hheld
  rcases insertObject_cases hheld with hold | ⟨hdigest, rfl⟩
  · exact h held hold
  · exact ⟨hagree hdigest, hdigest⟩

theorem readProjectOf_kept {id : Text} {project : PersistedProject} (hprojects : u.projects = t.projects)
    (hkept : ∀ (digest : Text) (bytes : Bytes), t.objects[digest]? = some bytes → u.objects[digest]? = some bytes)
    (h : readProjectOf K t id = .ok project) : readProjectOf K u id = .ok project := by
  obtain ⟨tree, htree, h⟩ := Outcome.bind_ok.mp h
  obtain ⟨pointer, files, dir, proposals, hvalid, hdir, hload, rfl⟩ := readProject_ok.mp h
  refine Outcome.bind_ok.mpr ⟨tree, hprojects ▸ htree, readProject_ok.mpr ⟨pointer, files, dir, proposals, ?_, hdir, hload, rfl⟩⟩
  exact validateProject_kept hvalid fun file _ bytes hbytes => hkept file.sha256 bytes hbytes

theorem Unchanged.insertObject (h : Unchanged K s projects new t) (hclear : Clear K s new) {file : Text × Bytes}
    (hfile : new (store K file)) : Unchanged K s projects new (Root.insertObject (K.sha256 file.2) file.2 t) := by
  have hagree : ∀ g, t.Mentions K g ∨ new g → K.sha256 file.2 = g.sha256 → file.2.length = g.byteLength := by
    rintro g (hg | hg) hdigest
    · exact hclear.agree (store K file) g hfile (h.mentions g hg) hdigest
    · exact hclear.agree (store K file) g hfile (.inr hg) hdigest
  have hprojects := insertObject_projects (K.sha256 file.2) file.2 t
  have hrest := insertObject_rest (K.sha256 file.2) file.2 t
  have hdeleting : (Root.insertObject (K.sha256 file.2) file.2 t).deleting = t.deleting := by rw [hrest]
  have hbackups : (Root.insertObject (K.sha256 file.2) file.2 t).backups = t.backups := by rw [hrest]
  refine ⟨⟨fun id tree htree => ?_, ?_, ?_, ?_, ?_, fun f g hf hg => ?_, fun f hf => ?_⟩, ?_, ?_, fun id tree' htree' => ?_,
    hdeleting.trans h.deleting, ?_, fun f hf => h.mentions f (insertObject_mentions.mp hf), fun f hf => ?_⟩
  · rw [hprojects] at htree
    obtain ⟨hname, ⟨found, hvalid⟩, hinventory⟩ := h.sound.projects id tree htree
    exact ⟨hname, ⟨found, validateProject_kept hvalid fun _ _ _ hb => insertObject_keeps hb⟩, hinventory⟩
  · rw [hprojects]
    exact h.sound.count
  · rw [hprojects, hdeleting]
    exact h.sound.entries
  · rw [hbackups]
    exact h.sound.backups
  · rw [hbackups]
    exact h.sound.backupCount
  · exact h.sound.agree f g (insertObject_mentions.mp hf) (insertObject_mentions.mp hg)
  · have hf := insertObject_mentions.mp hf
    exact Loose.insertObject (h.sound.loose f hf) (hagree f (.inl hf))
  · unfold Loads
    rw [hprojects]
    exact Outcome.mapM_imp h.loads fun id _ project hread =>
      readProjectOf_kept hprojects (fun _ _ hb => insertObject_keeps hb) hread
  · rw [hprojects]
    exact h.keys
  · rw [hprojects] at htree'
    exact h.trees id tree' htree'
  · rw [hrest]
    exact h.deletingBackups
  · exact Loose.insertObject (h.loose f hf) (hagree f (.inr hf))

/-- Writing the new files keeps the root unchanged, and the projects as they are. -/
theorem writeObjects_unchanged (hclear : Clear K s new) {files : List (Text × Bytes)}
    (hfiles : ∀ file ∈ files, new (store K file)) :
    Within (fun t u => Unchanged K s projects new t ∧ t.projects = s.projects →
      Unchanged K s projects new u ∧ u.projects = s.projects) (files.forM (writeObject K)) := by
  refine Within.forM fun file hfile => Within.bind (Within.look _ _ _) fun _ => Within.atomic fun t h => ?_
  exact ⟨h.1.insertObject hclear (hfiles file hfile), (insertObject_projects _ _ t).trans h.2⟩

/-! ## Staging trees -/

theorem Unchanged.trims (h : Unchanged K s projects new t) (htrims : Trims K t u) : Unchanged K s projects new u := by
  refine ⟨h.sound.shrinks htrims.toShrinks, ?_, htrims.keys.trans h.keys, fun id tree' htree' => ?_,
    htrims.deletingEq.trans h.deleting, htrims.deletingBackupsEq.trans h.deletingBackups,
    fun file hfile => h.mentions file (htrims.mentions hfile), fun file hfile bytes hbytes => ?_⟩
  · unfold Loads
    rw [htrims.keys]
    exact Outcome.mapM_imp h.loads fun id _ project hread => htrims.readProject hread
  · obtain ⟨middle, hmiddle, f, rfl, hf⟩ := htrims.trees id tree' htree'
    obtain ⟨tree, htree, hrevisions, hretained⟩ := h.trees id middle hmiddle
    refine ⟨tree, htree, hrevisions, ?_⟩
    rw [← hretained]
    cases hdir : middle.proposals with
    | none => simp
    | some dir => simp [(hf dir hdir).retained]
  · exact h.loose file hfile bytes (htrims.sub _ bytes hbytes)

/-- A change to the staging of one project, with trees of new files. -/
theorem Unchanged.restage (h : Unchanged K s projects new t) (hclear : Clear K s new) {id : Text}
    {f : ProposalsDirectory → ProposalsDirectory} {dir : ProposalsDirectory} (hdir : t.proposalsOf id = some dir)
    (hretained : (f dir).retained = dir.retained) (hcount : (f dir).staging.length ≤ maxStagingEntries)
    (hpass : ∀ entry ∈ (f dir).staging, preflightProposalRoot K entry.2 entry.1.deleting = .ok ())
    (hnew : ∀ entry ∈ (f dir).staging, ∀ file ∈ entry.2.files K, new file) :
    Unchanged K s projects new (modifyProposals id f t) := by
  obtain ⟨project, hproject, hproposals⟩ := proposalsOf_eq_some hdir
  have hmentions : ∀ file, (modifyProposals id f t).Mentions K file → t.Mentions K file ∨ new file := by
    rintro file (⟨other, tree', htree', hfile⟩ | hfile)
    · obtain ⟨tree, htree, rfl⟩ := getElem?_modifyProposals htree'
      split at hfile
      · rename_i heq
        rw [← heq, hproject] at htree
        cases htree
        rcases hfile with (hrevision | ⟨dir', hdir', entry, hentry, site, hsite, hfound⟩) | ⟨dir', hdir', entry, hentry, hfound⟩
        · exact .inl (.inl ⟨id, project, hproject, .inl (.inl hrevision)⟩)
        · rw [hproposals] at hdir'
          cases hdir'
          rw [hretained] at hentry
          exact .inl (.inl ⟨id, project, hproject, .inl (.inr ⟨dir, hproposals, entry, hentry, site, hsite, hfound⟩)⟩)
        · rw [hproposals] at hdir'
          cases hdir'
          exact .inr (hnew entry hentry file hfound)
      · exact .inl (.inl ⟨other, tree, htree, hfile⟩)
    · exact .inl (.inr hfile)
  have hsize : (modifyProposals id f t).projects.size = t.projects.size := Std.ExtTreeMap.size_modify
  refine ⟨⟨fun other tree' htree' => ?_, hsize ▸ h.sound.count, hsize ▸ h.sound.entries, h.sound.backups, h.sound.backupCount,
    fun f g hf hg hdigest => ?_, fun f hf => ?_⟩, ?_, (keys_modify t.projects).trans h.keys, fun other tree' htree' => ?_,
    h.deleting, h.deletingBackups, fun file hfile => ?_, h.loose⟩
  · obtain ⟨tree, htree, rfl⟩ := getElem?_modifyProposals htree'
    obtain ⟨hname, ⟨found, hvalid⟩, hdirs⟩ := h.sound.projects other tree htree
    split
    · rename_i heq
      rw [← heq, hproject] at htree
      cases htree
      refine ⟨hname, ⟨found, ?_⟩, fun dir' hdir' => ?_⟩
      · rw [validateProject_proposals]
        exact hvalid
      · rw [hproposals] at hdir'
        cases hdir'
        obtain ⟨hnames, -, hall⟩ := preflightProposalInventory_ok.mp (hdirs dir hproposals)
        obtain ⟨hids, hlength, -⟩ := validateProposalNames_ok.mp hnames
        refine preflightProposalInventory_ok.mpr ⟨validateProposalNames_ok.mpr ?_, hpass, ?_⟩
        · rw [hretained]
          exact ⟨hids, hlength, hcount⟩
        · rw [hretained]
          exact hall
    · exact ⟨hname, ⟨found, hvalid⟩, hdirs⟩
  · rcases hmentions f hf with hold | hf
    · rcases hmentions g hg with hold' | hg
      · exact h.sound.agree f g hold hold' hdigest
      · exact (hclear.agree g f hg (h.mentions f hold) hdigest.symm).symm
    · rcases hmentions g hg with hold' | hg
      · exact hclear.agree f g hf (h.mentions g hold') hdigest
      · exact hclear.agree f g hf (.inr hg) hdigest
  · rcases hmentions f hf with hold | hf
    · exact h.sound.loose f hold
    · exact h.loose f hf
  · unfold Loads
    rw [show (modifyProposals id f t).projects.keys = t.projects.keys from keys_modify t.projects]
    refine Outcome.mapM_imp h.loads fun other _ persisted hread => ?_
    obtain ⟨tree, htree, hread⟩ := Outcome.bind_ok.mp hread
    have htree := present_ok.mp htree
    obtain ⟨pointer, files, dir', proposals, hvalid, hdir', hload, rfl⟩ := readProject_ok.mp hread
    have hfound : (modifyProposals id f t).projects[other]? =
        some (if id = other then { tree with proposals := tree.proposals.map f } else tree) := by
      unfold modifyProposals
      simp only [Std.ExtTreeMap.getElem?_modify, Std.LawfulEqCmp.compare_eq_iff_eq]
      split
      · rename_i heq
        rw [heq, htree, Option.map_some]
      · exact htree
    refine Outcome.bind_ok.mpr ⟨_, present_ok.mpr hfound, ?_⟩
    split
    · rename_i heq
      rw [← heq, hproject] at htree
      cases htree
      rw [hproposals] at hdir'
      cases hdir'
      refine readProject_ok.mpr ⟨pointer, files, f dir, proposals, ?_, ?_, ?_, rfl⟩
      · rw [validateProject_proposals, ← heq]
        exact heq ▸ hvalid
      · simp only [hproposals, Option.map_some]
      · exact (congrArg (fun retained => loadRetained K ⟨retained, []⟩) hretained).trans hload
    · exact readProject_ok.mpr ⟨pointer, files, dir', proposals, hvalid, hdir', hload, rfl⟩
  · obtain ⟨middle, hmiddle, rfl⟩ := getElem?_modifyProposals htree'
    obtain ⟨tree, htree, hrevisions, hkept⟩ := h.trees other middle hmiddle
    split
    · rename_i heq
      rw [← heq, hproject] at hmiddle
      cases hmiddle
      refine ⟨tree, htree, hrevisions, ?_⟩
      rw [← hkept]
      simp only [hproposals, Option.map_some, hretained]
    · exact ⟨tree, htree, hrevisions, hkept⟩
  · rcases hmentions file hfile with hold | hnew
    · exact h.mentions file hold
    · exact .inr hnew

end

/-! ## Preparing a proposal -/

/-- The files that `prepare_proposal` may put into its staging directory. -/
def PrepareProposal.New (K : Crates) (partly : ℕ → SiteTree → SiteTree) (r : PrepareProposal) (file : StoredFile) : Prop :=
  (∃ f ∈ r.site.files, store K f = file) ∨ ∃ n, ∃ f ∈ (partly n r.site).files, store K f = file

/-- The site, and whatever there is of it in between, can be scanned. -/
def PrepareProposal.Scannable (K : Crates) (partly : ℕ → SiteTree → SiteTree) (r : PrepareProposal) : Prop :=
  scanMaterialized K r.site = .ok (r.site.files.map (store K)) ∧
    ∀ n, scanMaterialized K (partly n r.site) = .ok ((partly n r.site).files.map (store K))

/-- The body of `prepare_proposal` up to the rename. -/
def buildSite (K : Crates) (partly : ℕ → SiteTree → SiteTree) (r : PrepareProposal) :
    Program PrepareStep Root StorageError Unit := do
  Program.look .io .list fun _ => (storedFiles K r.site.files).elim (.error .unsafeImport) fun _ => .ok ()
  (r.site.files.forM (writeObject K)).relabel .object
  .gradual .io .materialize
    (fun n s => if n = 0 then s else changeStaging r (fun tree => { tree with site := some (partly n r.site) }) s)
    (changeStaging r fun tree => { tree with site := some r.site })
  .atomic .io .writeProposal (changeStaging r fun tree => { tree with proposal := some r.canonicalMetadata })

/-- The staging directory is the only one of the project, and holds this much. -/
def Staged (K : Crates) (s : Root) (projects : List PersistedProject) (new : StoredFile → Prop) (r : PrepareProposal)
    (site : Option SiteTree) (proposal : Option Bytes) (t : Root) : Prop :=
  Unchanged K s projects new t ∧ ∃ retained, t.proposalsOf r.projectId =
    some ⟨retained, [(r.staging, ⟨site, proposal, none, none, none⟩)]⟩

section
variable {K : Crates} {rm : Remover} {s t u : Root} {projects : List PersistedProject}
  {partly : ℕ → SiteTree → SiteTree} {r : PrepareProposal} {site site' : Option SiteTree} {proposal proposal' : Option Bytes}

theorem buildProposal_eq : buildProposal K partly r = (do
    buildSite K partly r
    .atomic .io .rename (publish r)
    .atomic .io .sync id) := by
  simp only [buildProposal, buildSite, bind_assoc]

theorem creating_passes (hscan : ∀ x, site = some x → scanMaterialized K x = .ok (x.files.map (store K)))
    (hlength : ∀ bytes, proposal = some bytes → bytes.length ≤ maxProposalMetadataBytes) :
    preflightProposalRoot K ⟨site, proposal, none, none, none⟩ false = .ok () := by
  refine preflightProposalRoot_ok.mpr ⟨hscan, readProposalFiles_ok.mpr ?_, fun h => (by cases h), ?_⟩
  · simpa using hlength
  · cases proposal <;> rfl

theorem creating_files {x : SiteTree} {file : StoredFile}
    (h : file ∈ (⟨some x, proposal, none, none, none⟩ : ProposalTree).files K) : ∃ f ∈ x.files, store K f = file := by
  simpa [ProposalTree.files] using h

/-- A change to the tree in staging. -/
theorem Staged.change (h : Staged K s projects (r.New K partly) r site proposal t) (hclear : Clear K s (r.New K partly))
    {f : ProposalTree → ProposalTree} (hf : f ⟨site, proposal, none, none, none⟩ = ⟨site', proposal', none, none, none⟩)
    (hscan : ∀ x, site' = some x → scanMaterialized K x = .ok (x.files.map (store K)) ∧
      ∀ f ∈ x.files, r.New K partly (store K f))
    (hlength : ∀ bytes, proposal' = some bytes → bytes.length ≤ maxProposalMetadataBytes) :
    Staged K s projects (r.New K partly) r site' proposal' (changeStaging r f t) := by
  obtain ⟨hu, retained, hdir⟩ := h
  have hentry : [(r.staging, (⟨site, proposal, none, none, none⟩ : ProposalTree))].filterMap
      (leaveEntry r.staging fun tree => some (f tree)) = [(r.staging, ⟨site', proposal', none, none, none⟩)] := by
    simp [leaveEntry, hf]
  refine ⟨hu.restage hclear hdir rfl ?_ ?_ ?_, retained, ?_⟩
  · rw [hentry]
    exact Nat.le_of_ble_eq_true rfl
  · rw [hentry]
    intro entry hmem
    cases List.mem_singleton.mp hmem
    exact creating_passes (fun x hx => (hscan x hx).1) hlength
  · rw [hentry]
    intro entry hmem file hfile
    cases List.mem_singleton.mp hmem
    cases site' with
    | none => exact absurd hfile List.not_mem_nil
    | some x =>
      obtain ⟨f, hf, rfl⟩ := creating_files hfile
      exact (hscan x rfl).2 f hf
  · unfold changeStaging leaveStaging
    rw [proposalsOf_modifyProposals, if_pos rfl, hdir, Option.map_some, hentry]

/-- What is in staging can be scanned, and holds new files only. -/
def Building (K : Crates) (s : Root) (projects : List PersistedProject) (partly : ℕ → SiteTree → SiteTree)
    (r : PrepareProposal) (t : Root) : Prop :=
  ∃ site proposal, Staged K s projects (r.New K partly) r site proposal t ∧
    (∀ x, site = some x → scanMaterialized K x = .ok (x.files.map (store K)) ∧
      ∀ f ∈ x.files, r.New K partly (store K f)) ∧
    ∀ bytes, proposal = some bytes → bytes.length ≤ maxProposalMetadataBytes

theorem Building.withSite (h : Building K s projects partly r t) (hclear : Clear K s (r.New K partly)) {x : SiteTree}
    (hscan : scanMaterialized K x = .ok (x.files.map (store K))) (hnew : ∀ f ∈ x.files, r.New K partly (store K f)) :
    Building K s projects partly r (changeStaging r (fun tree => { tree with site := some x }) t) := by
  obtain ⟨site, proposal, hstaged, -, hlength⟩ := h
  have hfits : ∀ y, some x = some y → scanMaterialized K y = .ok (y.files.map (store K)) ∧
      ∀ f ∈ y.files, r.New K partly (store K f) := by
    intro y hy
    cases hy
    exact ⟨hscan, hnew⟩
  exact ⟨some x, proposal, hstaged.change hclear rfl hfits hlength, hfits, hlength⟩

theorem Building.withProposal (h : Building K s projects partly r t) (hclear : Clear K s (r.New K partly))
    (hmetadata : r.canonicalMetadata.length ≤ maxProposalMetadataBytes) :
    Building K s projects partly r
      (changeStaging r (fun tree => { tree with proposal := some r.canonicalMetadata }) t) := by
  obtain ⟨site, proposal, hstaged, hscan, -⟩ := h
  have hfits : ∀ bytes, some r.canonicalMetadata = some bytes → bytes.length ≤ maxProposalMetadataBytes := by
    intro bytes hbytes
    cases hbytes
    exact hmetadata
  exact ⟨site, _, hstaged.change hclear rfl hscan hfits, hscan, hfits⟩

theorem Building.insertObject (h : Building K s projects partly r t) (hclear : Clear K s (r.New K partly))
    {file : Text × Bytes} (hfile : r.New K partly (store K file)) :
    Building K s projects partly r (Root.insertObject (K.sha256 file.2) file.2 t) := by
  obtain ⟨site, proposal, ⟨hu, retained, hdir⟩, hfits⟩ := h
  refine ⟨site, proposal, ⟨hu.insertObject hclear hfile, retained, ?_⟩, hfits⟩
  unfold proposalsOf
  rw [insertObject_projects]
  exact hdir

theorem buildSite_within (hclear : Clear K s (r.New K partly)) (hscan : r.Scannable K partly)
    (hmetadata : r.canonicalMetadata.length ≤ maxProposalMetadataBytes) :
    Within (fun t u => Building K s projects partly r t → Building K s projects partly r u) (buildSite K partly r) := by
  have hwhole : ∀ f ∈ r.site.files, r.New K partly (store K f) := fun f hf => .inl ⟨f, hf, rfl⟩
  unfold buildSite
  refine Within.bind (Within.look _ _ _) fun _ => Within.bind (Within.relabel (Within.forM fun file hfile => ?_)) fun _ =>
    Within.bind (Within.gradual (fun n t h => ?_) fun t h => h.withSite hclear hscan.1 hwhole) fun _ =>
      Within.atomic fun t h => h.withProposal hclear hmetadata
  · exact Within.bind (Within.look _ _ _) fun _ => Within.atomic fun t h => h.insertObject hclear (hwhole file hfile)
  · split
    · exact h
    · exact h.withSite hclear (hscan.2 n) fun f hf => .inr ⟨n, f, hf, rfl⟩

theorem buildSite_avoids : Avoids (fun step => step = .rename ∨ step = .sync) (buildSite K partly r) := by
  unfold buildSite
  refine Avoids.bind (Avoids.look (by simp)) fun _ => Avoids.bind (Avoids.relabel _ (by simp)) fun _ =>
    Avoids.bind (Avoids.gradual (by simp)) fun _ => Avoids.atomic (by simp)

/-- A part of a tree that is being built passes the checks of one. -/
theorem part_passes {left : ProposalTree} (h : left.Part ⟨site, proposal, none, none, none⟩)
    (hscan : ∀ x, site = some x → scanMaterialized K x = .ok (x.files.map (store K)))
    (hlength : ∀ bytes, proposal = some bytes → bytes.length ≤ maxProposalMetadataBytes) :
    preflightProposalRoot K left false = .ok () := by
  have hnone : ∀ {file : Option Bytes}, (∀ bytes, file = some bytes → (none : Option Bytes) = some bytes) → file = none := by
    intro file hfile
    cases file with
    | none => rfl
    | some bytes => cases hfile bytes rfl
  obtain ⟨site', proposal', review', decision', completion'⟩ := left
  obtain rfl : review' = none := hnone h.review
  obtain rfl : decision' = none := hnone h.decision
  obtain rfl : completion' = none := hnone h.completion
  refine creating_passes (fun x hx => ?_) fun bytes hbytes => hlength bytes (h.proposal bytes hbytes)
  obtain ⟨whole, hwhole, hdirectories, hfiles⟩ := h.site x hx
  exact scanMaterialized_sublist hdirectories hfiles (hscan whole hwhole)

/-- The clean-up, wherever it ends, leaves the root unchanged. -/
theorem Building.cleaned (h : Building K s projects partly r t) (faults : StagingStep → Fault.Outcome) :
    Ends (completeProposalStagingCleanup K rm r.projectId r.staging false) faults t
      (fun _ => Unchanged K s projects (r.New K partly)) (fun _ => Unchanged K s projects (r.New K partly))
      fun _ => True := by
  obtain ⟨site, proposal, ⟨hu, retained, hdir⟩, hscan, hlength⟩ := h
  have hleft : ∀ u, Left K r.projectId r.staging ⟨site, proposal, none, none, none⟩ t u →
      Unchanged K s projects (r.New K partly) u := by
    rintro _ ⟨u, left, hclean, hpart, rfl⟩
    have hdir' : u.proposalsOf r.projectId = some ⟨retained, [(r.staging, ⟨site, proposal, none, none, none⟩)]⟩ := by
      rw [hclean.1.1]
      exact hdir
    refine (hu.trims hclean.trims).trims (trims_leaveStaging fun dir tree tree' hfound hmem htree' => ?_)
    rw [hdir'] at hfound
    cases hfound
    cases List.mem_singleton.mp hmem
    have hpart := hpart tree' htree'
    exact ⟨part_passes hpart (fun x hx => (hscan x hx).1) hlength, hpart.files⟩
  exact (completeProposalStagingCleanup_ends false hu.sound.published hdir List.lookup_cons_self faults).mono
    (fun _ => hleft) (fun _ => hleft) fun _ _ => trivial

/-- The proposal has its final name, and nothing is left under the name of the staging directory. -/
def Prepared (r : PrepareProposal) (t : Root) : Prop :=
  ∃ dir, t.proposalsOf r.projectId = some dir ∧ (dir.retained.lookup r.proposalId).isSome = true ∧
    dir.staging.lookup r.staging = none

theorem Building.prepared (h : Building K s projects partly r t) : Prepared r (publish r t) := by
  obtain ⟨site, proposal, ⟨-, retained, hdir⟩, -⟩ := h
  refine ⟨⟨(r.proposalId, ⟨site, proposal, none, none, none⟩) :: retained, []⟩, ?_, ?_, rfl⟩
  · unfold publish
    rw [proposalsOf_modifyProposals, if_pos rfl, hdir, Option.map_some, List.lookup_cons_self]
    simp
  · rw [List.lookup_cons_self]
    rfl

/-- The clean-up does not find what was published. -/
theorem Prepared.cleaned (h : Prepared r t) {faults : StagingStep → Fault.Outcome} (hstat : faults .stat = .done) :
    Ends (completeProposalStagingCleanup K rm r.projectId r.staging false) faults t (fun _ => Prepared r)
      (fun _ => Prepared r) fun _ => False := by
  obtain ⟨dir, hdir, hvisible, hgone⟩ := h
  unfold completeProposalStagingCleanup
  refine Ends.bind (Ends.look_done hstat rfl ?_)
  rw [hdir, Option.bind_some, hgone]
  exact Ends.pure ⟨dir, hdir, hvisible, hgone⟩

theorem prepareProposal_eq : prepareProposal K rm partly r = (do
    Program.look .io .validate fun _ =>
      if r.canonicalMetadata.isEmpty ∨ maxProposalMetadataBytes < r.canonicalMetadata.length then .error .corrupt
      else validateIdentifier r.proposalId "pro_".toList
    (recoverOwnedProposalStaging K rm r.projectId).relabel .recover
    Program.look .io .list fun s => do
      let dir ← present (s.proposalsOf r.projectId)
      if maxPersistedProposals ≤ dir.retained.length ∨ (dir.retained.lookup r.proposalId).isSome then throw .corrupt
    .atomic .io .createDirectory (modifyProposals r.projectId fun dir =>
      { dir with staging := (r.staging, ⟨none, none, none, none, none⟩) :: dir.staging })
    publishing .io (buildSite K partly r) .rename .sync (publish r)
      ((completeProposalStagingCleanup K rm r.projectId r.staging false).relabel .clean)) := by
  unfold prepareProposal publishing
  rw [buildProposal_eq]

theorem metadata_fits {n : ℕ} {bytes : Bytes} {id : Text}
    (h : (if bytes.isEmpty ∨ n < bytes.length then .error .corrupt else validateIdentifier id "pro_".toList :
      Except StorageError Unit) = .ok ()) : bytes.length ≤ n := by
  split at h
  · cases h
  · rename_i hnot
    exact Nat.not_lt.mp fun hlt => hnot (.inr hlt)

theorem list_ok {dir : Except StorageError ProposalsDirectory} {n : ℕ} {id : Text} (h : (do
      let dir ← dir
      if n ≤ dir.retained.length ∨ (dir.retained.lookup id).isSome then throw .corrupt : Except StorageError Unit) =
        .ok ()) : ∃ found, dir = .ok found := by
  obtain ⟨found, hfound, -⟩ := Outcome.bind_ok.mp h
  exact ⟨found, hfound⟩

/-- The staging directory, just created, where there was none. -/
theorem Unchanged.building (h : Unchanged K s projects (r.New K partly) t) (hclear : Clear K s (r.New K partly))
    (hsettled : Settled t r.projectId) {dir : ProposalsDirectory} (hdir : t.proposalsOf r.projectId = some dir) :
    Building K s projects partly r (modifyProposals r.projectId (fun dir =>
      { dir with staging := (r.staging, ⟨none, none, none, none, none⟩) :: dir.staging }) t) := by
  have hstaging := hsettled dir hdir
  refine ⟨none, none, ⟨h.restage hclear hdir rfl ?_ ?_ ?_, dir.retained, ?_⟩, fun x hx => (by cases hx), fun b hb => (by cases hb)⟩
  · rw [hstaging]
    exact Nat.le_of_ble_eq_true rfl
  · rw [hstaging]
    intro entry hmem
    cases List.mem_singleton.mp hmem
    exact creating_passes (fun x hx => (by cases hx)) fun b hb => (by cases hb)
  · rw [hstaging]
    intro entry hmem file hfile
    cases List.mem_singleton.mp hmem
    exact absurd hfile List.not_mem_nil
  · rw [proposalsOf_modifyProposals, if_pos rfl, hdir, Option.map_some, hstaging]

variable {faults : PrepareStep → Fault.Outcome} (hu : Unchanged K s projects (r.New K partly) s)
  (hclear : Clear K s (r.New K partly)) (hscan : r.Scannable K partly)
include hu

/-- The recovery of older staging, where there is none or nothing fails. -/
theorem recover_ends (hrecover : Settled s r.projectId ∨ ∀ step, faults (.recover step) = .done) :
    Ends ((recoverOwnedProposalStaging K rm r.projectId).relabel .recover) faults s
      (fun _ t => Unchanged K s projects (r.New K partly) t ∧ Settled t r.projectId)
      (fun _ => Unchanged K s projects (r.New K partly)) fun _ => True := by
  refine Ends.relabel ?_
  rcases hrecover with hsettled | hdone
  · unfold recoverOwnedProposalStaging
    refine Ends.bind (Ends.look (fun names hnames _ => ?_) (fun _ _ => hu) (fun _ _ => hu) fun _ _ => trivial)
    obtain ⟨dir, hdir, hnames⟩ := Outcome.bind_ok.mp hnames
    obtain ⟨⟨⟩, -, hnames⟩ := Outcome.bind_ok.mp hnames
    cases hnames
    rw [hsettled dir (present_ok.mp hdir)]
    exact Ends.pure ⟨hu, hsettled⟩
  · rw [show faults ∘ PrepareStep.recover = smooth from funext hdone]
    cases hdir : s.proposalsOf r.projectId with
    | none =>
      unfold recoverOwnedProposalStaging
      refine Ends.bind (Ends.look (fun names hnames _ => ?_) (fun _ _ => hu) (fun _ _ => hu) fun _ _ => trivial)
      rw [hdir] at hnames
      cases hnames
    | some dir =>
      exact ((recoverOwnedProposalStaging_yields hu.sound hdir (hu.sound.names hdir)).mono fun _ t ht =>
        ⟨hu.trims ht.1, ht.2⟩).ends_smooth

include hclear hscan

/-- An error of `prepare_proposal` that is not late leaves a root that loads as before. -/
theorem prepareProposal_before (hrecover : Settled s r.projectId ∨ ∀ step, faults (.recover step) = .done)
    (hlate : ¬ Late .rename .sync faults) :
    Ends (prepareProposal K rm partly r) faults s (fun _ _ => True)
      (fun _ => Unchanged K s projects (r.New K partly)) fun _ => True := by
  rw [prepareProposal_eq]
  refine Ends.bind (Ends.look (fun ⟨⟩ hvalid _ => ?_) (fun _ _ => hu) (fun _ _ => hu) fun _ _ => trivial)
  have hmetadata := metadata_fits hvalid
  refine Ends.bind ((recover_ends hu hrecover).mono (fun _ t ht => ?_) (fun _ _ h => h) fun _ h => h)
  obtain ⟨ht, hsettled⟩ := ht
  refine Ends.bind (Ends.look (fun ⟨⟩ hlist _ => ?_) (fun _ _ => ht) (fun _ _ => ht) fun _ _ => trivial)
  obtain ⟨dir, hdir⟩ := list_ok hlist
  have hbuilding := ht.building hclear hsettled (present_ok.mp hdir)
  have hin : ∀ {u}, Building K s projects partly r u → Unchanged K s projects (r.New K partly) u :=
    fun ⟨_, _, ⟨hu, _⟩, _⟩ => hu
  refine Ends.bind (Ends.atomic (fun _ => ?_) (fun _ => ht) (fun _ _ => hin hbuilding) (fun _ => trivial) fun _ _ => trivial)
  have hbuild : ∀ u, Building K s projects partly r u → Ends (buildSite K partly r) faults u
      (fun _ => Building K s projects partly r) (fun _ => Building K s projects partly r) fun _ => True := fun u hu =>
    (buildSite_within hclear hscan hmetadata faults u).mono (fun _ _ h => h hu) (fun _ _ h => h hu) fun _ _ => trivial
  exact publishing_before hlate (hbuild _ hbuilding) fun u hu => Ends.relabel (hu.cleaned _)

/-- A late error of a `prepare_proposal` that would succeed leaves the proposal under its name. -/
theorem prepareProposal_late (hsucceeds : Yields (prepareProposal K rm partly r) s fun _ _ => True)
    (hdone : ∀ step, ¬ (step = .rename ∨ step = .sync) → faults step = .done) (hlate : Late .rename .sync faults)
    (hrename : faults .rename = .done ∨ ∃ n, faults .rename = .failed (n + 1)) :
    Ends (prepareProposal K rm partly r) faults s (fun _ _ => False) (fun _ => Prepared r) fun _ => False := by
  rw [prepareProposal_eq] at hsucceeds ⊢
  obtain ⟨⟨⟩, hvalid, hsucceeds⟩ := hsucceeds.of_look
  have hmetadata := metadata_fits hvalid
  refine Ends.bind (Ends.look_done (hdone _ (by simp)) hvalid ?_)
  have hrecover := hsucceeds.of_bind.and_ends (recover_ends hu (.inr fun _ => rfl))
  refine Ends.bind ((hrecover.mono fun _ t ht => ?_).ends_avoids (Avoids.relabel _ (by simp)) hdone)
  obtain ⟨hrest, ht, hsettled⟩ := ht
  obtain ⟨⟨⟩, hlist, hrest⟩ := hrest.of_look
  refine Ends.bind (Ends.look_done (hdone _ (by simp)) hlist ?_)
  obtain ⟨dir, hdir⟩ := list_ok hlist
  have hdir := present_ok.mp hdir
  have hbuilding := ht.building hclear hsettled hdir
  have hwithin : Within (fun t u => Building K s projects partly r t → Building K s projects partly r u)
      (buildSite K partly r) := buildSite_within hclear hscan hmetadata
  have hbuild : Yields (buildSite K partly r) _ fun _ => Building K s projects partly r :=
    (hrest.of_gradual.of_publishing.within hwithin).mono fun _ _ h => h.2 hbuilding
  refine Ends.bind (Ends.gradual_done (hdone _ (by simp)) ?_)
  exact publishing_late hlate hrename (hbuild.ends_avoids buildSite_avoids hdone) (fun _ h => h.prepared)
    fun _ h => Ends.relabel (h.cleaned (hdone _ (by simp)))

omit hu hclear hscan in
theorem prepareProposal_settles : Settles (fun step => step = .rename ∨ step = .sync) (prepareProposal K rm partly r) := by
  rw [prepareProposal_eq]
  refine Settles.bind (Avoids.look (by simp)) fun _ => Settles.bind (Avoids.relabel _ (by simp)) fun _ =>
    Settles.bind (Avoids.look (by simp)) fun _ => Settles.bind (Avoids.gradual (by simp)) fun _ => ?_
  exact Settles.publishing buildSite_avoids (Avoids.relabel _ (by simp))

end
end Root
end LpStudio.Storage
