import LpStudio.Storage.Unpublished

/-! # An open of a ready store
It removes what is in staging and loads the projects with their generated artifacts.
-/
namespace LpStudio.Storage
namespace Store
open Str Fault Fault.Program

/-- An open loads `loaded`, and no deletion of a project is pending. -/
structure Ready (K : Crates) (isObject : ObjectCheck) (s : Store) (loaded : List StoredProject) : Prop where
  sound : Root.Sound K s.root
  loads : Root.Loads K s.root (loaded.map (·.project))
  deleting : s.root.deleting = []
  deletingBackups : s.root.deletingBackups = []
  creating : s.root.projects.size + s.creating.length ≤ maxPersistedProjects + 16
  staging : ∀ stored ∈ loaded, ∀ kind,
    (s.generated stored.project.id kind).staging.length ≤ maxGeneratedStagingEntries
  exports : ∀ stored ∈ loaded, readGenerated K isObject stored.project.id .staticExport s = .ok stored.exports
  publications : ∀ stored ∈ loaded,
    readGenerated K isObject stored.project.id .publicationDraft s = .ok stored.publications

/-- The records of the collections are the same, and no staging is new. -/
structure Fewer (s t : Store) : Prop where
  root : t.root = s.root
  creating : t.creating = s.creating
  records : ∀ id kind, (t.generated id kind).records = (s.generated id kind).records
  staging : ∀ id kind, (t.generated id kind).staging.length ≤ (s.generated id kind).staging.length

instance : IsPreorder Store Fewer where
  refl _ := ⟨rfl, rfl, fun _ _ => rfl, fun _ _ => Nat.le_refl _⟩
  trans _ _ _ h h' := ⟨h'.root.trans h.root, h'.creating.trans h.creating,
    fun id kind => (h'.records id kind).trans (h.records id kind),
    fun id kind => Nat.le_trans (h'.staging id kind) (h.staging id kind)⟩

section
variable {K : Crates} {rm : Remover} {isObject : ObjectCheck} {s t : Store} {id : Text} {kind : GeneratedArtifactKind}
  {name : GeneratedStagingName} {loaded : List StoredProject} {records : List LoadedGeneratedArtifact}

/-! ## Collections -/

theorem fewer_dropStaging : Fewer s (dropStaging id kind name s) := by
  refine ⟨rfl, rfl, fun other otherKind => ?_, fun other otherKind => ?_⟩
  · unfold dropStaging modifyGenerated
    dsimp only
    split
    · rfl
    · rfl
  · unfold dropStaging modifyGenerated
    dsimp only
    split
    · exact List.length_filter_le _ _
    · exact Nat.le_refl _

/-- What a collection holds depends on its records and on the revisions of the project. -/
theorem readGenerated_congr (hrecords : (t.generated id kind).records = (s.generated id kind).records)
    (hroot : ∀ tree, s.root.projects[id]? = some tree →
      ∃ tree', t.root.projects[id]? = some tree' ∧ tree'.revisions = tree.revisions)
    (h : readGenerated K isObject id kind s = .ok records) : readGenerated K isObject id kind t = .ok records := by
  obtain ⟨tree, htree, h⟩ := Outcome.bind_ok.mp h
  obtain ⟨tree', htree', hrevisions⟩ := hroot tree (Root.present_ok.mp htree)
  refine Outcome.bind_ok.mpr ⟨tree', Root.present_ok.mpr htree', ?_⟩
  rw [hrecords, hrevisions]
  exact h

theorem Fewer.readGenerated (h : Fewer s t) (hread : readGenerated K isObject id kind s = .ok records) :
    readGenerated K isObject id kind t = .ok records := by
  refine readGenerated_congr (h.records id kind) (fun tree htree => ⟨tree, ?_, rfl⟩) hread
  rw [h.root]
  exact htree

theorem loadGeneratedCollection_yields (hstaging : (s.generated id kind).staging.length ≤ maxGeneratedStagingEntries)
    (hread : readGenerated K isObject id kind s = .ok records) :
    Yields (loadGeneratedCollection K isObject id kind) s fun found t => found = records ∧ Fewer s t := by
  have hsize : (s.generated id kind).records.size ≤ kind.maxRecords := by
    obtain ⟨tree, -, h⟩ := Outcome.bind_ok.mp hread
    obtain ⟨⟨⟩, h, -⟩ := Outcome.bind_ok.mp h
    exact boundedDirectoryEntries_ok.mp h
  have hlist : (do
      boundedDirectoryEntries ((s.generated id kind).records.size + (s.generated id kind).staging.length)
        (kind.maxRecords + maxGeneratedStagingEntries)
      return (s.generated id kind).staging.map (·.1) : Except StorageError (List GeneratedStagingName)) =
        .ok ((s.generated id kind).staging.map (·.1)) :=
    Outcome.bind_ok.mpr ⟨(), boundedDirectoryEntries_ok.mpr (Nat.add_le_add hsize hstaging), rfl⟩
  unfold loadGeneratedCollection
  refine Yields.bind (Yields.look hlist (Yields.bind ((Yields.forM (I := fun _ => Fewer s)
    (Std.Refl.refl (r := Fewer) s) fun name rest t _ ht => ?_).mono fun _ t ht => ?_)))
  · exact Yields.bind (Yields.atomic (Yields.atomic (IsTrans.trans _ _ _ ht fewer_dropStaging)))
  · exact Yields.look (ht.readGenerated hread) ⟨rfl, ht⟩

/-- A load of a collection that comes to its end leaves nothing in staging, and returns what the collection holds. -/
theorem loadGeneratedCollection_ends (faults : CollectionStep → Fault.Outcome) :
    Ends (loadGeneratedCollection K isObject id kind) faults s
      (fun found t => Fewer s t ∧ (t.generated id kind).staging = [] ∧ readGenerated K isObject id kind t = .ok found)
      (fun _ => Fewer s) fun _ => True := by
  have hs := Std.Refl.refl (r := Fewer) s
  unfold loadGeneratedCollection
  refine Ends.bind (Ends.look (fun names hnames _ => ?_) (fun _ _ => hs) (fun _ _ => hs) fun _ _ => trivial)
  obtain ⟨⟨⟩, -, hnames⟩ := Outcome.bind_ok.mp hnames
  cases hnames
  refine Ends.bind ((Ends.forM (I := fun rest t => Fewer s t ∧ ∀ entry ∈ (t.generated id kind).staging, entry.1 ∈ rest)
    (E := fun _ => Fewer s) (S := fun _ => True) ⟨hs, fun entry hentry => List.mem_map_of_mem hentry⟩
    fun name rest t ht => ?_).mono (fun _ t ht => ?_) (fun _ _ h => h) fun _ h => h)
  · obtain ⟨hfewer, hrest⟩ := ht
    have hdrop : Fewer s (dropStaging id kind name t) := IsTrans.trans _ _ _ hfewer fewer_dropStaging
    refine Ends.bind (Ends.atomic (fun _ => ?_) (fun _ => hfewer) (fun _ _ => hdrop) (fun _ => trivial) fun _ _ => trivial)
    refine Ends.atomic (fun _ => ⟨hdrop, fun entry hentry => ?_⟩) (fun _ => hdrop) (fun _ _ => hdrop) (fun _ => trivial)
      fun _ _ => trivial
    have hentry : entry ∈ (t.generated id kind).staging.filter (·.1 != name) := by
      simpa [dropStaging, modifyGenerated] using hentry
    obtain ⟨hmem, hne⟩ := List.mem_filter.mp hentry
    refine (List.mem_cons.mp (hrest entry hmem)).resolve_left ?_
    rintro rfl
    simp at hne
  · have hnone : (t.generated id kind).staging = [] :=
      List.eq_nil_iff_forall_not_mem.mpr fun entry hentry => List.not_mem_nil (ht.2 entry hentry)
    exact Ends.look (fun _ hread _ => ⟨ht.1, hnone, hread⟩) (fun _ _ => ht.1) (fun _ _ => ht.1) fun _ _ => trivial

/-- A record carries the id that its directory has for a name. -/
theorem readRecords_ids {revisions : Option (List RevisionManifest)} {archiveTotal metadataTotal : ℕ}
    {entries : List (Text × ArtifactTree)}
    (h : readRecords K isObject revisions id kind archiveTotal metadataTotal entries = .ok records) :
    ∀ record ∈ records, ∃ entry ∈ entries, entry.1 = record.manifest.artifactId := by
  induction entries generalizing records archiveTotal metadataTotal with
  | nil =>
    cases h
    exact fun record hrecord => absurd hrecord List.not_mem_nil
  | cons entry entries ih =>
    obtain ⟨⟨⟩, -, h⟩ := Outcome.bind_ok.mp h
    obtain ⟨record, hrecord, h⟩ := Outcome.bind_ok.mp h
    obtain ⟨rest, hrest, h⟩ := Outcome.bind_ok.mp h
    cases h
    intro other hother
    rcases List.mem_cons.mp hother with rfl | hother
    · refine ⟨entry, List.mem_cons_self, ?_⟩
      simp only [readGeneratedArtifact, Outcome.bind_ok] at hrecord
      obtain ⟨manifest, -, ⟨⟩, hids, ⟨⟩, -, ⟨⟩, -, ⟨⟩, -, ⟨⟩, -, ⟨⟩, -, ⟨⟩, -, _, -, _, -, _, -, ⟨⟩, -, ⟨⟩, -, ⟨⟩, -,
        hrecord⟩ := hrecord
      cases hrecord
      exact (ensure_ok.mp hids).2.2.symm
    · obtain ⟨found, hfound, hid⟩ := ih hrest other hother
      exact ⟨found, List.mem_cons_of_mem entry hfound, hid⟩

theorem readGenerated_ids (h : readGenerated K isObject id kind s = .ok records) :
    ∀ record ∈ records, record.manifest.artifactId ∈ (s.generated id kind).records := by
  intro record hrecord
  obtain ⟨tree, -, h⟩ := Outcome.bind_ok.mp h
  obtain ⟨⟨⟩, -, h⟩ := Outcome.bind_ok.mp h
  obtain ⟨entry, hentry, hid⟩ := readRecords_ids h record hrecord
  rw [← hid, Std.ExtTreeMap.mem_iff_isSome_getElem?]
  exact Option.isSome_iff_exists.mpr ⟨entry.2, Std.ExtTreeMap.mem_toList_iff_getElem?_eq_some.mp hentry⟩

/-! ## The open -/

theorem loadGenerated_yields
    (hstaging : ∀ stored ∈ loaded, ∀ kind,
      (s.generated stored.project.id kind).staging.length ≤ maxGeneratedStagingEntries)
    (hexports : ∀ stored ∈ loaded, readGenerated K isObject stored.project.id .staticExport s = .ok stored.exports)
    (hpublications : ∀ stored ∈ loaded,
      readGenerated K isObject stored.project.id .publicationDraft s = .ok stored.publications) :
    Yields (loadGenerated K isObject (loaded.map (·.project))) s fun again _ => again = loaded := by
  induction loaded generalizing s with
  | nil => exact Yields.pure rfl
  | cons stored loaded ih =>
    have hmem : stored ∈ stored :: loaded := List.mem_cons_self
    refine Yields.bind (Yields.relabel ((loadGeneratedCollection_yields (hstaging stored hmem _)
      (hexports stored hmem)).mono fun exports t ht => ?_))
    obtain ⟨rfl, ht⟩ := ht
    refine Yields.bind (Yields.relabel ((loadGeneratedCollection_yields
      (Nat.le_trans (ht.staging _ _) (hstaging stored hmem _)) (ht.readGenerated (hpublications stored hmem))).mono
        fun publications u hu => ?_))
    obtain ⟨rfl, hu⟩ := hu
    have hu : Fewer s u := IsTrans.trans _ _ _ ht hu
    refine Yields.bind ((ih (fun other hother kind => ?_) (fun other hother => ?_) fun other hother => ?_).mono
      fun again v hv => Yields.pure (hv ▸ rfl))
    · exact Nat.le_trans (hu.staging _ _) (hstaging other (List.mem_cons_of_mem _ hother) kind)
    · exact hu.readGenerated (hexports other (List.mem_cons_of_mem _ hother))
    · exact hu.readGenerated (hpublications other (List.mem_cons_of_mem _ hother))

theorem Ready.preflight (h : Ready K isObject s loaded) : Store.preflight K isObject s = .ok () := by
  have hroot : Root.preflight K s.root = .ok () := by
    refine Root.preflight_ok.mpr ⟨fun backup hbackup => ?_, h.sound.backups, h.sound.backupCount, h.sound.entries,
      fun entry hentry => ?_, h.sound.count, fun entry hentry => ?_⟩
    · rw [h.deletingBackups] at hbackup
      exact absurd hbackup List.not_mem_nil
    · rw [h.deleting] at hentry
      exact absurd hentry List.not_mem_nil
    · have htree := Std.ExtTreeMap.mem_toList_iff_getElem?_eq_some.mp hentry
      exact ⟨(h.sound.projects _ _ htree).name, h.sound.preflightProject htree⟩
  have hentries : s.root.projects.size + s.root.deleting.length + s.creating.length ≤ maxPersistedProjects + 32 := by
    rw [h.deleting]
    exact Nat.le_trans h.creating (Nat.add_le_add_left (Nat.le_of_ble_eq_true rfl) _)
  have hgenerated : (s.root.projects.keys.forM fun id => do
      preflightGenerated K isObject id .staticExport s
      preflightGenerated K isObject id .publicationDraft s) = .ok ⟨⟩ := by
    refine Outcome.forM_ok.mpr fun id hid => ?_
    obtain ⟨project, hproject, hread⟩ := Outcome.exists_of_mapM h.loads hid
    obtain ⟨stored, hstored, rfl⟩ := List.mem_map.mp hproject
    obtain rfl := Root.readProjectOf_id hread
    have hone : ∀ kind records, readGenerated K isObject stored.project.id kind s = .ok records →
        preflightGenerated K isObject stored.project.id kind s = .ok () := fun kind records hread =>
      Outcome.bind_ok.mpr ⟨(), boundedDirectoryEntries_ok.mpr (h.staging stored hstored kind),
        Outcome.bind_ok.mpr ⟨records, hread, rfl⟩⟩
    exact Outcome.bind_ok.mpr ⟨(), hone _ _ (h.exports stored hstored), hone _ _ (h.publications stored hstored)⟩
  exact Outcome.bind_ok.mpr ⟨(), hroot, Outcome.bind_ok.mpr ⟨(), boundedDirectoryEntries_ok.mpr hentries, hgenerated⟩⟩

theorem Ready.pending (h : Ready K isObject s loaded) : Root.Pending K s.root := by
  refine ⟨?_, fun entry hentry => ?_, fun backup hbackup => ?_, ?_⟩
  · rw [h.deleting]
    exact List.nodup_nil
  · rw [h.deleting] at hentry
    exact absurd hentry List.not_mem_nil
  · rw [h.deletingBackups] at hbackup
    exact absurd hbackup List.not_mem_nil
  · rw [h.deletingBackups]
    exact Nat.le_trans h.sound.backupCount (Nat.le_add_right _ _)

/-- An open of a ready store loads what it holds. -/
theorem openStore_yields (h : Ready K isObject s loaded) :
    Yields (openStore K rm isObject) s fun again _ => again = loaded := by
  unfold openStore
  refine Yields.bind (Yields.look h.preflight (Yields.bind (Yields.on (Yields.relabel
    ((Root.recoverOwnedProjectDeletions_yields h.sound h.pending).mono fun _ t ht => ?_)))))
  obtain ⟨hshrinks, hprojects, -⟩ := ht
  have hlist : (do
      boundedDirectoryEntries ((setRoot t s).root.projects.size + (setRoot t s).creating.length) (maxPersistedProjects + 16)
      return (setRoot t s).creating.map (·.1) : Except StorageError (List (Text × Text))) =
        .ok (s.creating.map (·.1)) := by
    refine Outcome.bind_ok.mpr ⟨(), boundedDirectoryEntries_ok.mpr ?_, rfl⟩
    change t.projects.size + s.creating.length ≤ _
    rw [hprojects]
    exact h.creating
  refine Yields.bind (Yields.look hlist (Yields.bind ((Yields.forM
    (I := fun _ u => u.root = t ∧ u.generated = s.generated) ⟨rfl, rfl⟩ fun name rest u _ hu => ?_).mono fun _ u hu => ?_)))
  · exact Yields.bind (Yields.atomic (Yields.atomic hu))
  · obtain ⟨hroot, hgenerated⟩ := hu
    have hloads : Root.Loads K u.root (loaded.map (·.project)) := by
      unfold Root.Loads
      rw [hroot, hshrinks.keys]
      exact Outcome.mapM_imp h.loads fun id _ project hread => hshrinks.readProject hread
    have hsound : Root.Sound K u.root := hroot ▸ h.sound.shrinks hshrinks
    refine Yields.bind (Yields.on (Yields.relabel ((Root.loadProjects_yields hsound hloads).mono fun projects v hv => ?_)))
    obtain ⟨rfl, htrims, -⟩ := hv
    have hread : ∀ {id kind records}, readGenerated K isObject id kind s = .ok records →
        readGenerated K isObject id kind (setRoot v u) = .ok records := by
      intro id kind records
      refine readGenerated_congr (by change (u.generated id kind).records = _; rw [hgenerated]) fun tree htree => ?_
      obtain ⟨tree', htree', f, rfl, -⟩ := hshrinks.found htree
      rw [← hroot] at htree'
      obtain ⟨tree'', htree'', f', rfl, -⟩ := htrims.found htree'
      exact ⟨_, htree'', rfl⟩
    refine loadGenerated_yields (fun stored hstored kind => ?_) (fun stored hstored => hread (h.exports stored hstored))
      fun stored hstored => hread (h.publications stored hstored)
    change (u.generated _ _).staging.length ≤ _
    rw [hgenerated]
    exact h.staging stored hstored kind

/-- What a creation may change of a ready store. -/
theorem Ready.after {new : StoredFile → Prop} (h : Ready K isObject s loaded)
    (hroot : Root.Unchanged K s.root (loaded.map (·.project)) new t.root)
    (hcreating : s.root.projects.size + t.creating.length ≤ maxPersistedProjects + 16)
    (hrecords : ∀ id kind, (t.generated id kind).records = (s.generated id kind).records)
    (hstaging : ∀ stored ∈ loaded, ∀ kind,
      (t.generated stored.project.id kind).staging.length ≤ maxGeneratedStagingEntries) : Ready K isObject t loaded where
  sound := hroot.sound
  loads := hroot.loads
  deleting := hroot.deleting
  deletingBackups := hroot.deletingBackups
  creating := by
    rw [hroot.size]
    exact hcreating
  staging := hstaging
  exports stored hstored := readGenerated_congr (hrecords _ _) (fun _ => hroot.found) (h.exports stored hstored)
  publications stored hstored := readGenerated_congr (hrecords _ _) (fun _ => hroot.found) (h.publications stored hstored)

end
end Store
end LpStudio.Storage
