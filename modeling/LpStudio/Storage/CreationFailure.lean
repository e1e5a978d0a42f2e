import LpStudio.Storage.StoreOpening

/-! # A failed creation leaves nothing behind
Before the rename a creation changes nothing that an open loads, and its clean-up knows the staging directory. After
the rename an error is reported for something that is there.
-/
namespace LpStudio.Storage
namespace Store
open Str Fault Fault.Program

section
variable {K : Crates} {rm : Remover} {isObject : ObjectCheck} {s t : Store} {loaded : List StoredProject}
  {new : StoredFile → Prop}

theorem Ready.unchanged (h : Ready K isObject s loaded) (hclear : Root.Clear K s.root new) :
    Root.Unchanged K s.root (loaded.map (·.project)) new s.root :=
  Root.Unchanged.refl h.sound h.loads h.deleting h.deletingBackups hclear

/-- With no new file nothing has to be clear. -/
theorem Ready.unchanged_none (h : Ready K isObject s loaded) :
    Root.Unchanged K s.root (loaded.map (·.project)) (fun _ => False) s.root :=
  h.unchanged ⟨fun _ _ hf => hf.elim, fun _ hf => hf.elim⟩

theorem Ready.fewer (h : Ready K isObject s loaded) (hfewer : Fewer s t) : Ready K isObject t loaded := by
  have hroot : Root.Unchanged K s.root (loaded.map (·.project)) (fun _ => False) t.root := by
    rw [hfewer.root]
    exact h.unchanged_none
  refine h.after hroot ?_ hfewer.records fun stored hstored kind => ?_
  · rw [hfewer.creating]
    exact h.creating
  · exact Nat.le_trans (hfewer.staging _ _) (h.staging stored hstored kind)

/-! ## Projects -/

/-- The files that `create_project` writes. -/
def CreateProject.New (K : Crates) (r : CreateProject) (file : StoredFile) : Prop :=
  ∃ f ∈ r.site.files, store K f = file

/-- The staging directory is there, and the rest is as an open loads it. -/
structure ProjectDraft (K : Crates) (s : Store) (loaded : List StoredProject) (r : CreateProject) (t : Store) : Prop where
  root : Root.Unchanged K s.root (loaded.map (·.project)) (r.New K) t.root
  projects : t.root.projects = s.root.projects
  generated : t.generated = s.generated
  creating : ∃ tree rest, t.creating = ((r.id, r.nonce), tree) :: rest ∧ rest.length = s.creating.length

variable {r : CreateProject} {faults : CreateStep → Fault.Outcome}

theorem ProjectDraft.change (h : ProjectDraft K s loaded r t) (f : ProjectTree → ProjectTree) :
    ProjectDraft K s loaded r (changeCreating r f t) := by
  obtain ⟨tree, rest, heq, hlength⟩ := h.creating
  refine ⟨h.root, h.projects, h.generated, f tree, rest.map (changeEntry (r.id, r.nonce) f), ?_,
    (List.length_map _).trans hlength⟩
  unfold changeCreating
  rw [heq, changeEntry_cons]

theorem buildProject_within (hclear : Root.Clear K s.root (r.New K)) :
    Within (fun t u => ProjectDraft K s loaded r t → ProjectDraft K s loaded r u) (buildProject K r) := by
  have hchange : ∀ label f, Within (fun t u => ProjectDraft K s loaded r t → ProjectDraft K s loaded r u)
      (Program.atomic StorageError.io (label : CreateStep) (changeCreating r f)) :=
    fun label f => Within.atomic fun t h => h.change f
  have hsync : ∀ label, Within (fun t u => ProjectDraft K s loaded r t → ProjectDraft K s loaded r u)
      (Program.atomic StorageError.io (label : CreateStep) id) := fun label => Within.atomic fun t h => h
  have hwrites : Within (fun t u => Root.Unchanged K s.root (loaded.map (·.project)) (r.New K) t ∧
      t.projects = s.root.projects → Root.Unchanged K s.root (loaded.map (·.project)) (r.New K) u ∧
      u.projects = s.root.projects) (r.site.files.forM (Root.writeObject K)) :=
    Root.writeObjects_unchanged hclear fun file hfile => ⟨file, hfile, rfl⟩
  have hobjects : Within (fun t u => ProjectDraft K s loaded r t → ProjectDraft K s loaded r u)
      (((r.site.files.forM (Root.writeObject K)).relabel CreateStep.object).on Store.root setRoot) := by
    refine Within.on (Within.relabel hwrites) fun t u h hdraft => ?_
    obtain ⟨hroot, hprojects⟩ := h ⟨hdraft.root, hdraft.projects⟩
    exact ⟨hroot, hprojects, hdraft.generated, hdraft.creating⟩
  have hcommit : Within (fun t u => ProjectDraft K s loaded r t → ProjectDraft K s loaded r u) (commitRevisionAt K r) := by
    unfold commitRevisionAt
    refine Within.bind (Within.look _ _ _) fun _ => Within.bind hobjects fun _ => Within.bind (hchange _ _) fun _ => ?_
    refine Within.bind (hsync _) fun _ => Within.bind (hsync _) fun _ => Within.bind (hchange _ _) fun _ => ?_
    exact Within.bind (hchange _ _) fun _ => Within.bind (hsync _) fun _ => hsync _
  unfold buildProject
  refine Within.bind (hchange _ _) fun _ => Within.bind (Within.forM fun name _ => hchange _ _) fun _ => ?_
  refine Within.bind (hchange _ _) fun _ => Within.bind (hchange _ _) fun _ => Within.bind hcommit fun _ => ?_
  exact Within.bind (hchange _ _) fun _ => Within.bind (hsync _) fun _ => Within.look _ _ _

theorem buildProject_avoids : Avoids (fun step => step = .rename ∨ step = .sync) (buildProject K r) := by
  have hatomic : ∀ label effect, ¬ (label = CreateStep.rename ∨ label = CreateStep.sync) →
      Avoids (fun step => step = .rename ∨ step = .sync) (Program.atomic StorageError.io label (effect : Store → Store)) :=
    fun label effect h => Avoids.gradual h
  unfold buildProject commitRevisionAt
  refine Avoids.bind (hatomic _ _ (by simp)) fun _ => Avoids.bind (Avoids.forM fun name => hatomic _ _ (by simp)) fun _ => ?_
  refine Avoids.bind (hatomic _ _ (by simp)) fun _ => Avoids.bind (hatomic _ _ (by simp)) fun _ => Avoids.bind ?_ fun _ => ?_
  · refine Avoids.bind (Avoids.look (by simp)) fun _ => Avoids.bind (Avoids.on (Avoids.relabel _ (by simp))) fun _ => ?_
    refine Avoids.bind (hatomic _ _ (by simp)) fun _ => Avoids.bind (hatomic _ _ (by simp)) fun _ => ?_
    refine Avoids.bind (hatomic _ _ (by simp)) fun _ => Avoids.bind (hatomic _ _ (by simp)) fun _ => ?_
    exact Avoids.bind (hatomic _ _ (by simp)) fun _ => Avoids.bind (hatomic _ _ (by simp)) fun _ => hatomic _ _ (by simp)
  · exact Avoids.bind (hatomic _ _ (by simp)) fun _ => Avoids.bind (hatomic _ _ (by simp)) fun _ => Avoids.look (by simp)

/-- The store is ready, and has the project only if it had it before. -/
def ProjectBefore (K : Crates) (isObject : ObjectCheck) (s : Store) (loaded : List StoredProject) (r : CreateProject)
    (t : Store) : Prop :=
  Ready K isObject t loaded ∧ (r.id ∈ t.root.projects → r.id ∈ s.root.projects)

theorem ProjectDraft.before (h : Ready K isObject s loaded) (hdraft : ProjectDraft K s loaded r t)
    (hroom : s.root.projects.size + s.creating.length < maxPersistedProjects + 16) :
    ProjectBefore K isObject s loaded r t := by
  obtain ⟨tree, rest, heq, hlength⟩ := hdraft.creating
  refine ⟨h.after hdraft.root ?_ (by simp [hdraft.generated]) ?_, fun hvisible => hdraft.projects ▸ hvisible⟩
  · rw [heq, List.length_cons, hlength]
    exact hroom
  · rw [hdraft.generated]
    exact h.staging

/-- The clean-up removes the staging directory. -/
theorem ProjectDraft.cleaned (h : Ready K isObject s loaded) (hdraft : ProjectDraft K s loaded r t) :
    ProjectBefore K isObject s loaded r { t with creating := t.creating.filter (·.1 != (r.id, r.nonce)) } := by
  obtain ⟨tree, rest, heq, hlength⟩ := hdraft.creating
  refine ⟨h.after hdraft.root ?_ (by simp [hdraft.generated]) ?_, fun hvisible => hdraft.projects ▸ hvisible⟩
  · have hle : (t.creating.filter (·.1 != (r.id, r.nonce))).length ≤ s.creating.length := by
      rw [heq, List.filter_cons_of_neg (by simp), ← hlength]
      exact List.length_filter_le _ _
    exact Nat.le_trans (Nat.add_le_add_left hle _) h.creating
  · change ∀ stored ∈ loaded, ∀ kind, (t.generated _ _).staging.length ≤ _
    rw [hdraft.generated]
    exact h.staging

theorem ProjectDraft.seen (h : ProjectDraft K s loaded r t) : r.id ∈ (publishProject r t).root.projects := by
  obtain ⟨tree, rest, heq, -⟩ := h.creating
  unfold publishProject
  rw [heq, List.lookup_cons_self]
  exact Std.ExtTreeMap.mem_insert_self

variable (h : Ready K isObject s loaded) (hclear : Root.Clear K s.root (r.New K))
include h hclear

theorem ProjectDraft.created : ProjectDraft K s loaded r
    { s with creating := ((r.id, r.nonce), ⟨false, none, false, none, none, none, none, []⟩) :: s.creating } :=
  ⟨h.unchanged hclear, rfl, rfl, _, s.creating, rfl, rfl⟩

/-- The staging directory that `create_project` leaves where its own creation fails needs room. -/
theorem createProject_before
    (hroom : s.root.projects.size + s.creating.length < maxPersistedProjects + 16 ∨
      faults .createDirectory = .done ∧ faults .syncCreated = .done ∧ faults .clean = .done)
    (hlate : ¬ Late .rename .sync faults) :
    Ends (createProject K r) faults s (fun _ _ => True) (fun _ => ProjectBefore K isObject s loaded r) fun _ => True := by
  have hs : ProjectBefore K isObject s loaded r s := ⟨h, id⟩
  have hcreated := ProjectDraft.created h hclear
  have hstays : ∀ {t label n}, ProjectDraft K s loaded r t → faults label = .failed n →
      (label = .createDirectory ∨ label = .syncCreated ∨ label = .clean) → ProjectBefore K isObject s loaded r t := by
    intro t label n ht hfailed hlabel
    rcases hroom with hroom | ⟨h1, h2, h3⟩
    · exact ht.before h hroom
    · rcases hlabel with rfl | rfl | rfl
      · rw [h1] at hfailed
        cases hfailed
      · rw [h2] at hfailed
        cases hfailed
      · rw [h3] at hfailed
        cases hfailed
  unfold createProject
  refine Ends.bind (Ends.look (fun _ _ _ => ?_) (fun _ _ => hs) (fun _ _ => hs) fun _ _ => trivial)
  refine Ends.bind (Ends.atomic (fun _ => ?_) (fun _ => hs) (fun n hn => hstays hcreated hn (by simp)) (fun _ => trivial)
    fun _ _ => trivial)
  refine Ends.bind (Ends.atomic (fun _ => ?_) (fun hn => hstays hcreated hn (by simp))
    (fun n hn => hstays hcreated hn (by simp)) (fun _ => trivial) fun _ _ => trivial)
  have hbuild : ∀ t, ProjectDraft K s loaded r t → Ends (buildProject K r) faults t (fun _ => ProjectDraft K s loaded r)
      (fun _ => ProjectDraft K s loaded r) fun _ => True := fun t ht =>
    (buildProject_within hclear faults t).mono (fun _ _ h => h ht) (fun _ _ h => h ht) fun _ _ => trivial
  refine publishing_before hlate (hbuild _ hcreated) fun t ht => ?_
  exact Ends.atomic (fun _ => ht.cleaned h) (fun hn => hstays ht hn (by simp)) (fun _ _ => ht.cleaned h)
    (fun _ => trivial) fun _ _ => trivial

/-- A late error of a `create_project` that would succeed leaves the project under its name. -/
theorem createProject_late (hsucceeds : Yields (createProject K r) s fun _ _ => True)
    (hdone : ∀ step, ¬ (step = .rename ∨ step = .sync) → faults step = .done) (hlate : Late .rename .sync faults)
    (hrename : faults .rename = .done ∨ ∃ n, faults .rename = .failed (n + 1)) :
    Ends (createProject K r) faults s (fun _ _ => False) (fun _ t => r.id ∈ t.root.projects) fun _ => False := by
  have hwithin : Within (fun t u => ProjectDraft K s loaded r t → ProjectDraft K s loaded r u) (buildProject K r) :=
    buildProject_within hclear
  unfold createProject at hsucceeds ⊢
  obtain ⟨⟨⟩, hvalid, hsucceeds⟩ := hsucceeds.of_look
  have hbuild : Yields (buildProject K r) _ fun _ => ProjectDraft K s loaded r :=
    (hsucceeds.of_gradual.of_gradual.of_publishing.within hwithin).mono fun _ _ hb => hb.2 (ProjectDraft.created h hclear)
  refine Ends.bind (Ends.look_done (hdone _ (by simp)) hvalid ?_)
  refine Ends.bind (Ends.gradual_done (hdone _ (by simp)) (Ends.bind (Ends.gradual_done (hdone _ (by simp)) ?_)))
  exact publishing_late hlate hrename (hbuild.ends_avoids buildProject_avoids hdone) (fun _ ht => ht.seen)
    fun _ ht => Ends.gradual_done (hdone _ (by simp)) ht

omit h hclear in
theorem createProject_settles : Settles (fun step => step = .rename ∨ step = .sync) (createProject K r) := by
  unfold createProject
  refine Settles.bind (Avoids.look (by simp)) fun _ => Settles.bind (Avoids.gradual (by simp)) fun _ =>
    Settles.bind (Avoids.gradual (by simp)) fun _ => ?_
  exact Settles.publishing buildProject_avoids (Avoids.gradual (by simp))

end

/-! ## Generated artifacts -/

section
variable {K : Crates} {isObject : ObjectCheck} {s t u : Store} {loaded : List StoredProject} {id : Text}
  {kind : GeneratedArtifactKind} {r : PersistGenerated} {faults : GeneratedStep → Fault.Outcome}

theorem modifyGenerated_same {f : GeneratedCollection → GeneratedCollection} :
    (modifyGenerated id kind f s).generated id kind = f (s.generated id kind) := if_pos ⟨rfl, rfl⟩

theorem modifyGenerated_other {other : Text} {otherKind : GeneratedArtifactKind}
    {f : GeneratedCollection → GeneratedCollection} (h : ¬ (other = id ∧ otherKind = kind)) :
    (modifyGenerated id kind f s).generated other otherKind = s.generated other otherKind := if_neg h

/-- The staging directory is the only one of the collection, and the rest is as before or less. -/
structure ArtifactDraft (s : Store) (r : PersistGenerated) (t : Store) : Prop where
  root : t.root = s.root
  creating : t.creating = s.creating
  records : ∀ id kind, (t.generated id kind).records = (s.generated id kind).records
  staging : ∀ id kind, ¬ (id = r.projectId ∧ kind = r.kind) →
    (t.generated id kind).staging.length ≤ (s.generated id kind).staging.length
  draft : ∃ tree, (t.generated r.projectId r.kind).staging = [(r.staging, tree)]

theorem ArtifactDraft.change (h : ArtifactDraft s r t) (f : ArtifactTree → ArtifactTree) :
    ArtifactDraft s r (changeArtifact r f t) := by
  obtain ⟨tree, hdraft⟩ := h.draft
  refine ⟨h.root, h.creating, fun id kind => ?_, fun id kind hother => ?_, f tree, ?_⟩
  · by_cases hsame : id = r.projectId ∧ kind = r.kind
    · obtain ⟨rfl, rfl⟩ := hsame
      rw [changeArtifact, modifyGenerated_same]
      exact h.records _ _
    · rw [changeArtifact, modifyGenerated_other hsame]
      exact h.records id kind
  · rw [changeArtifact, modifyGenerated_other hother]
    exact h.staging id kind hother
  · rw [changeArtifact, modifyGenerated_same, hdraft]
    exact changeEntry_cons _ _ _ _

theorem Fewer.draft (h : Fewer s t) (hnone : (t.generated r.projectId r.kind).staging = []) :
    ArtifactDraft s r (modifyGenerated r.projectId r.kind (fun collection =>
      { collection with staging := (r.staging, ⟨none, none, none⟩) :: collection.staging }) t) := by
  refine ⟨h.root, h.creating, fun id kind => ?_, fun id kind hother => ?_, ⟨none, none, none⟩, ?_⟩
  · by_cases hsame : id = r.projectId ∧ kind = r.kind
    · obtain ⟨rfl, rfl⟩ := hsame
      rw [modifyGenerated_same]
      exact h.records _ _
    · rw [modifyGenerated_other hsame]
      exact h.records id kind
  · rw [modifyGenerated_other hother]
    exact h.staging id kind
  · rw [modifyGenerated_same, hnone]

/-- Without its staging directory nothing is left of the draft. -/
theorem ArtifactDraft.dropped (h : ArtifactDraft s r t) : Fewer s (dropStaging r.projectId r.kind r.staging t) := by
  obtain ⟨tree, hdraft⟩ := h.draft
  have hdrop : Fewer t (dropStaging r.projectId r.kind r.staging t) := fewer_dropStaging
  refine ⟨h.root, h.creating, fun id kind => (hdrop.records id kind).trans (h.records id kind), fun id kind => ?_⟩
  by_cases hsame : id = r.projectId ∧ kind = r.kind
  · obtain ⟨rfl, rfl⟩ := hsame
    rw [dropStaging, modifyGenerated_same, hdraft]
    simp
  · exact Nat.le_trans (hdrop.staging id kind) (h.staging id kind hsame)

/-- The store is ready, and has the artifact only if it had it before. -/
def ArtifactBefore (K : Crates) (isObject : ObjectCheck) (s : Store) (loaded : List StoredProject) (r : PersistGenerated)
    (t : Store) : Prop :=
  Ready K isObject t loaded ∧
    (r.artifactId ∈ (t.generated r.projectId r.kind).records → r.artifactId ∈ (s.generated r.projectId r.kind).records)

theorem Fewer.before (h : Ready K isObject s loaded) (hfewer : Fewer s t) : ArtifactBefore K isObject s loaded r t :=
  ⟨h.fewer hfewer, fun hvisible => hfewer.records r.projectId r.kind ▸ hvisible⟩

theorem ArtifactDraft.before (h : Ready K isObject s loaded) (hdraft : ArtifactDraft s r t) :
    ArtifactBefore K isObject s loaded r t := by
  have hroot : Root.Unchanged K s.root (loaded.map (·.project)) (fun _ => False) t.root := by
    rw [hdraft.root]
    exact h.unchanged_none
  refine ⟨h.after hroot ?_ hdraft.records fun stored hstored kind => ?_,
    fun hvisible => hdraft.records r.projectId r.kind ▸ hvisible⟩
  · rw [hdraft.creating]
    exact h.creating
  · by_cases hsame : stored.project.id = r.projectId ∧ kind = r.kind
    · obtain ⟨tree, hone⟩ := hdraft.draft
      rw [hsame.1, hsame.2, hone]
      exact Nat.le_of_ble_eq_true rfl
    · exact Nat.le_trans (hdraft.staging _ _ hsame) (h.staging stored hstored kind)

theorem ArtifactDraft.cleaned (h : Ready K isObject s loaded) (hdraft : ArtifactDraft s r t) :
    Ends (cleanArtifact r) faults t (fun _ => ArtifactBefore K isObject s loaded r)
      (fun _ => ArtifactBefore K isObject s loaded r) fun _ => True := by
  have hsync : ∀ u, ArtifactBefore K isObject s loaded r u →
      Ends (Program.atomic StorageError.io GeneratedStep.syncClean id) faults u
        (fun _ => ArtifactBefore K isObject s loaded r) (fun _ => ArtifactBefore K isObject s loaded r) fun _ => True :=
    fun u hu => Ends.atomic (fun _ => hu) (fun _ => hu) (fun _ _ => hu) (fun _ => trivial) fun _ _ => trivial
  unfold cleanArtifact
  exact Ends.bind (Ends.ignore (Ends.atomic (fun _ => hsync _ (hdraft.dropped.before h)) (fun _ => hsync t (hdraft.before h))
    (fun _ _ => hsync _ (hdraft.dropped.before h)) (fun _ => trivial) fun _ _ => trivial))

theorem buildArtifact_within :
    Within (fun t u => ArtifactDraft s r t → ArtifactDraft s r u) (buildArtifact K r) := by
  unfold buildArtifact
  refine Within.bind (Within.atomic fun t h => h.change _) fun _ => Within.bind (Within.atomic fun t h => h.change _) fun _ =>
    Within.bind (Within.atomic fun t h => h.change _) fun _ => Within.bind (Within.atomic fun t h => h) fun _ => ?_
  exact Within.look _ _ _

theorem buildArtifact_avoids : Avoids (fun step => step = .rename ∨ step = .sync) (buildArtifact K r) := by
  unfold buildArtifact
  refine Avoids.bind (Avoids.gradual (by simp)) fun _ => Avoids.bind (Avoids.gradual (by simp)) fun _ =>
    Avoids.bind (Avoids.gradual (by simp)) fun _ => Avoids.bind (Avoids.gradual (by simp)) fun _ => ?_
  exact Avoids.look (by simp)

theorem ArtifactDraft.seen (h : ArtifactDraft s r t) :
    r.artifactId ∈ ((publishArtifact r t).generated r.projectId r.kind).records := by
  obtain ⟨tree, hdraft⟩ := h.draft
  rw [publishArtifact, modifyGenerated_same, hdraft, List.lookup_cons_self]
  exact Std.ExtTreeMap.mem_insert_self

/-- An error of `persist_generated_artifact` that is not late leaves a store that loads as before. -/
theorem persistGeneratedArtifact_before (h : Ready K isObject s loaded) (hlate : ¬ Late .rename .sync faults) :
    Ends (persistGeneratedArtifact K isObject r) faults s (fun _ _ => True)
      (fun _ => ArtifactBefore K isObject s loaded r) fun _ => True := by
  have hs : ArtifactBefore K isObject s loaded r s := ⟨h, id⟩
  unfold persistGeneratedArtifact
  refine Ends.bind (Ends.look (fun _ _ _ => ?_) (fun _ _ => hs) (fun _ _ => hs) fun _ _ => trivial)
  refine Ends.bind (Ends.relabel ((loadGeneratedCollection_ends _).mono (fun existing t ht => ?_)
    (fun _ t ht => ht.before h) fun _ h => h))
  obtain ⟨hfewer, hnone, -⟩ := ht
  have ht : ArtifactBefore K isObject s loaded r t := hfewer.before h
  split
  · split
    · exact Ends.pure trivial
    · exact Ends.throw ht
  · have hdraft := hfewer.draft hnone
    have hu := hdraft.before h
    refine Ends.bind (Ends.look (fun _ _ _ => ?_) (fun _ _ => ht) (fun _ _ => ht) fun _ _ => trivial)
    refine Ends.bind (Ends.atomic (fun _ => ?_) (fun _ => ht) (fun _ _ => hu) (fun _ => trivial) fun _ _ => trivial)
    refine Ends.bind (Ends.atomic (fun _ => ?_) (fun _ => hu) (fun _ _ => hu) (fun _ => trivial) fun _ _ => trivial)
    have hbuild : ∀ u, ArtifactDraft s r u → Ends (buildArtifact K r) faults u (fun _ => ArtifactDraft s r)
        (fun _ => ArtifactDraft s r) fun _ => True := fun u hu =>
      (buildArtifact_within faults u).mono (fun _ _ h => h hu) (fun _ _ h => h hu) fun _ _ => trivial
    exact publishing_before hlate (hbuild _ hdraft) fun u hu => hu.cleaned h

/-- A late error of a `persist_generated_artifact` that would add a record leaves it under its name. -/
theorem persistGeneratedArtifact_late (hnew : r.artifactId ∉ (s.generated r.projectId r.kind).records)
    (hsucceeds : Yields (persistGeneratedArtifact K isObject r) s fun _ _ => True)
    (hdone : ∀ step, ¬ (step = .rename ∨ step = .sync) → faults step = .done) (hlate : Late .rename .sync faults)
    (hrename : faults .rename = .done ∨ ∃ n, faults .rename = .failed (n + 1)) :
    Ends (persistGeneratedArtifact K isObject r) faults s (fun _ _ => False)
      (fun _ t => r.artifactId ∈ (t.generated r.projectId r.kind).records) fun _ => False := by
  have hclean : ∀ t, r.artifactId ∈ (t.generated r.projectId r.kind).records → Ends (cleanArtifact r) faults t
      (fun _ t => r.artifactId ∈ (t.generated r.projectId r.kind).records)
      (fun _ t => r.artifactId ∈ (t.generated r.projectId r.kind).records) fun _ => False := by
    intro t ht
    have hdrop : Fewer t (dropStaging r.projectId r.kind r.staging t) := fewer_dropStaging
    refine Ends.bind (Ends.ignore (Ends.gradual_done (hdone _ (by simp)) (Ends.gradual_done (hdone _ (by simp)) ?_)))
    change r.artifactId ∈ ((dropStaging r.projectId r.kind r.staging t).generated r.projectId r.kind).records
    rw [hdrop.records]
    exact ht
  unfold persistGeneratedArtifact at hsucceeds ⊢
  obtain ⟨⟨⟩, hvalid, hsucceeds⟩ := hsucceeds.of_look
  refine Ends.bind (Ends.look_done (hdone _ (by simp)) hvalid ?_)
  have hload := hsucceeds.of_bind.and_ends (Ends.relabel (loadGeneratedCollection_ends _))
  refine Ends.bind ((hload.mono fun existing t ht => ?_).ends_avoids (Avoids.relabel _ (by simp)) hdone)
  obtain ⟨hrest, hfewer, hnone, hread⟩ := ht
  have hfind : existing.find? (·.manifest.artifactId = r.artifactId) = none := by
    rw [List.find?_eq_none]
    intro record hrecord hid
    have hmem := readGenerated_ids hread record hrecord
    rw [of_decide_eq_true hid, hfewer.records] at hmem
    exact hnew hmem
  rw [hfind] at hrest ⊢
  obtain ⟨⟨⟩, hstat, hrest⟩ := hrest.of_look
  have hbuild : Yields (buildArtifact K r) _ fun _ => ArtifactDraft s r :=
    (hrest.of_gradual.of_gradual.of_publishing.within (buildArtifact_within (s := s))).mono
      fun _ _ hb => hb.2 (hfewer.draft hnone)
  refine Ends.bind (Ends.look_done (hdone _ (by simp)) hstat ?_)
  refine Ends.bind (Ends.gradual_done (hdone _ (by simp)) (Ends.bind (Ends.gradual_done (hdone _ (by simp)) ?_)))
  exact publishing_late hlate hrename (hbuild.ends_avoids buildArtifact_avoids hdone) (fun _ ht => ht.seen) hclean

theorem persistGeneratedArtifact_settles :
    Settles (fun step => step = .rename ∨ step = .sync) (persistGeneratedArtifact K isObject r) := by
  unfold persistGeneratedArtifact
  refine Settles.bind (Avoids.look (by simp)) fun _ => Settles.bind (Avoids.relabel _ (by simp)) fun existing => ?_
  split
  · refine Avoids.settles ?_
    split
    · exact Avoids.pure _
    · exact Avoids.throw _
  · refine Settles.bind (Avoids.look (by simp)) fun _ => Settles.bind (Avoids.gradual (by simp)) fun _ =>
      Settles.bind (Avoids.gradual (by simp)) fun _ => Settles.publishing buildArtifact_avoids ?_
    exact Avoids.bind (Avoids.ignore (Avoids.gradual (by simp))) fun _ => Avoids.gradual (by simp)

end

/-! ## The three creations -/

/-- The rename fails after it has taken place, or the sync after it fails. -/
def Creation.Late (faults : CreationStep → Fault.Outcome) : Creation → Prop
  | .project _ => Program.Late (.project .rename) (.project .sync) faults
  | .proposal _ => Program.Late (.proposal .rename) (.proposal .sync) faults
  | .artifact _ => Program.Late (.artifact .rename) (.artifact .sync) faults

/-- What else may go wrong does not: no two contents have one digest but different lengths, an object that is there under
the digest of a new content is of that content, and what is in staging can be removed. -/
def Creation.Tidy (K : Crates) (partly : ℕ → SiteTree → SiteTree) (s : Store) (faults : CreationStep → Fault.Outcome) :
    Creation → Prop
  | .project r => Root.Clear K s.root (r.New K) ∧
    (s.root.projects.size + s.creating.length < maxPersistedProjects + 16 ∨
      faults (.project .createDirectory) = .done ∧ faults (.project .syncCreated) = .done ∧
        faults (.project .clean) = .done)
  | .proposal r => Root.Clear K s.root (r.New K partly) ∧ r.Scannable K partly ∧
    (Root.Settled s.root r.projectId ∨ ∀ step, faults (.proposal (.recover step)) = .done)
  | .artifact _ => True

/-- After an error no directory has the final name that had it not before, and the next open loads what it would have
loaded before. -/
def LeavesNothing (K : Crates) (rm : Remover) (isObject : ObjectCheck) (c : Creation) (s : Store)
    (loaded : List StoredProject) (result : Exit StorageError Unit × Store) : Prop :=
  ∀ e t, result = (.error e, t) →
    (c.Visible t → c.Visible s) ∧ Yields (openStore K rm isObject) t fun again _ => again = loaded

section
variable {K : Crates} {rm : Remover} {partly : ℕ → SiteTree → SiteTree} {isObject : ObjectCheck} {c : Creation} {s : Store}
  {loaded : List StoredProject} {faults : CreationStep → Fault.Outcome}

theorem proposal_visible {projects : List Root.PersistedProject} {new : StoredFile → Prop} {r : Root.PrepareProposal}
    {t : Root} (h : Root.Unchanged K s.root projects new t)
    (hvisible : Creation.Visible (setRoot t s) (.proposal r)) : Creation.Visible s (.proposal r) := by
  obtain ⟨dir, hdir, hsome⟩ := hvisible
  obtain ⟨tree', htree', hproposals'⟩ := Root.proposalsOf_eq_some hdir
  obtain ⟨tree, htree, -, hretained⟩ := h.trees _ _ htree'
  rw [hproposals', Option.map_some] at hretained
  obtain ⟨old, hold, heq⟩ := Option.map_eq_some_iff.mp hretained.symm
  refine ⟨old, Option.bind_eq_some_iff.mpr ⟨tree, htree, hold⟩, ?_⟩
  rw [heq]
  exact hsome

theorem run_before (h : Ready K isObject s loaded) (htidy : c.Tidy K partly s faults) (hlate : ¬ c.Late faults) :
    Ends (c.run K rm partly isObject) faults s (fun _ _ => True)
      (fun _ t => Ready K isObject t loaded ∧ (c.Visible t → c.Visible s)) fun _ => True := by
  cases c with
  | project r => exact Ends.relabel (createProject_before h htidy.1 htidy.2 hlate)
  | proposal r =>
    obtain ⟨hclear, hscan, hrecover⟩ := htidy
    have hends : Ends (Root.prepareProposal K rm partly r) (faults ∘ CreationStep.proposal) s.root (fun _ _ => True)
        (fun _ => Root.Unchanged K s.root (loaded.map (·.project)) (r.New K partly)) fun _ => True :=
      Root.prepareProposal_before (h.unchanged hclear) hclear hscan hrecover hlate
    refine Ends.on (Ends.relabel (hends.mono (fun _ _ h => h) (fun _ t ht => ⟨?_, proposal_visible ht⟩) fun _ h => h))
    exact h.after ht h.creating (fun _ _ => rfl) h.staging
  | artifact r => exact Ends.relabel (persistGeneratedArtifact_before h hlate)

theorem run_late {step : CreationStep} {n : ℕ} (h : Ready K isObject s loaded)
    (htidy : c.Tidy K partly s (failing step n)) (hnew : ¬ c.Visible s)
    (hsucceeds : Yields (c.run K rm partly isObject) s fun _ _ => True) (hlate : c.Late (failing step n)) :
    Ends (c.run K rm partly isObject) (failing step n) s (fun _ _ => False) (fun _ t => c.Visible t) fun _ => False := by
  cases c with
  | project r =>
    have hdone : ∀ label, ¬ (label = .rename ∨ label = .sync) → (failing step n ∘ CreationStep.project) label = .done :=
      fun label hlabel => hlate.done (by simpa using hlabel)
    exact Ends.relabel (createProject_late h htidy.1 hsucceeds hdone hlate (hlate.reached (by simp)))
  | proposal r =>
    have hdone : ∀ label, ¬ (label = .rename ∨ label = .sync) → (failing step n ∘ CreationStep.proposal) label = .done :=
      fun label hlabel => hlate.done (by simpa using hlabel)
    exact Ends.on (Ends.relabel ((Root.prepareProposal_late (h.unchanged htidy.1) htidy.1 htidy.2.1 hsucceeds.of_on hdone
      hlate (hlate.reached (by simp))).mono (fun _ _ h => h) (fun _ t ht => ⟨_, ht.choose_spec.1, ht.choose_spec.2.1⟩)
        fun _ h => h))
  | artifact r =>
    have hdone : ∀ label, ¬ (label = .rename ∨ label = .sync) → (failing step n ∘ CreationStep.artifact) label = .done :=
      fun label hlabel => hlate.done (by simpa using hlabel)
    exact Ends.relabel (persistGeneratedArtifact_late hnew hsucceeds hdone hlate (hlate.reached (by simp)))

/-- A call that would fail anyway, or that has no late step, ends as it would with nothing failing. -/
theorem run_settles {step : CreationStep} {n : ℕ} (hlate : c.Late (failing step n)) :
    c.run K rm partly isObject (failing step n) s = c.run K rm partly isObject smooth s ∨
      Yields (c.run K rm partly isObject) s fun _ _ => True := by
  cases c with
  | project r =>
    exact createProject_settles (failing step n ∘ .project) s fun label hlabel => hlate.done (by simpa using hlabel)
  | proposal r =>
    rcases Root.prepareProposal_settles (K := K) (failing step n ∘ CreationStep.proposal) s.root
      fun label hlabel => hlate.done (by simpa using hlabel) with hsame | hyields
    · exact .inl (congrArg (fun result => (result.1, setRoot result.2 s)) hsame)
    · exact .inr (Yields.on (hyields.mono fun _ _ _ => trivial))
  | artifact r =>
    exact persistGeneratedArtifact_settles (failing step n ∘ .artifact) s fun label hlabel => hlate.done (by simpa using hlabel)

theorem Creation.Tidy.smooth (h : c.Tidy K partly s faults) : c.Tidy K partly s Program.smooth := by
  cases c with
  | project r => exact ⟨h.1, .inr ⟨rfl, rfl, rfl⟩⟩
  | proposal r => exact ⟨h.1, h.2.1, .inr fun _ => rfl⟩
  | artifact r => trivial

theorem Creation.not_late_smooth : ¬ c.Late Program.smooth := by
  cases c with
  | project r => rintro (⟨n, hn⟩ | ⟨n, hn⟩) <;> cases hn
  | proposal r => rintro (⟨n, hn⟩ | ⟨n, hn⟩) <;> cases hn
  | artifact r => rintro (⟨n, hn⟩ | ⟨n, hn⟩) <;> cases hn

theorem leavesNothing_of_not_late (h : Ready K isObject s loaded) (htidy : c.Tidy K partly s faults)
    (hlate : ¬ c.Late faults) : LeavesNothing K rm isObject c s loaded (c.run K rm partly isObject faults s) := by
  intro e t heq
  have hends : Ends (c.run K rm partly isObject) faults s (fun _ _ => True)
      (fun _ t => Ready K isObject t loaded ∧ (c.Visible t → c.Visible s)) fun _ => True := run_before h htidy hlate
  unfold Ends at hends
  rw [heq] at hends
  exact ⟨hends.2, openStore_yields hends.1⟩

end

/-! ## A sample -/

section

def emptyStore : Store := ⟨⟨∅, ∅, [], [], []⟩, [], fun _ _ => ⟨∅, []⟩⟩

def sampleCreate : CreateProject where
  id := Root.sampleRevision.projectId
  displayName := "One".toList
  revisionId := Root.sampleRevision.pointer.revisionId
  artifactManifestSha256 := Root.sampleRevision.pointer.artifactManifestSha256
  site := Root.sampleRevision.site
  canonicalManifestSha256 := Root.sampleRevision.pointer.canonicalManifestSha256
  nonce := List.replicate 32 '0'

theorem empty_mentions {file : StoredFile} : ¬ emptyStore.root.Mentions sampleCrates file := by
  rintro (⟨id, tree, htree, -⟩ | ⟨entry, hentry, -⟩)
  · change (∅ : Std.ExtTreeMap Text ProjectTree compare)[id]? = some tree at htree
    rw [Std.ExtTreeMap.getElem?_empty] at htree
    cases htree
  · exact List.not_mem_nil hentry

theorem empty_ready (isObject : ObjectCheck) : Ready sampleCrates isObject emptyStore [] := by
  have hkeys : emptyStore.root.projects.keys = [] := by
    refine Root.keys_eq List.Pairwise.nil fun id => ?_
    exact ⟨fun hid => absurd hid Std.ExtTreeMap.not_mem_empty, fun hid => absurd hid List.not_mem_nil⟩
  have hsize : emptyStore.root.projects.size = 0 := by
    rw [← Std.ExtTreeMap.length_keys, hkeys, List.length_nil]
  refine ⟨⟨fun id tree htree => ?_, ?_, ?_, fun _ hb => absurd hb List.not_mem_nil, Nat.zero_le _,
    fun f _ hf => absurd hf empty_mentions, fun f hf => absurd hf empty_mentions⟩, ?_, rfl, rfl, ?_,
    fun _ hstored => absurd hstored List.not_mem_nil, fun _ hstored => absurd hstored List.not_mem_nil,
    fun _ hstored => absurd hstored List.not_mem_nil⟩
  · change (∅ : Std.ExtTreeMap Text ProjectTree compare)[id]? = some tree at htree
    rw [Std.ExtTreeMap.getElem?_empty] at htree
    cases htree
  · rw [hsize]
    exact Nat.zero_le _
  · rw [hsize]
    exact Nat.zero_le _
  · unfold Root.Loads
    rw [hkeys]
    rfl
  · rw [hsize]
    exact Nat.zero_le _

theorem sample_clear : Root.Clear sampleCrates emptyStore.root (sampleCreate.New sampleCrates) := by
  have hone : ∀ f, sampleCreate.New sampleCrates f → f = store sampleCrates ("index.html".toList, [1]) := by
    rintro f ⟨file, hfile, rfl⟩
    rw [List.mem_singleton.mp hfile]
  refine ⟨fun f g hf hg _ => ?_, fun f _ bytes hbytes => ?_⟩
  · rcases hg with hg | hg
    · exact absurd hg empty_mentions
    · rw [hone f hf, hone g hg]
  · change (∅ : Objects)[f.sha256]? = some bytes at hbytes
    rw [Std.ExtTreeMap.getElem?_empty] at hbytes
    cases hbytes

theorem sample_tidy (partly : ℕ → SiteTree → SiteTree) (faults : CreationStep → Fault.Outcome) :
    (Creation.project sampleCreate).Tidy sampleCrates partly emptyStore faults := by
  refine ⟨sample_clear, .inl ?_⟩
  rw [show emptyStore.root.projects.size = 0 from Std.ExtTreeMap.size_empty]
  exact Nat.le_of_ble_eq_true rfl

/-- Nothing of the root but its objects is changed before the rename. -/
theorem sample_builds {t : Store} (hroot : t.root = emptyStore.root) :
    Yields (buildProject sampleCrates sampleCreate) t fun _ _ => True := by
  have hstored : storedFiles sampleCrates sampleCreate.site.files = some [store sampleCrates ("index.html".toList, [1])] :=
    if_pos ⟨by decide, by decide, by decide, by decide, by decide⟩
  have habsent : ∀ u : Store, u.root.projects = ∅ → projectAbsent sampleCreate u = .ok () := by
    intro u hu
    refine ensure_ok.mpr ?_
    rw [hu]
    exact Std.ExtTreeMap.not_mem_empty
  have hdirectories : ∀ (names : List Text) (u : Store), u.root = emptyStore.root →
      Yields (names.forM fun name => Program.atomic StorageError.io (CreateStep.directory name)
        (changeCreating sampleCreate (addDirectory name))) u fun _ v => v.root = emptyStore.root :=
    fun names u hu => Yields.forM (I := fun _ (v : Store) => v.root = emptyStore.root) hu
      fun name rest v _ hv => Yields.atomic hv
  unfold buildProject
  have hmarked : (changeCreating sampleCreate (fun tree => { tree with creating := true }) t).root = emptyStore.root := hroot
  refine Yields.bind (Yields.atomic (Yields.bind ((hdirectories _ _ hmarked).mono fun _ u hu => ?_)))
  refine Yields.bind (Yields.atomic (Yields.bind (Yields.atomic (Yields.bind ?_))))
  unfold commitRevisionAt
  refine Yields.bind (Yields.look (a := ()) (Outcome.bind_ok.mpr ⟨(), by decide, Outcome.bind_ok.mpr ⟨(), by decide, ?_⟩⟩) ?_)
  · rw [hstored]
    rfl
  refine Yields.bind (Yields.on (Yields.relabel (Yields.bind (Yields.bind (Yields.look (a := ()) ?_ (Yields.atomic
    (Yields.pure ?_)))))))
  · change (if u.root.objects[_]?.any _ then _ else _) = _
    rw [hu]
    change (if (∅ : Objects)[_]?.any _ then _ else _) = _
    rw [Std.ExtTreeMap.getElem?_empty]
    rfl
  refine Yields.bind (Yields.atomic (Yields.bind (Yields.atomic (Yields.bind (Yields.atomic (Yields.bind (Yields.atomic ?_)))))))
  refine Yields.bind (Yields.atomic (Yields.bind (Yields.atomic (Yields.atomic ?_))))
  refine Yields.bind (Yields.atomic (Yields.bind (Yields.atomic (Yields.look (habsent _ ?_) trivial))))
  change (Root.insertObject _ _ u.root).projects = ∅
  rw [Root.insertObject_projects, hu]
  rfl

theorem sample_succeeds (rm : Remover) (partly : ℕ → SiteTree → SiteTree) (isObject : ObjectCheck) :
    Yields ((Creation.project sampleCreate).run sampleCrates rm partly isObject) emptyStore fun _ _ => True := by
  have habsent : projectAbsent sampleCreate emptyStore = .ok () := ensure_ok.mpr Std.ExtTreeMap.not_mem_empty
  refine Yields.relabel ?_
  unfold createProject
  refine Yields.bind (Yields.look (a := ()) (Outcome.bind_ok.mpr ⟨(), by decide, Outcome.bind_ok.mpr ⟨(), by decide,
    Outcome.bind_ok.mpr ⟨(), by decide, habsent⟩⟩⟩) (Yields.bind (Yields.atomic (Yields.bind (Yields.atomic ?_)))))
  obtain ⟨a, t, heq, -⟩ := sample_builds (t := { emptyStore with
    creating := ((sampleCreate.id, sampleCreate.nonce), ⟨false, none, false, none, none, none, none, []⟩) ::
      emptyStore.creating }) rfl
  refine ⟨⟨⟩, publishProject sampleCreate t, ?_, trivial⟩
  exact publishing_smooth heq

end

/-- A creation with one failing step that reports an error leaves nothing behind unless the failing step is the rename,
after its effect, or the sync that follows it. A creation of a new record that would succeed leaves the record behind
exactly then. -/
theorem creation_leavesNothing (K : Crates) (rm : Remover) (partly : ℕ → SiteTree → SiteTree) (isObject : ObjectCheck)
    (c : Creation) (s : Store) (loaded : List StoredProject) (step : CreationStep) (n : ℕ) (h : Ready K isObject s loaded)
    (htidy : c.Tidy K partly s (failing step n)) :
    (¬ c.Late (failing step n) →
      LeavesNothing K rm isObject c s loaded (c.run K rm partly isObject (failing step n) s)) ∧
    (¬ c.Visible s → (LeavesNothing K rm isObject c s loaded (c.run K rm partly isObject (failing step n) s) ↔
      ¬ (Yields (c.run K rm partly isObject) s (fun _ _ => True) ∧ c.Late (failing step n)))) := by
  refine ⟨leavesNothing_of_not_late h htidy, fun hnew => ⟨?_, fun hnot => ?_⟩⟩
  · rintro hleaves ⟨hsucceeds, hlate⟩
    have hends := run_late h htidy hnew hsucceeds hlate
    unfold Ends at hends
    split at hends
    · exact hends
    · next e t heq => exact hnew ((hleaves e t heq).1 hends)
    · exact hends
  · by_cases hlate : c.Late (failing step n)
    · have hsettles : c.run K rm partly isObject (failing step n) s = c.run K rm partly isObject smooth s ∨
          Yields (c.run K rm partly isObject) s fun _ _ => True := run_settles hlate
      rcases hsettles with hsame | hsucceeds
      · rw [hsame]
        exact leavesNothing_of_not_late h htidy.smooth Creation.not_late_smooth
      · exact absurd ⟨hsucceeds, hlate⟩ hnot
    · exact leavesNothing_of_not_late h htidy hlate

/-- A failing write in the staging directory. -/
theorem creation_leavesNothing_layout : LeavesNothing sampleCrates Root.sampleRemover (fun _ => true)
    (.project sampleCreate) emptyStore [] ((Creation.project sampleCreate).run sampleCrates Root.sampleRemover
      (fun _ site => site) (fun _ => true) (failing (.project .layout) 1) emptyStore) := by
  refine (creation_leavesNothing sampleCrates Root.sampleRemover (fun _ site => site) (fun _ => true)
    (.project sampleCreate) emptyStore [] (.project .layout) 1 (empty_ready _) (sample_tidy _ _)).1 fun hlate => ?_
  have hstep := hlate.step_eq
  simp at hstep

/-- The sync after the rename fails: `create_project` returns an error, and the project is there. -/
theorem creation_leaves_project : ¬ ∀ (K : Crates) (rm : Remover) (partly : ℕ → SiteTree → SiteTree)
    (isObject : ObjectCheck) (c : Creation) (s : Store) (loaded : List StoredProject) (step : CreationStep) (n : ℕ),
    Ready K isObject s loaded → c.Tidy K partly s (failing step n) →
      LeavesNothing K rm isObject c s loaded (c.run K rm partly isObject (failing step n) s) := by
  intro h
  have hleaves := h sampleCrates Root.sampleRemover (fun _ site => site) (fun _ => true) (.project sampleCreate) emptyStore
    [] (.project .sync) 0 (empty_ready _) (sample_tidy _ _)
  have hnew : ¬ (Creation.project sampleCreate).Visible emptyStore := Std.ExtTreeMap.not_mem_empty
  have hends := run_late (empty_ready _) (sample_tidy _ (failing (.project .sync) 0)) hnew
    (sample_succeeds Root.sampleRemover (fun _ site => site) fun _ => true) (.inr ⟨0, rfl⟩)
  unfold Ends at hends
  split at hends
  · exact hends
  · next e t heq => exact hnew ((hleaves e t heq).1 hends)
  · exact hends

end Store
end LpStudio.Storage
