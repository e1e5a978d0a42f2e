import LpStudio.Lib.Firm
import LpStudio.Storage.Transactions

/-! # A commit is at its old revision or at its new one
What a commit leaves in any of its steps, and what a recovery leaves in any of its own, is a state that a recovery settles.
The journal says so for as long as it is there; once it is gone the project is at rest.
-/
namespace LpStudio.Storage.Transactions
open Str Fault Fault.Program Root Outcome
open Accepted (Commit)

variable {K : Crates} {partly : ℕ → SiteTree → Option SiteTree} {s s' : CommitTree} {old new pointer : CurrentPointer}
  {was manifest : RevisionManifest} {r : Commit} {objects objects' : Objects} {revisions revisions' : List RevisionManifest}

/-! ## States at rest, and states with a journal -/

/-- The site is the one that the manifest lists. -/
def Shows (K : Crates) (manifest : RevisionManifest) (site : Option SiteTree) : Prop :=
  ∃ tree, site = some tree ∧ scanMaterialized K tree = .ok manifest.files

/-- A revision whose manifest and objects are there, and whose site is scanned as it is written. -/
structure Restorable (K : Crates) (objects : Objects) (revisions : List RevisionManifest) (pointer : CurrentPointer)
    (manifest : RevisionManifest) : Prop where
  valid : validatePointer pointer = .ok ()
  read : readManifest K revisions pointer = .ok manifest
  site : ∃ site, materialize K objects manifest = .ok site ∧ scanMaterialized K site = .ok manifest.files

structure Rest (K : Crates) (pointer : CurrentPointer) (manifest : RevisionManifest) (s : CommitTree) : Prop where
  restorable : Restorable K s.objects s.revisions pointer manifest
  current : s.current = some pointer
  transaction : s.transaction = none
  backup : s.backup = none
  site : Shows K manifest s.site

/-- The journal names the new revision, and both revisions can be restored; a backup next to the old pointer is whole. -/
structure Marked (K : Crates) (old new : CurrentPointer) (was will : RevisionManifest) (s : CommitTree) : Prop where
  older : Restorable K s.objects s.revisions old was
  newer : Restorable K s.objects s.revisions new will
  transaction : s.transaction = some new
  backup : s.current = some old → old ≠ new → ∀ tree, s.backup = some tree → scanMaterialized K tree = .ok was.files

/-- What a commit, or a recovery of it, leaves at the pointer. -/
inductive Doubt (K : Crates) (old new : CurrentPointer) (was will : RevisionManifest) (pointer : CurrentPointer)
    (s : CommitTree) : Prop
  | rest (manifest : RevisionManifest) (h : Rest K pointer manifest s)
  | marked (h : Marked K old new was will s) (hcurrent : s.current = some pointer)

/-- The pointer is one of the two. -/
def Left (K : Crates) (old new : CurrentPointer) (was will : RevisionManifest) (s : CommitTree) : Prop :=
  Doubt K old new was will old s ∨ Doubt K old new was will new s

section
variable {will : RevisionManifest}

theorem Doubt.current (h : Doubt K old new was will pointer s) : s.current = some pointer := by
  rcases h with ⟨_, hrest⟩ | ⟨_, hcurrent⟩
  · exact hrest.current
  · exact hcurrent

theorem Rest.left (h : Rest K old manifest s) : Left K old new was will s := .inl (.rest manifest h)

theorem Marked.left (h : Marked K old new was will s) (hcurrent : s.current = some old ∨ s.current = some new) :
    Left K old new was will s := hcurrent.imp (.marked h) (.marked h)

theorem Marked.withSite (h : Marked K old new was will s) (site : Option SiteTree) :
    Marked K old new was will { s with site } := ⟨h.older, h.newer, h.transaction, h.backup⟩

theorem Marked.withStaging (h : Marked K old new was will s) (staging : Option SiteTree) :
    Marked K old new was will { s with staging } := ⟨h.older, h.newer, h.transaction, h.backup⟩

theorem Marked.withBackup (h : Marked K old new was will s) {backup : Option SiteTree}
    (hbackup : s.current = some old → old ≠ new → ∀ tree, backup = some tree → scanMaterialized K tree = .ok was.files) :
    Marked K old new was will { s with backup } := ⟨h.older, h.newer, h.transaction, hbackup⟩

theorem Marked.publish (h : Marked K old new was will s) : Marked K old new was will (publishStaging s) :=
  ⟨h.older, h.newer, h.transaction, h.backup⟩

theorem Marked.restore (h : Marked K old new was will s) : Marked K old new was will (restoreBackup s) :=
  ⟨h.older, h.newer, h.transaction, fun _ _ => nofun⟩

/-- A revision has one pointer. -/
theorem Restorable.pointer_unique (h : Restorable K objects revisions old was)
    (h' : Restorable K objects revisions new will) (hrevision : old.revisionId = new.revisionId) : old = new := by
  have hfields : ∀ {pointer manifest}, readManifest K revisions pointer = .ok manifest →
      revisions.find? (·.revisionId = pointer.revisionId) = some manifest ∧
        manifest.canonicalManifestSha256 = pointer.canonicalManifestSha256 ∧
        manifest.artifactManifestSha256 = pointer.artifactManifestSha256 := by
    intro pointer manifest h
    unfold readManifest at h
    split at h
    · cases h
    · next found hfound =>
      obtain ⟨⟨⟩, hsame, h⟩ := bind_ok.mp h
      obtain ⟨⟨⟩, -, h⟩ := bind_ok.mp h
      cases h
      exact ⟨hfound, ensure_ok.mp hsame⟩
  obtain ⟨hfound, hcanonical, hartifact⟩ := hfields h.read
  obtain ⟨hfound', hcanonical', hartifact'⟩ := hfields h'.read
  rw [hrevision, hfound'] at hfound
  cases hfound
  cases old
  cases new
  cases hrevision
  cases hcanonical.symm.trans hcanonical'
  cases hartifact.symm.trans hartifact'
  rfl

theorem Restorable.loads (h : Restorable K s.objects s.revisions pointer manifest) :
    loadRevision K s pointer = .ok manifest := by
  obtain ⟨site, hsite, -⟩ := h.site
  obtain ⟨files, hfiles, -⟩ := bind_ok.mp hsite
  exact bind_ok.mpr ⟨(), h.valid, bind_ok.mpr ⟨manifest, h.read, bind_ok.mpr ⟨files, hfiles, rfl⟩⟩⟩

theorem ensureShows_ok {site : Option SiteTree} (h : Shows K manifest site) : ensureShows K manifest site = .ok () := by
  obtain ⟨tree, rfl, hscan⟩ := h
  exact bind_ok.mpr ⟨tree, rfl, bind_ok.mpr ⟨manifest.files, hscan, ensure_ok.mpr rfl⟩⟩

/-! ## The recovery -/

theorem materializeTo_firm {I : CommitTree → Prop} {site : SiteTree}
    (hsite : materialize K s.objects manifest = .ok site) (hI : ∀ staging, I { s with staging }) :
    Firm (materializeTo K partly manifest) s (fun _ s' => s' = { s with staging := some site }) I := by
  unfold materializeTo
  refine Firm.bind (V := fun _ s' => s' = { s with staging := none }) (Firm.gradual (fun n => hI _) rfl) ?_
  rintro ⟨⟩ _ rfl
  refine Firm.bind (V := fun found s' => site = found ∧ s' = { s with staging := none })
    (Firm.look (hI _) hsite ⟨rfl, rfl⟩) ?_
  rintro _ _ ⟨rfl, rfl⟩
  refine Firm.bind (V := fun _ s' => s' = { s with staging := some site }) (Firm.gradual (fun n => hI _) rfl) ?_
  rintro ⟨⟩ _ rfl
  exact Firm.atomic (hI _) (hI _) rfl

theorem rebuildSite_firm {I : CommitTree → Prop} {site : SiteTree}
    (hsite : materialize K s.objects manifest = .ok site) (hI : ∀ staging site, I { s with staging, site }) :
    Firm (rebuildSite K partly manifest) s (fun _ s' => s' = { s with staging := none, site := some site }) I := by
  unfold rebuildSite
  refine Firm.bind (Firm.relabel (materializeTo_firm hsite fun staging => hI staging s.site)) ?_
  rintro ⟨⟩ _ rfl
  refine Firm.bind (V := fun _ s' => s' = { s with staging := some site, site := none })
    (Firm.gradual (fun n => hI _ _) rfl) ?_
  rintro ⟨⟩ _ rfl
  exact Firm.atomic (hI _ _) (hI _ _) rfl

theorem siteShows_iff {site : Option SiteTree} : siteShows K manifest site = true ↔ Shows K manifest site := by
  unfold siteShows
  rw [Option.any_eq_true]
  refine exists_congr fun tree => and_congr_right fun _ => ?_
  rw [decide_eq_true_eq]
  cases scanMaterialized K tree with
  | error e => exact ⟨nofun, nofun⟩
  | ok files => exact ⟨fun h => congrArg Except.ok (Option.some.inj h), fun h => congrArg some (Except.ok.inj h)⟩

/-- The site is settled; what is left to do is to clear away. -/
structure Ready (K : Crates) (old new : CurrentPointer) (was will : RevisionManifest) (pointer : CurrentPointer)
    (s : CommitTree) : Prop where
  marked : Marked K old new was will s
  current : s.current = some pointer
  site : ∃ manifest, Restorable K s.objects s.revisions pointer manifest ∧ Shows K manifest s.site
  backup : s.current = some old → old ≠ new → s.backup = none

theorem Marked.rebuilt (h : Marked K old new was will s) (staging site : Option SiteTree) :
    Marked K old new was will { s with staging, site } := (h.withStaging staging).withSite site

theorem ensureSite_firm (h : Marked K old new was will s) (hcurrent : s.current = some new) :
    Firm (ensureSite K partly new) s (fun _ => Ready K old new was will new) (Doubt K old new was will new) := by
  have hbackup : s.current = some old → old ≠ new → s.backup = none :=
    fun hold hne => absurd (Option.some.inj (hold.symm.trans hcurrent)) hne
  obtain ⟨site, hsite, hscan⟩ := h.newer.site
  unfold ensureSite
  refine Firm.bind (V := fun found s' => will = found ∧ s = s') (Firm.look (.marked h hcurrent) h.newer.read ⟨rfl, rfl⟩) ?_
  rintro _ _ ⟨rfl, rfl⟩
  refine Firm.bind (V := fun shown s' => shown = siteShows K will s.site ∧ s = s')
    (Firm.look (.marked h hcurrent) rfl ⟨rfl, rfl⟩) ?_
  rintro _ _ ⟨rfl, rfl⟩
  split
  · next hshown => exact Firm.pure ⟨h, hcurrent, ⟨will, h.newer, siteShows_iff.mp hshown⟩, hbackup⟩
  · refine (rebuildSite_firm hsite fun staging site => Doubt.marked (h.rebuilt staging site) hcurrent).mono ?_ fun _ h => h
    rintro _ _ rfl
    exact ⟨h.rebuilt _ _, hcurrent, ⟨will, h.newer, site, rfl, hscan⟩, hbackup⟩

theorem rollBack_firm (h : Marked K old new was will s) (hcurrent : s.current = some old) (hne : old ≠ new) :
    Firm (rollBack K partly old) s (fun _ => Ready K old new was will old) (Doubt K old new was will old) := by
  unfold rollBack
  refine Firm.bind (V := fun found s' => found = s.backup.isSome ∧ s = s')
    (Firm.look (.marked h hcurrent) rfl ⟨rfl, rfl⟩) ?_
  rintro _ _ ⟨rfl, rfl⟩
  cases hbackup : s.backup with
  | some tree =>
    refine Firm.bind (V := fun _ s' => s' = { s with site := none })
      (Firm.gradual (fun n => .marked (h.withSite _) hcurrent) rfl) ?_
    rintro ⟨⟩ _ rfl
    have hrestored := (h.withSite none).restore
    refine Firm.atomic (.marked (h.withSite none) hcurrent) (.marked hrestored hcurrent) ?_
    exact ⟨hrestored, hcurrent, ⟨was, h.older, tree, hbackup, h.backup hcurrent hne tree hbackup⟩, fun _ _ => rfl⟩
  | none =>
    obtain ⟨site, hsite, hscan⟩ := h.older.site
    refine Firm.bind (V := fun found s' => was = found ∧ s = s')
      (Firm.look (.marked h hcurrent) (bind_ok.mpr ⟨(), h.older.valid, h.older.read⟩) ⟨rfl, rfl⟩) ?_
    rintro _ _ ⟨rfl, rfl⟩
    refine (rebuildSite_firm hsite fun staging site => Doubt.marked (h.rebuilt staging site) hcurrent).mono ?_ fun _ h => h
    rintro _ _ rfl
    exact ⟨h.rebuilt _ _, hcurrent, ⟨was, h.older, site, rfl, hscan⟩, fun _ _ => hbackup⟩

theorem settleSite_firm (h : Marked K old new was will s) (hcurrent : s.current = some pointer)
    (hpointer : pointer = old ∨ pointer = new) :
    Firm (settleSite K partly new (some pointer)) s (fun _ => Ready K old new was will pointer)
      (Doubt K old new was will pointer) := by
  change Firm (if pointer = new then ensureSite K partly pointer
    else if pointer.revisionId = new.revisionId then .throw .corrupt else rollBack K partly pointer) _ _ _
  by_cases hnew : pointer = new
  · subst hnew
    rw [if_pos rfl]
    exact ensureSite_firm h hcurrent
  · obtain rfl := hpointer.resolve_right hnew
    rw [if_neg hnew, if_neg fun hrevision => hnew (h.older.pointer_unique h.newer hrevision)]
    exact rollBack_firm h hcurrent hnew

/-- What a commit has left a recovery settles, at the pointer there is; if it does not end, it can be run again. -/
theorem recoverProject_firm (hpointer : pointer = old ∨ pointer = new) (h : Doubt K old new was will pointer s) :
    Firm (recoverProject K partly) s (fun _ s' => ∃ manifest, Rest K pointer manifest s')
      (Doubt K old new was will pointer) := by
  unfold recoverProject
  rcases h with ⟨manifest, hrest⟩ | ⟨hmarked, hcurrent⟩
  · refine Firm.bind (V := fun found s' => found = none ∧ s = s')
      (Firm.look (.rest manifest hrest) (congrArg Except.ok hrest.transaction) ⟨rfl, rfl⟩) ?_
    rintro _ _ ⟨rfl, rfl⟩
    exact Firm.pure ⟨manifest, hrest⟩
  · refine Firm.bind (V := fun found s' => found = some new ∧ s = s')
      (Firm.look (.marked hmarked hcurrent) (congrArg Except.ok hmarked.transaction) ⟨rfl, rfl⟩) ?_
    rintro _ _ ⟨rfl, rfl⟩
    refine Firm.bind (V := fun found s' => found = some pointer ∧ s = s') (Firm.look (.marked hmarked hcurrent)
      (bind_ok.mpr ⟨(), hmarked.newer.valid, congrArg Except.ok hcurrent⟩) ⟨rfl, rfl⟩) ?_
    rintro _ _ ⟨rfl, rfl⟩
    refine Firm.bind (settleSite_firm hmarked hcurrent hpointer) ?_
    rintro ⟨⟩ s hready
    have hsaved : ∀ backup : Option SiteTree, (s.current = some old → old ≠ new → backup = none) →
        Marked K old new was will { s with backup } := fun backup hnone =>
      hready.marked.withBackup fun hold hne tree htree => by
        rw [hnone hold hne] at htree
        cases htree
    refine Firm.bind (V := fun _ s' => s' = { s with backup := none }) (Firm.gradual (fun n => ?_) rfl) ?_
    · refine .marked (hsaved _ fun hold hne => ?_) hready.current
      rw [hready.backup hold hne]
      rfl
    rintro ⟨⟩ _ rfl
    have hcleared := hsaved none fun _ _ => rfl
    refine Firm.bind (V := fun _ s' => s' = { s with backup := none, staging := none })
      (Firm.gradual (fun n => .marked (hcleared.withStaging _) hready.current) rfl) ?_
    rintro ⟨⟩ _ rfl
    obtain ⟨manifest, hrestorable, hsite⟩ := hready.site
    have hrest : Rest K pointer manifest { s with backup := none, staging := none, transaction := none } :=
      ⟨hrestorable, hready.current, rfl, rfl, hsite⟩
    refine Firm.bind (V := fun _ s' => s' = { s with backup := none, staging := none, transaction := none })
      (Firm.atomic (.marked (hcleared.withStaging _) hready.current) (.rest manifest hrest) rfl) ?_
    rintro ⟨⟩ _ rfl
    exact Firm.atomic (.rest manifest hrest) (.rest manifest hrest) ⟨manifest, hrest⟩

/-- A project that a commit has left is not refused when the server opens. -/
theorem preflightTransaction_ok (hpointer : pointer = old ∨ pointer = new) (h : Doubt K old new was will pointer s) :
    preflightTransaction K s = .ok () := by
  rcases h with ⟨manifest, hrest⟩ | ⟨hmarked, hcurrent⟩
  · refine bind_ok.mpr ⟨some (pointer, manifest), ?_, ?_⟩
    · rw [hrest.current]
      change some <$> ((loadRevision K s pointer).map _) = _
      rw [hrest.restorable.loads]
      rfl
    · rw [hrest.transaction]
      exact bind_ok.mpr ⟨_, rfl, ensureShows_ok hrest.site⟩
  · have hmanifest : ∃ manifest, Restorable K s.objects s.revisions pointer manifest ∧ (pointer ≠ new → manifest = was) := by
      rcases hpointer with rfl | rfl
      · exact ⟨was, hmarked.older, fun _ => rfl⟩
      · exact ⟨will, hmarked.newer, fun h => absurd rfl h⟩
    obtain ⟨manifest, hrestorable, hwas⟩ := hmanifest
    refine bind_ok.mpr ⟨some (pointer, manifest), ?_, ?_⟩
    · rw [hcurrent]
      change some <$> ((loadRevision K s pointer).map _) = _
      rw [hrestorable.loads]
      rfl
    · rw [hmarked.transaction]
      refine bind_ok.mpr ⟨will, hmarked.newer.loads, bind_ok.mpr ⟨(), ?_, ?_⟩⟩
      · exact ensure_ok.mpr fun hrevision => hrestorable.pointer_unique hmarked.newer hrevision
      · split
        · next hbackup =>
          obtain ⟨hne, hsome⟩ := hbackup
          obtain rfl := hpointer.resolve_right hne
          obtain ⟨tree, htree⟩ := Option.isSome_iff_exists.mp hsome
          rw [hwas hne]
          exact ensureShows_ok ⟨tree, htree, hmarked.backup hcurrent hne tree htree⟩
        · rfl

end

/-! ## The commit -/

/-- Objects and revisions are added, nothing else changes. -/
structure Grew (s s' : CommitTree) : Prop where
  objects : ∀ (digest : Text) (bytes : Bytes), s.objects[digest]? = some bytes → s'.objects[digest]? = some bytes
  revisions : ∀ id manifest, s.revisions.find? (·.revisionId = id) = some manifest →
    s'.revisions.find? (·.revisionId = id) = some manifest
  same : s' = { s with objects := s'.objects, revisions := s'.revisions }

instance : IsPreorder CommitTree Grew where
  refl _ := ⟨fun _ _ h => h, fun _ _ h => h, rfl⟩
  trans _ _ _ h h' := ⟨fun digest bytes hbytes => h'.objects digest bytes (h.objects digest bytes hbytes),
    fun id manifest hfound => h'.revisions id manifest (h.revisions id manifest hfound), by rw [h'.same, h.same]⟩

theorem loadManifestFiles_grew (h : Grew s s') {files : List (Text × Bytes)}
    (hfiles : loadManifestFiles K s.objects manifest = .ok files) : loadManifestFiles K s'.objects manifest = .ok files := by
  refine mapM_imp hfiles fun file _ loaded hloaded => ?_
  unfold readObject at hloaded ⊢
  split at hloaded
  · cases hloaded
  · next bytes hbytes =>
    rw [h.objects _ _ hbytes]
    exact hloaded

theorem Restorable.grew (h : Restorable K s.objects s.revisions pointer manifest) (hgrew : Grew s s') :
    Restorable K s'.objects s'.revisions pointer manifest where
  valid := h.valid
  read := by
    have hmanifest := h.read
    unfold readManifest at hmanifest ⊢
    split at hmanifest
    · cases hmanifest
    · next found hfound =>
      rw [hgrew.revisions _ _ hfound]
      exact hmanifest
  site := by
    obtain ⟨site, hsite, hscan⟩ := h.site
    obtain ⟨files, hfiles, hordered⟩ := bind_ok.mp hsite
    exact ⟨site, bind_ok.mpr ⟨files, loadManifestFiles_grew hgrew hfiles, hordered⟩, hscan⟩

theorem Rest.grew (h : Rest K pointer manifest s) (hgrew : Grew s s') : Rest K pointer manifest s' where
  restorable := h.restorable.grew hgrew
  current := by rw [hgrew.same]; exact h.current
  transaction := by rw [hgrew.same]; exact h.transaction
  backup := by rw [hgrew.same]; exact h.backup
  site := by rw [hgrew.same]; exact h.site

theorem insertObject_grew (digest : Text) (bytes : Bytes) (s : CommitTree) : Grew s (insertObject digest bytes s) := by
  unfold insertObject
  split
  · exact Std.Refl.refl (r := Grew) s
  · next hfresh =>
    refine ⟨fun other found hfound => ?_, fun _ _ h => h, rfl⟩
    have hne : compare digest other ≠ .eq := fun heq => by
      cases Std.LawfulEqCmp.eq_of_compare heq
      exact hfresh (Std.ExtTreeMap.mem_iff_isSome_getElem?.mpr (by rw [hfound]; rfl))
    change (s.objects.insert digest bytes)[other]? = _
    rw [Std.ExtTreeMap.getElem?_insert, if_neg hne]
    exact hfound

theorem writeObject_ends (file : Text × Bytes) (faults : CommitStep → Outcome) (s : CommitTree) :
    Ends (writeObject K file) faults s (fun _ s' => Grew s s' ∧ s'.objects[K.sha256 file.2]? = some file.2)
      (fun _ s' => Grew s s') fun s' => Grew s s' := by
  have hsame : Grew s s := Std.Refl.refl s
  have hinserted := insertObject_grew (K.sha256 file.2) file.2 s
  unfold writeObject
  refine Ends.bind (Ends.look (fun _ hfound _ => ?_) (fun _ _ => hsame) (fun _ _ => hsame) fun _ _ => hsame)
  refine Ends.atomic (fun _ => ⟨hinserted, ?_⟩) (fun _ => hsame) (fun _ _ => hinserted) (fun _ => hsame) fun _ _ => hinserted
  unfold insertObject
  split
  · next hmem =>
    obtain ⟨bytes, hbytes⟩ := Option.isSome_iff_exists.mp (Std.ExtTreeMap.mem_iff_isSome_getElem?.mp hmem)
    rw [hbytes] at hfound ⊢
    split at hfound
    · cases hfound
    · next hsame =>
      simpa using hsame
  · exact Std.ExtTreeMap.getElem?_insert_self

theorem writeManifest_ends (faults : CommitStep → Outcome) (s : CommitTree) :
    Ends (writeManifest K r) faults s
      (fun _ s' => Grew s s' ∧ s'.revisions.find? (·.revisionId = r.revisionId) = some (r.manifest K))
      (fun _ s' => Grew s s') fun s' => Grew s s' := by
  have hsame : Grew s s := Std.Refl.refl s
  unfold writeManifest
  refine Ends.bind (Ends.look (fun written hwritten _ => ?_) (fun _ _ => hsame) (fun _ _ => hsame) fun _ _ => hsame)
  unfold manifestWritten at hwritten
  split at hwritten
  · next hnone =>
    cases hwritten
    have hadded : Grew s (addManifest K r s) := by
      refine ⟨fun _ _ h => h, fun id manifest hfound => ?_, rfl⟩
      change (s.revisions ++ [r.manifest K]).find? _ = _
      rw [List.find?_append, hfound]
      rfl
    refine Ends.atomic (fun _ => ⟨hadded, ?_⟩) (fun _ => hsame) (fun _ _ => hadded) (fun _ => hsame) fun _ _ => hadded
    change (s.revisions ++ [r.manifest K]).find? _ = _
    rw [List.find?_append, hnone]
    simp [Commit.manifest]
  · next found hfound =>
    split at hwritten
    · next heq =>
      cases hwritten
      exact Ends.pure ⟨hsame, heq ▸ hfound⟩
    · cases hwritten

/-- The site that a commit writes is one that is scanned as it is written, and the digest of its manifest is a digest. -/
structure Writable (K : Crates) (r : Commit) : Prop where
  canonical : validateSha256 r.canonicalManifestSha256 = .ok ()
  scan : scanMaterialized K ⟨createdDirectories r.site.files, r.site.files, r.site.sorted⟩ = .ok (r.manifest K).files

theorem restorable_of_written (hr : Writable K r) (hvalid : validate K r = .ok ())
    (hobjects : ∀ file ∈ r.site.files, objects[K.sha256 file.2]? = some file.2)
    (hfound : revisions.find? (·.revisionId = r.revisionId) = some (r.manifest K)) :
    Restorable K objects revisions r.pointer (r.manifest K) := by
  obtain ⟨⟨⟩, hrevision, hvalid⟩ := bind_ok.mp hvalid
  obtain ⟨⟨⟩, hartifact, -⟩ := bind_ok.mp hvalid
  have hloads : loadManifestFiles K objects (r.manifest K) = .ok r.site.files := by
    refine mapM_ok.mpr (List.forall₂_map_left_iff.mpr (List.forall₂_same.mpr fun file hfile => ?_))
    unfold readObject store
    rw [hobjects file hfile]
    exact if_pos ⟨rfl, rfl⟩
  refine ⟨bind_ok.mpr ⟨(), hrevision, bind_ok.mpr ⟨(), hr.canonical, hartifact⟩⟩, ?_, _, ?_, hr.scan⟩
  · unfold readManifest
    split
    · next hnone => cases hnone.symm.trans hfound
    · next found hthere =>
      cases hthere.symm.trans hfound
      have hvalid : validateManifest K (r.manifest K) = .ok () :=
        bind_ok.mpr ⟨(), hrevision, bind_ok.mpr ⟨(), hartifact, scan_valid hr.scan⟩⟩
      exact bind_ok.mpr ⟨(), ensure_ok.mpr ⟨rfl, rfl⟩, bind_ok.mpr ⟨(), hvalid, rfl⟩⟩
  · exact bind_ok.mpr ⟨r.site.files, hloads, dif_pos r.site.sorted⟩

theorem writeRevision_ends (hr : Writable K r) (faults : CommitStep → Outcome) (s : CommitTree) :
    Ends (writeRevision K r) faults s
      (fun _ s' => Grew s s' ∧ Restorable K s'.objects s'.revisions r.pointer (r.manifest K))
      (fun _ s' => Grew s s') fun s' => Grew s s' := by
  have hsame : Grew s s := Std.Refl.refl s
  unfold writeRevision
  refine Ends.bind (Ends.look (fun _ hvalid _ => ?_) (fun _ _ => hsame) (fun _ _ => hsame) fun _ _ => hsame)
  have hobjects : Ends (r.site.files.forM (writeObject K)) faults s
      (fun _ s' => Grew s s' ∧ ∀ file ∈ r.site.files, file ∈ [] ∨ s'.objects[K.sha256 file.2]? = some file.2)
      (fun _ s' => Grew s s') fun s' => Grew s s' := by
    refine Ends.forM (I := fun rest s' => Grew s s' ∧
      ∀ file ∈ r.site.files, file ∈ rest ∨ s'.objects[K.sha256 file.2]? = some file.2)
      ⟨hsame, fun file hfile => .inl hfile⟩ ?_
    rintro file rest s₁ ⟨hgrew, hrest⟩
    refine (writeObject_ends file faults s₁).mono ?_ (fun _ s₂ h => IsTrans.trans _ _ _ hgrew h)
      fun s₂ h => IsTrans.trans _ _ _ hgrew h
    rintro ⟨⟩ s₂ ⟨hgrew₂, hwritten⟩
    refine ⟨IsTrans.trans _ _ _ hgrew hgrew₂, fun other hother => ?_⟩
    rcases hrest other hother with hmem | hthere
    · rcases List.mem_cons.mp hmem with rfl | hmem
      · exact .inr hwritten
      · exact .inl hmem
    · exact .inr (hgrew₂.objects _ _ hthere)
  refine Ends.bind (hobjects.mono ?_ (fun _ _ h => h) fun _ h => h)
  rintro ⟨⟩ s₁ ⟨hgrew, hthere⟩
  refine (writeManifest_ends faults s₁).mono ?_ (fun _ s₂ h => IsTrans.trans _ _ _ hgrew h)
    fun s₂ h => IsTrans.trans _ _ _ hgrew h
  rintro ⟨⟩ s₂ ⟨hgrew₂, hfound⟩
  refine ⟨IsTrans.trans _ _ _ hgrew hgrew₂, restorable_of_written hr hvalid (fun file hfile => ?_) hfound⟩
  exact hgrew₂.objects _ _ ((hthere file hfile).resolve_left List.not_mem_nil)

section
variable {will : RevisionManifest} {faults : CommitStep → Outcome}

/-- From the journal on: the site is exchanged, then the pointer, and the journal goes last. -/
theorem exchange_ends (hmarked : Marked K old r.pointer was (r.manifest K) s) (hcurrent : s.current = some old)
    (hbackup : s.backup = none) (hshows : Shows K was s.site) :
    Ends (do
      (materializeTo K partly (r.manifest K)).relabel .materialize
      backUpSite partly
      publishSite
      .atomic .io .pointer fun s => { s with current := some r.pointer }
      .atomic .io .sync id
      removeBackup partly .removeBackup
      .atomic .io .finish fun s => { s with transaction := none }) faults s
      (fun _ s' => Rest K r.pointer (r.manifest K) s')
      (fun _ s' => Left K old r.pointer was (r.manifest K) s') fun s' => Left K old r.pointer was (r.manifest K) s' := by
  obtain ⟨site, hsite, hscan⟩ := hmarked.newer.site
  obtain ⟨tree, htree, hwas⟩ := hshows
  have hleft : ∀ {s' : CommitTree}, Marked K old r.pointer was (r.manifest K) s' → s'.current = some old →
      Left K old r.pointer was (r.manifest K) s' := fun h hcurrent => h.left (.inl hcurrent)
  refine Ends.bind (((Firm.relabel (materializeTo_firm hsite
    fun staging => hleft (hmarked.withStaging staging) hcurrent)).ends faults).mono ?_ (fun _ _ h => h) fun _ h => h)
  rintro ⟨⟩ _ rfl
  -- the backup is the old site
  have hsaved : Marked K old r.pointer was (r.manifest K)
      { s with staging := some site, site := none, backup := s.site } :=
    ((hmarked.withStaging _).withSite none).withBackup fun _ _ found hfound => by
      cases htree.symm.trans hfound
      exact hwas
  have hstaged := hmarked.withStaging (some site)
  have hbacked : Ends (backUpSite partly) faults { s with staging := some site }
      (fun _ s' => s' = { s with staging := some site, site := none, backup := s.site })
      (fun _ s' => Left K old r.pointer was (r.manifest K) s') fun s' => Left K old r.pointer was (r.manifest K) s' := by
    have hnone : ∀ n, Left K old r.pointer was (r.manifest K)
        { s with staging := some site, backup := s.backup.bind (partly n) } := fun n =>
      hleft (hstaged.withBackup fun _ _ found hfound => by rw [hbackup] at hfound; cases hfound) hcurrent
    unfold backUpSite removeBackup
    refine Ends.bind (Ends.gradual (fun _ => ?_) (fun n _ => hnone n) fun n _ => hnone n)
    have hdropped : Left K old r.pointer was (r.manifest K) { s with staging := some site, backup := none } :=
      hleft (hstaged.withBackup fun _ _ => nofun) hcurrent
    refine Ends.bind (Ends.look (fun found hfound _ => ?_) nofun (fun _ _ => hdropped) fun _ _ => hdropped)
    cases hfound
    have hsome : s.site.isSome = true := by rw [htree]; rfl
    rw [if_pos hsome]
    have hmoved := hleft hsaved hcurrent
    exact Ends.atomic (fun _ => rfl) (fun _ => hdropped) (fun _ _ => hmoved) (fun _ => hdropped) fun _ _ => hmoved
  refine Ends.bind (hbacked.mono ?_ (fun _ _ h => h) fun _ h => h)
  rintro ⟨⟩ _ rfl
  have hpublished := hsaved.publish
  have hpublish : Ends publishSite faults { s with staging := some site, site := none, backup := s.site }
      (fun _ s' => s' = { s with staging := none, site := some site, backup := s.site })
      (fun _ s' => Left K old r.pointer was (r.manifest K) s') fun s' => Left K old r.pointer was (r.manifest K) s' := by
    have hrestore : ∀ (e : StorageError) {s' : CommitTree}, Marked K old r.pointer was (r.manifest K) s' →
        s'.current = some old → Ends (do
          (Program.atomic .io CommitStep.restore fun s =>
            if s.backup.isSome && s.site.isNone then restoreBackup s else s).ignore
          .throw e : Program CommitStep CommitTree StorageError Unit) faults s'
          (fun _ s' => s' = { s with staging := none, site := some site, backup := s.site })
          (fun _ s' => Left K old r.pointer was (r.manifest K) s') fun s' => Left K old r.pointer was (r.manifest K) s' := by
      intro e s' hs' hcurrent'
      have hafter : Left K old r.pointer was (r.manifest K)
          (if s'.backup.isSome && s'.site.isNone then restoreBackup s' else s') := by
        split
        · exact hleft hs'.restore hcurrent'
        · exact hleft hs' hcurrent'
      have hbefore := hleft hs' hcurrent'
      exact Ends.bind (Ends.ignore (Ends.atomic (fun _ => Ends.throw hafter) (fun _ => Ends.throw hbefore)
        (fun _ _ => Ends.throw hafter) (fun _ => hbefore) fun _ _ => hafter))
    unfold publishSite
    exact Ends.rescue (Ends.atomic (fun _ => rfl) (fun _ => hrestore _ hsaved hcurrent)
      (fun _ _ => hrestore _ hpublished hcurrent) (fun _ => hleft hsaved hcurrent) fun _ _ => hleft hpublished hcurrent)
  refine Ends.bind (hpublish.mono ?_ (fun _ _ h => h) fun _ h => h)
  rintro ⟨⟩ _ rfl
  -- from the pointer on the backup is no longer needed
  have hpointed : ∀ backup, Left K old r.pointer was (r.manifest K)
      { s with staging := none, site := some site, backup, current := some r.pointer } := by
    intro backup
    have hnew : Marked K old r.pointer was (r.manifest K)
        { s with staging := none, site := some site, backup, current := some r.pointer } :=
      ⟨hmarked.older, hmarked.newer, hmarked.transaction, fun hold hne => absurd (Option.some.inj hold).symm hne⟩
    exact hnew.left (.inr rfl)
  have hbefore := hleft hpublished hcurrent
  refine Ends.bind (Ends.atomic (fun _ => ?_) (fun _ => hbefore) (fun _ _ => hpointed _) (fun _ => hbefore)
    fun _ _ => hpointed _)
  refine Ends.bind (Ends.atomic (fun _ => ?_) (fun _ => hpointed _) (fun _ _ => hpointed _) (fun _ => hpointed _)
    fun _ _ => hpointed _)
  refine Ends.bind (Ends.gradual (fun _ => ?_) (fun n _ => hpointed _) fun n _ => hpointed _)
  have hrest : Rest K r.pointer (r.manifest K)
      { s with staging := none, site := some site, backup := none, current := some r.pointer, transaction := none } :=
    ⟨hmarked.newer, rfl, rfl, rfl, site, rfl, hscan⟩
  have hdone : Left K old r.pointer was (r.manifest K) _ := .inr (.rest (r.manifest K) hrest)
  exact Ends.atomic (fun _ => hrest) (fun _ => hpointed _) (fun _ _ => hdone) (fun _ => hpointed _) fun _ _ => hdone

theorem commitRevisionAt_ends (hrest : Rest K old was s) (hr : Writable K r) (faults : CommitStep → Outcome) :
    Ends (commitRevisionAt K partly r) faults s (fun _ s' => Rest K r.pointer (r.manifest K) s')
      (fun _ s' => Left K old r.pointer was (r.manifest K) s') fun s' => Left K old r.pointer was (r.manifest K) s' := by
  have hgrown : ∀ {s'}, Grew s s' → Left K old r.pointer was (r.manifest K) s' := fun h => (hrest.grew h).left
  unfold commitRevisionAt
  refine Ends.bind ((writeRevision_ends hr faults s).mono ?_ (fun _ _ h => hgrown h) fun _ h => hgrown h)
  rintro ⟨⟩ s₁ ⟨hgrew, hnew⟩
  have hrest₁ := hrest.grew hgrew
  have hmarked : Marked K old r.pointer was (r.manifest K) { s₁ with transaction := some r.pointer } :=
    ⟨hrest₁.restorable, hnew, rfl, fun _ _ tree htree => by cases hrest₁.backup.symm.trans htree⟩
  have hleft := hmarked.left (.inl hrest₁.current)
  refine Ends.bind (Ends.atomic (fun _ => ?_) (fun _ => hrest₁.left) (fun _ _ => hleft) (fun _ => hrest₁.left)
    fun _ _ => hleft)
  exact exchange_ends hmarked hrest₁.current hrest₁.backup hrest₁.site

/-- The project of `sampleRevision` at rest. -/
def sampleTree : CommitTree where
  objects := (∅ : Objects).insert (sampleCrates.sha256 [1]) [1]
  revisions := [sampleRevision.manifest]
  current := some sampleRevision.pointer
  transaction := none
  site := some sampleRevision.site
  staging := none
  backup := none

theorem sampleTree_rest : Rest sampleCrates sampleRevision.pointer sampleRevision.manifest sampleTree where
  restorable := by
    refine ⟨by decide, ?_, sampleRevision.site, bind_ok.mpr ⟨_, sample_load, dif_pos sampleRevision.site.sorted⟩, sample_scan⟩
    have hvalid : validateManifest sampleCrates sampleRevision.manifest = .ok () :=
      bind_ok.mpr ⟨(), by decide, bind_ok.mpr ⟨(), by decide, scan_valid sample_scan⟩⟩
    exact bind_ok.mpr ⟨(), rfl, bind_ok.mpr ⟨(), hvalid, rfl⟩⟩
  current := rfl
  transaction := rfl
  backup := rfl
  site := ⟨sampleRevision.site, rfl, sample_scan⟩

def sampleCommit : Commit where
  projectId := sampleRevision.projectId
  revisionId := "rev_".toList ++ List.replicate 32 '1'
  artifactManifestSha256 := List.replicate 64 '1'
  site := ⟨[], [("index.html".toList, [2])], List.pairwise_singleton _ _⟩
  canonicalManifestSha256 := List.replicate 64 '1'

theorem sampleCommit_writable : Writable sampleCrates sampleCommit where
  canonical := by decide
  scan := by
    have hstored : storedFiles sampleCrates sampleCommit.site.files = some (sampleCommit.manifest sampleCrates).files :=
      if_pos ⟨by decide, by decide, by decide, by decide, by decide⟩
    unfold scanMaterialized
    rw [if_pos ⟨by decide, by decide⟩, hstored]
    rfl

/-- The process stops once the old site is out of its place. -/
def stopsAfterBackup : CommitStep → Outcome
  | .backup => .stopped 1
  | _ => .done

end

end LpStudio.Storage.Transactions
