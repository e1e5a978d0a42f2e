import LpStudio.Server.ImportPreviews

/-! # An import is bound to its review
A record comes from a preview that was returned, a confirmation in flight from a request that named its digest, and
the record of a preview is gone once a project has come of it. Ids are never issued twice, so it stays gone.
-/
namespace LpStudio.Server.Imports
open Str Storage Run

/-- The preview id that a call draws. -/
def Call.issued : Call → Option Text
  | .createPreview _ id _ _ _ => some id
  | _ => none

/-- The scan that a call makes. -/
def Call.scan (K : Crates) : Call → Option ImportScan
  | .createPreview _ _ (some source) _ _ => (scanImport K source).toOption
  | .scanSource _ (some source) => (scanImport K source).toOption
  | _ => none

/-- A confirmation of the preview has created a project. -/
def confirms (previewId : Text) (e : Event Store Call Reply) : Bool :=
  match e.call, e.reply with
  | .finish request _ _, .created _ => (e.before.confirmations[request]?).any (·.previewId == previewId)
  | _, _ => false

/-- The preview was returned to the session, with this scan and at this time. -/
structure Returned (K : Crates) (e : Event Store Call Reply) (sessionId id : Text) (scan : ImportScan) (now : ℕ) :
    Prop where
  call : ∃ source swept, e.call = .createPreview sessionId id (some source) swept now ∧ scanImport K source = .ok scan
  reply : e.reply = .preview (previewDto id scan)

/-- What a confirmation has made sure of. -/
def Stage.Holds (K : Crates) (calls : List Call) (previewDigest : Text) : Stage → Prop
  | .checked => True
  | .scanned scan => scan ∈ calls.filterMap (Call.scan K)
  | .ready project => ∃ scan ∈ calls.filterMap (Call.scan K), project.acceptedFiles = scan.files ∧
      scan.manifestSha256 = previewDigest ∧ scan.entryPoint = some "index.html".toList

/-- The invariant of what has happened, what is still to come and the store; `calls` are all calls of the run. -/
structure Inv (K : Crates) (calls : List Call) (past : List (Event Store Call Reply)) (coming : List Call) (s : Store) :
    Prop where
  split : calls = past.map (·.call) ++ coming
  previews : ∀ (id : Text) (preview : ImportPreviewRecord), s.importPreviews[id]? = some preview →
    ∃ e ∈ past, ∃ scan now, Returned K e preview.sessionId id scan now ∧
      preview.manifestSha256 = scan.manifestSha256 ∧ preview.expiresAt = expiry now
  confirmations : ∀ (request : ℕ) (confirmation : Confirmation), s.confirmations[request]? = some confirmation →
    (∃ e ∈ past, e.reply = .started request) ∧
    (∀ e ∈ past, e.reply = .started request → ∃ now, e.call =
      .startConfirmation confirmation.sessionId confirmation.previewId confirmation.previewDigest now) ∧
    confirmation.stage.Holds K calls confirmation.previewDigest
  numbers : ∀ e ∈ past, ∀ request, e.reply = .started request → request < s.started
  spent : ∀ e ∈ past, ∀ previewId, confirms previewId e = true →
    previewId ∈ past.filterMap (·.call.issued) ∧ s.importPreviews[previewId]? = none
  once : ∀ previewId, past.countP (confirms previewId) ≤ 1

section
variable {K : Crates} {calls : List Call} {past : List (Event Store Call Reply)} {s : Store}

theorem Inv.initial (hpreviews : s.importPreviews = ∅) (hconfirmations : s.confirmations = ∅) :
    Inv K calls [] calls s where
  split := rfl
  previews id preview h := absurd h (by simp [hpreviews])
  confirmations request confirmation h := absurd h (by simp [hconfirmations])
  numbers e he := absurd he List.not_mem_nil
  spent e he := absurd he List.not_mem_nil
  once previewId := Nat.zero_le 1

theorem confirms_quiet {e : Event Store Call Reply} (h : ∀ project, e.reply ≠ .created project) (previewId : Text) :
    confirms previewId e = false := by
  unfold confirms
  split
  · exact absurd ‹_› (h _)
  · rfl

theorem not_started_of_quiet {reply : Reply} (h : reply.Quiet) (request : ℕ) : reply ≠ .started request := by
  rintro rfl
  exact h

theorem not_created_of_quiet {reply : Reply} (h : reply.Quiet) (project : Project) : reply ≠ .created project := by
  rintro rfl
  exact h

theorem Stage.Holds.of_advances {request : ℕ} {confirmation : Confirmation} {call : Call} {stage : Stage}
    (hstage : Advances K confirmation request call stage) (hcall : call ∈ calls)
    (hholds : confirmation.stage.Holds K calls confirmation.previewDigest) :
    stage.Holds K calls confirmation.previewDigest := by
  cases hstage with
  | scan hscan => exact List.mem_filterMap.mpr ⟨_, hcall, by simp only [Call.scan, hscan]; rfl⟩
  | recheck hscanned hfiles hdigest hentry =>
    rw [hscanned] at hholds
    exact ⟨_, hholds, hfiles, hdigest, hentry⟩

variable {coming : List Call} {call : Call} {reply : Reply} {s' : Store}

theorem Inv.call_mem (h : Inv K calls past (call :: coming) s) : call ∈ calls := by
  rw [h.split]
  exact List.mem_append_right _ List.mem_cons_self

/-- An id that a call draws now was not drawn before. -/
theorem Inv.fresh (h : Inv K calls past (call :: coming) s) (hids : (calls.filterMap Call.issued).Nodup) {id : Text}
    (hid : call.issued = some id) : id ∉ past.filterMap (·.call.issued) := by
  intro hmem
  rw [h.split, List.filterMap_append, List.filterMap_cons, hid, List.filterMap_map] at hids
  exact (List.nodup_append.mp hids).2.2 id hmem id List.mem_cons_self rfl

theorem Inv.step_previews (h : Inv K calls past (call :: coming) s) (hmove : Moves K s call reply s') (id : Text)
    (preview : ImportPreviewRecord) (hpreview : s'.importPreviews[id]? = some preview) :
    ∃ e ∈ past ++ [⟨s, call, reply, s'⟩], ∃ scan now, Returned K e preview.sessionId id scan now ∧
      preview.manifestSha256 = scan.manifestSha256 ∧ preview.expiresAt = expiry now := by
  have hold : s.importPreviews[id]? = some preview → ∃ e ∈ past ++ [⟨s, call, reply, s'⟩], ∃ scan now,
      Returned K e preview.sessionId id scan now ∧ preview.manifestSha256 = scan.manifestSha256 ∧
        preview.expiresAt = expiry now := by
    intro hbefore
    obtain ⟨e, he, hreturned⟩ := h.previews id preview hbefore
    exact ⟨e, List.mem_append_left _ he, hreturned⟩
  cases hmove with
  | quiet _ hpreviews => exact hold (hpreviews id preview hpreview)
  | preview hscan hpreviews =>
    rcases hpreviews id preview hpreview with hbefore | ⟨rfl, rfl⟩
    · exact hold hbefore
    · exact ⟨_, List.mem_append_right _ List.mem_cons_self, _, _, ⟨⟨_, _, rfl, hscan⟩, rfl⟩, rfl, rfl⟩
  | started hpreviews => exact hold (hpreviews id preview hpreview)
  | going _ _ hpreviews => exact hold (hpreviews id preview hpreview)
  | created _ _ _ hpreviews =>
    rw [hpreviews] at hpreview
    exact hold (shrinks_erase _ _ id preview hpreview)

/-- What the invariant says of a confirmation in flight. -/
def Bound (K : Crates) (calls : List Call) (past : List (Event Store Call Reply)) (request : ℕ)
    (confirmation : Confirmation) : Prop :=
  (∃ e ∈ past, e.reply = .started request) ∧
  (∀ e ∈ past, e.reply = .started request → ∃ now, e.call =
    .startConfirmation confirmation.sessionId confirmation.previewId confirmation.previewDigest now) ∧
  confirmation.stage.Holds K calls confirmation.previewDigest

theorem Bound.snoc {request : ℕ} {confirmation : Confirmation} {e : Event Store Call Reply}
    (h : Bound K calls past request confirmation) (he : e.reply ≠ .started request) :
    Bound K calls (past ++ [e]) request confirmation := by
  obtain ⟨⟨e', he', hstarted⟩, hnamed, hholds⟩ := h
  refine ⟨⟨e', List.mem_append_left _ he', hstarted⟩, fun e'' he'' hreply => ?_, hholds⟩
  rcases List.mem_append.mp he'' with hpast | hlast
  · exact hnamed e'' hpast hreply
  · obtain rfl := List.mem_singleton.mp hlast
    exact absurd hreply he

theorem Inv.step_confirmations (h : Inv K calls past (call :: coming) s) (hmove : Moves K s call reply s')
    (request : ℕ) (confirmation : Confirmation) (hheld : s'.confirmations[request]? = some confirmation) :
    Bound K calls (past ++ [⟨s, call, reply, s'⟩]) request confirmation := by
  have hold : s.confirmations[request]? = some confirmation → reply ≠ .started request →
      Bound K calls (past ++ [⟨s, call, reply, s'⟩]) request confirmation := fun hbefore hreply =>
    Bound.snoc (h.confirmations request confirmation hbefore) hreply
  cases hmove with
  | quiet hreply _ hconfirmations =>
    exact hold (hconfirmations request confirmation hheld) (not_started_of_quiet hreply request)
  | preview _ _ hconfirmations =>
    rw [hconfirmations] at hheld
    exact hold hheld (by simp)
  | started _ hconfirmations =>
    rw [hconfirmations, Std.ExtTreeMap.getElem?_insert] at hheld
    split at hheld
    · rename_i heq
      obtain rfl := Std.LawfulEqCmp.eq_of_compare heq
      cases hheld
      refine ⟨⟨_, List.mem_append_right _ List.mem_cons_self, rfl⟩, fun e he hreply => ?_, trivial⟩
      rcases List.mem_append.mp he with hpast | hlast
      · exact absurd (h.numbers e hpast _ hreply) (Nat.lt_irrefl _)
      · obtain rfl := List.mem_singleton.mp hlast
        exact ⟨_, rfl⟩
    · rename_i hne
      refine hold hheld fun hreply => ?_
      cases hreply
      exact hne Std.ReflCmp.compare_self
  | going hbefore hstage _ hconfirmations =>
    rw [hconfirmations, Std.ExtTreeMap.getElem?_insert] at hheld
    split at hheld
    · rename_i heq
      obtain rfl := Std.LawfulEqCmp.eq_of_compare heq
      cases hheld
      obtain ⟨hstarted, hnamed, hholds⟩ := h.confirmations _ _ hbefore
      have hnext := Stage.Holds.of_advances hstage h.call_mem hholds
      exact Bound.snoc ⟨hstarted, hnamed, hnext⟩ (by simp)
    · exact hold hheld (by simp)
  | created _ _ _ _ _ hconfirmations =>
    rw [hconfirmations, Std.ExtTreeMap.getElem?_erase] at hheld
    split at hheld
    · cases hheld
    · exact hold hheld (by simp)

theorem Inv.step_numbers (h : Inv K calls past (call :: coming) s) (hmove : Moves K s call reply s') :
    ∀ e ∈ past ++ [⟨s, call, reply, s'⟩], ∀ request, e.reply = .started request → request < s'.started := by
  have hgrows : s.started ≤ s'.started ∧ ∀ request, reply = .started request → request < s'.started := by
    cases hmove with
    | quiet hreply _ _ hstarted => exact ⟨hstarted.ge, fun request hr => absurd hr (not_started_of_quiet hreply request)⟩
    | preview _ _ _ hstarted => exact ⟨hstarted.ge, by simp⟩
    | started _ _ hstarted => exact ⟨by omega, fun request hr => by cases hr; omega⟩
    | going _ _ _ _ hstarted => exact ⟨hstarted.ge, by simp⟩
    | created _ _ _ _ _ _ hstarted => exact ⟨hstarted.ge, by simp⟩
  intro e he request hreply
  rcases List.mem_append.mp he with hpast | hlast
  · exact (h.numbers e hpast request hreply).trans_le hgrows.1
  · obtain rfl := List.mem_singleton.mp hlast
    exact hgrows.2 request hreply

/-- The record that a confirmation uses up. -/
theorem confirms_created {previewId : Text} (hmove : Moves K s call reply s')
    (hconfirms : confirms previewId ⟨s, call, reply, s'⟩ = true) :
    (∃ preview, s.importPreviews[previewId]? = some preview) ∧ s'.importPreviews[previewId]? = none := by
  cases hmove with
  | quiet hreply =>
    have hnone : confirms previewId ⟨s, call, reply, s'⟩ = false := confirms_quiet (not_created_of_quiet hreply) previewId
    rw [hnone] at hconfirms
    cases hconfirms
  | created hheld _ hpasses hpreviews =>
    simp only [confirms, hheld, Option.any_some, beq_iff_eq] at hconfirms
    subst hconfirms
    exact ⟨⟨_, hpasses.recorded⟩, by rw [hpreviews, Std.ExtTreeMap.getElem?_erase_self]⟩
  | _ => exact absurd hconfirms (by simp [confirms])

/-- A preview that is gone and was issued does not come back. -/
theorem Inv.step_gone (h : Inv K calls past (call :: coming) s) (hids : (calls.filterMap Call.issued).Nodup)
    (hmove : Moves K s call reply s') {previewId : Text} (hissued : previewId ∈ past.filterMap (·.call.issued))
    (hgone : s.importPreviews[previewId]? = none) : s'.importPreviews[previewId]? = none := by
  have hshrinks : Shrinks s.importPreviews s'.importPreviews → s'.importPreviews[previewId]? = none := by
    intro hpreviews
    cases hafter : s'.importPreviews[previewId]? with
    | none => rfl
    | some preview => exact absurd (hpreviews previewId preview hafter) (by simp [hgone])
  cases hmove with
  | quiet _ hpreviews => exact hshrinks hpreviews
  | preview _ hpreviews =>
    cases hafter : s'.importPreviews[previewId]? with
    | none => rfl
    | some preview =>
      rcases hpreviews previewId preview hafter with hbefore | ⟨rfl, -⟩
      · exact absurd hbefore (by simp [hgone])
      · exact absurd hissued (h.fresh hids rfl)
  | started hpreviews => exact hshrinks hpreviews
  | going _ _ hpreviews => exact hshrinks hpreviews
  | created _ _ _ hpreviews =>
    rw [hpreviews]
    rw [hpreviews] at hshrinks
    exact hshrinks (shrinks_erase _ _)

theorem Returned.issued {e : Event Store Call Reply} {sessionId id : Text} {scan : ImportScan} {now : ℕ}
    (h : Returned K e sessionId id scan now) (he : e ∈ past) : id ∈ past.filterMap (·.call.issued) := by
  obtain ⟨source, swept, hcall, -⟩ := h.call
  exact List.mem_filterMap.mpr ⟨e, he, by rw [hcall]; rfl⟩

theorem Inv.step_spent (h : Inv K calls past (call :: coming) s) (hids : (calls.filterMap Call.issued).Nodup)
    (hmove : Moves K s call reply s') :
    ∀ e ∈ past ++ [⟨s, call, reply, s'⟩], ∀ previewId, confirms previewId e = true →
      previewId ∈ (past ++ [(⟨s, call, reply, s'⟩ : Event Store Call Reply)]).filterMap (·.call.issued) ∧
        s'.importPreviews[previewId]? = none := by
  intro e he previewId hconfirms
  rw [List.filterMap_append]
  rcases List.mem_append.mp he with hpast | hlast
  · obtain ⟨hissued, hgone⟩ := h.spent e hpast previewId hconfirms
    exact ⟨List.mem_append_left _ hissued, h.step_gone hids hmove hissued hgone⟩
  · obtain rfl := List.mem_singleton.mp hlast
    obtain ⟨⟨preview, hpreview⟩, hgone⟩ := confirms_created hmove hconfirms
    obtain ⟨e, he, scan, now, hreturned, -⟩ := h.previews previewId preview hpreview
    exact ⟨List.mem_append_left _ (hreturned.issued he), hgone⟩

theorem Inv.step_once (h : Inv K calls past (call :: coming) s) (hmove : Moves K s call reply s') (previewId : Text) :
    (past ++ [(⟨s, call, reply, s'⟩ : Event Store Call Reply)]).countP (confirms previewId) ≤ 1 := by
  rw [List.countP_append, List.countP_singleton]
  split
  · rename_i hconfirms
    obtain ⟨⟨preview, hpreview⟩, -⟩ := confirms_created hmove hconfirms
    have hnone : past.countP (confirms previewId) = 0 := by
      refine List.countP_eq_zero.mpr fun e he hbefore => ?_
      rw [(h.spent e he previewId hbefore).2] at hpreview
      cases hpreview
    omega
  · exact h.once previewId

theorem Inv.step (h : Inv K calls past (call :: coming) s) (hids : (calls.filterMap Call.issued).Nodup)
    (hmove : Moves K s call reply s') : Inv K calls (past ++ [⟨s, call, reply, s'⟩]) coming s' where
  split := by simpa using h.split
  previews := h.step_previews hmove
  confirmations := h.step_confirmations hmove
  numbers := h.step_numbers hmove
  spent := h.step_spent hids hmove
  once := h.step_once hmove

/-! ## The review -/

/-- The manifests of different reviewed projections have different digests, for the scans of a run. -/
def NoCollision (K : Crates) (calls : List Call) : Prop :=
  ∀ a ∈ calls.filterMap (Call.scan K), ∀ b ∈ calls.filterMap (Call.scan K),
    K.sha256Digest a.reviewed = K.sha256Digest b.reviewed → a.reviewed = b.reviewed

theorem reports_of_mem {scan : ImportScan} (h : scan ∈ calls.filterMap (Call.scan K)) : Reports K scan := by
  obtain ⟨call, -, hscan⟩ := List.mem_filterMap.mp h
  have hof : ∀ source, (scanImport K source).toOption = some scan → Reports K scan := by
    intro source hsome
    cases hresult : scanImport K source with
    | error error => simp [hresult, Except.toOption] at hsome
    | ok result =>
      rw [hresult] at hsome
      exact scanImport_reports (hresult.trans (by rw [Option.some.inj hsome]))
  unfold Call.scan at hscan
  split at hscan
  · exact hof _ hscan
  · exact hof _ hscan
  · cases hscan

/-- Two scans with one manifest digest list the same files. -/
theorem included_of_digest {a b : ImportScan} (hsha : NoCollision K calls) (ha : a ∈ calls.filterMap (Call.scan K))
    (hb : b ∈ calls.filterMap (Call.scan K)) (h : a.manifestSha256 = b.manifestSha256) : a.included = b.included := by
  rw [(reports_of_mem ha).manifest, (reports_of_mem hb).manifest, Crates.sha256_eq_iff] at h
  exact ImportScan.reviewed_included (hsha a ha b hb h)

theorem Returned.scan_mem {e : Event Store Call Reply} {sessionId id : Text} {scan : ImportScan} {now : ℕ}
    (h : Returned K e sessionId id scan now) (he : e.call ∈ calls) : scan ∈ calls.filterMap (Call.scan K) := by
  obtain ⟨source, swept, hcall, hscan⟩ := h.call
  refine List.mem_filterMap.mpr ⟨e.call, he, ?_⟩
  rw [hcall]
  simp only [Call.scan, hscan]
  rfl

/-- Every project that a confirmation created is what its session reviewed: the files of a preview returned to the
session before, unexpired, named by its digest in the request, and no other project came of that preview. -/
theorem import_bound_to_review (manifestDigest : List (Text × Bytes) → Option Text) (hpreviews : s.importPreviews = ∅)
    (hconfirmations : s.confirmations = ∅) (hids : (calls.filterMap Call.issued).Nodup)
    (hsha : NoCollision K calls) :
    (∀ before e after, events (perform K manifestDigest) s calls = before ++ e :: after →
      ∀ project, e.reply = .created project →
        ∃ request now sessionId previewId dto swept source reviewed, e.call = .finish request now (.ok ()) ∧
          e.after.projects[project.id]? = some project ∧ confirms previewId e = true ∧
          (∃ opening ∈ before, opening.call = .createPreview sessionId previewId (some source) swept reviewed ∧
            opening.reply = .preview dto ∧ dto.id = previewId) ∧
          now ≤ expiry reviewed ∧
          (∃ starting ∈ before, starting.reply = .started request) ∧
          (∀ starting ∈ before, starting.reply = .started request →
            ∃ at', starting.call = .startConfirmation sessionId previewId dto.manifestSha256 at') ∧
          listed K project.acceptedFiles = dto.included ∧
          "index.html".toList ∈ project.acceptedFiles.map (·.1)) ∧
    ∀ previewId, (events (perform K manifestDigest) s calls).countP (confirms previewId) ≤ 1 := by
  have hstep : ∀ past call coming s, Inv K calls past (call :: coming) s →
      Inv K calls (past ++ [⟨s, call, (perform K manifestDigest s call).1, (perform K manifestDigest s call).2⟩]) coming
        (perform K manifestDigest s call).2 := fun past call coming s h => h.step hids (perform_moves call)
  have hinitial : Inv K calls [] calls s := Inv.initial hpreviews hconfirmations
  constructor
  · intro before e after hevents project hcreated
    obtain ⟨coming, t, hinv, hafter⟩ := events_cut_inv hstep hinitial hevents
    cases coming with
    | nil => cases hafter
    | cons call coming =>
      obtain ⟨rfl, -⟩ := List.cons.inj hafter
      rw [List.nil_append] at hinv
      have hmove : Moves K t call (.created project) (perform K manifestDigest t call).2 := by
        rw [← hcreated]
        exact perform_moves call
      cases hmove with
      | quiet hreply => exact absurd hreply id
      | created hheld hstage hpasses _ hprojects =>
        obtain ⟨hstarted, hnamed, hholds⟩ := hinv.confirmations _ _ hheld
        obtain ⟨opening, hopening, reviewedScan, reviewed, hreturned, hmanifest, hexpiry⟩ :=
          hinv.previews _ _ hpasses.recorded
        rw [hpasses.session] at hreturned
        rw [hstage] at hholds
        obtain ⟨scan, hscan, hfiles, hdigest, hentry⟩ := hholds
        have hsame := hpasses.digest _ rfl
        have hreviewed : reviewedScan ∈ calls.filterMap (Call.scan K) := by
          refine hreturned.scan_mem ?_
          rw [hinv.split]
          exact List.mem_append_left _ (List.mem_map_of_mem hopening)
        have hincluded : scan.included = reviewedScan.included :=
          included_of_digest hsha hscan hreviewed (by rw [hdigest, hsame, hmanifest])
        obtain ⟨source, swept, hcall, -⟩ := hreturned.call
        refine ⟨_, _, _, _, previewDto _ reviewedScan, swept, source, reviewed, rfl, hprojects, ?_,
          ⟨opening, hopening, hcall, hreturned.reply, rfl⟩, ?_, hstarted, ?_, ?_, ?_⟩
        · have hreply : (perform K manifestDigest t _).1 = .created project := hcreated
          simp [confirms, hreply, hheld]
        · rw [← hexpiry]
          exact hpasses.unexpired
        · intro starting hmem hreply
          obtain ⟨now, hcall⟩ := hnamed starting hmem hreply
          rw [hsame, hmanifest] at hcall
          exact ⟨now, hcall⟩
        · rw [hfiles, ← (reports_of_mem hscan).included, hincluded]
          rfl
        · rw [hfiles]
          rw [(reports_of_mem hscan).entryPoint] at hentry
          exact importEntryPoint_index hentry
  · intro previewId
    obtain ⟨coming, t, hinv, -⟩ := events_cut_inv hstep hinitial (List.append_nil _).symm
    exact hinv.once previewId

end

/-! ## A run -/

def samplePage : Bytes := encode "<!doctype html><title>A</title>".toList

def sampleMetadata (kind : FileKind) (identity len : ℕ) : Metadata := ⟨kind, (1, identity), 1, len⟩

/-- A source directory that holds one page. -/
def sampleSource : ImportSource where
  metadata := some (sampleMetadata .directory 1 0)
  fileName := some "site".toList
  directory := ⟨some (sampleMetadata .directory 1 0), true, some (sampleMetadata .directory 1 0)⟩
  entries := [.read (some "index.html".toList) (sampleMetadata .file 2 samplePage.length)
    ⟨some (sampleMetadata .file 2 samplePage.length), some samplePage, some (sampleMetadata .file 2 samplePage.length)⟩
    ⟨none, false, none⟩ []]

def sampleScan : Option ImportScan := (scanImport sampleCrates sampleSource).toOption

def sampleExpected : Text := sampleScan.elim [] (·.manifestSha256)

def sampleCalls : List Call := [
  .createPreview "ses_1".toList "imp_1".toList (some sampleSource) (fun _ => 5) 5,
  .startConfirmation "ses_1".toList "imp_1".toList sampleExpected 10,
  .startConfirmation "ses_1".toList "imp_1".toList sampleExpected 10,
  .scanSource 0 (some sampleSource),
  .scanSource 1 (some sampleSource),
  .recheck 1 20 "prj_1".toList "rev_1".toList,
  .recheck 0 20 "prj_2".toList "rev_2".toList,
  .finish 0 30 (.ok ()),
  .finish 1 30 (.ok ())]

def sampleEvents : List (Event Store Call Reply) :=
  events (perform sampleCrates fun files => some (sampleCrates.sha256 (files.flatMap (·.2)))) ⟨∅, ∅, ∅, 0⟩ sampleCalls

theorem sampleCalls_scan {scan : ImportScan} (h : scan ∈ sampleCalls.filterMap (Call.scan sampleCrates)) :
    sampleScan = some scan := by
  obtain ⟨call, hcall, hscan⟩ := List.mem_filterMap.mp h
  simp only [sampleCalls, List.mem_cons, List.not_mem_nil, or_false] at hcall
  rcases hcall with rfl | rfl | rfl | rfl | rfl | rfl | rfl | rfl | rfl <;> first | exact hscan | cases hscan

/-- Two confirmations of one preview, with their steps interleaved, create one project. -/
theorem import_bound_to_review_twice :
    (∀ e ∈ sampleEvents, ∀ project, e.reply = .created project →
      "index.html".toList ∈ project.acceptedFiles.map (·.1)) ∧
    sampleEvents.countP (confirms "imp_1".toList) = 1 := by
  have hsha : NoCollision sampleCrates sampleCalls := by
    intro a ha b hb _
    rw [Option.some.inj ((sampleCalls_scan ha).symm.trans (sampleCalls_scan hb))]
  have hids : (sampleCalls.filterMap Call.issued).Nodup := by decide
  have hbound := import_bound_to_review (s := ⟨∅, ∅, ∅, 0⟩)
    (fun files => some (sampleCrates.sha256 (files.flatMap (·.2)))) rfl rfl hids hsha
  constructor
  · intro e he project hcreated
    obtain ⟨before, after, hsplit⟩ := List.append_of_mem he
    obtain ⟨_, _, _, _, _, _, _, _, -, -, -, -, -, -, -, -, hindex⟩ := hbound.1 before e after hsplit project hcreated
    exact hindex
  · have hcreated : 1 ≤ sampleEvents.countP (confirms "imp_1".toList) := by decide +kernel
    exact Nat.le_antisymm (hbound.2 "imp_1".toList) hcreated

end LpStudio.Server.Imports
