import LpStudio.Synapse.Reconciliation

/-! # Decisions keep the invariant
`decide` and `resume`: an intent is registered on the base of its review, a publication moves the decision ref to the
candidate of the registered intent, and an outcome that is answered is the recorded one.
-/
namespace LpStudio.Synapse
open Str Fault Fault.Program Ancestry Outcome

variable {K : Crates} {G : SynapseGit} {D : Text} {config : SidecarConfig} {id : Text} {s s' : State} {review : Review}
  {intent : DecisionIntent} {who : Option Text} {P : Text → Prop}

/-! ## Objects that are written -/

section
variable {L : Type} {label : L} {faults : L → Fault.Outcome}

/-- An object can be read back under its address, and refs and journal stay. -/
theorem putJson_loads {R : State → State → Prop} [IsPreorder State R] (hG : G.Lawful K)
    (hR : ∀ r, s.repository.Grows r → R s { s with repository := r }) {value : Json} {kind : ObjectKind}
    (hkind : objectKind value = some kind) (hvalue : kind ≠ .blob) : Climbs R (putJson G label value) faults s
      (fun oid s' => SameRefs s s' ∧ loadValue G s'.repository oid kind = .ok value) fun _ s' => SameRefs s s' := by
  obtain ⟨hgrows, hread⟩ := hG.putObject (Prod.eta (G.putObject value s.repository)).symm
  refine callRepository_climbs (hR _ hgrows) (fun oid r' heq => ?_) (fun e r' heq => ?_) ⟨rfl, rfl⟩ ⟨hgrows.refs, rfl⟩
  · obtain ⟨hanswer, rfl⟩ := Prod.mk.inj heq
    cases hput : (G.putObject value s.repository).1 with
    | error e =>
      rw [hput] at hanswer
      cases hanswer
    | ok found =>
      rw [hput] at hanswer
      cases hanswer
      obtain ⟨hobject, hparse⟩ := hread _ hput
      refine ⟨⟨hgrows.refs, rfl⟩, ?_⟩
      unfold loadValue
      rw [if_neg (by rw [hparse, hkind]; exact fun h => h.elim (· rfl) hvalue), hobject]
  · obtain ⟨-, rfl⟩ := Prod.mk.inj heq
    exact ⟨hgrows.refs, rfl⟩

theorem putJson_climbs (hG : G.Lawful K) {value : Json} {kind : ObjectKind} (hkind : objectKind value = some kind)
    (hvalue : kind ≠ .blob) : Climbs (Keeps K G D P who) (putJson G label value) faults s
      (fun oid s' => SameRefs s s' ∧ loadValue G s'.repository oid kind = .ok value) fun _ s' => SameRefs s s' :=
  putJson_loads hG (fun _ hgrows => keeps_of_grows hgrows rfl) hkind hvalue

end

theorem valueAt_nil {key : String} : valueAt (object []) key = none := rfl

theorem valueAt_cons {name key : String} {value : Json} {fields : List (String × Json)} :
    valueAt (object ((name, value) :: fields)) key = if name = key then some value else valueAt (object fields) key := by
  unfold valueAt object
  dsimp only
  rw [List.map_cons, List.find?_cons]
  by_cases heq : name = key
  · rw [heq, if_pos rfl, decide_eq_true rfl]
    rfl
  · rw [if_neg heq, decide_eq_false fun h => heq (String.toList_inj.mp h)]

theorem stringAt_str {value : Json} {key : String} {text : String} (h : valueAt value key = some (str text)) :
    stringAt value key = some text.toList := by
  unfold stringAt
  rw [h]
  rfl

theorem feedbackRecord_kind {entity human subject recordedAt : Text} {proposalHead : Oid}
    {disposition : ArtifactDisposition} :
    objectKind (feedbackRecord G entity human subject proposalHead disposition recordedAt) = some .record := by
  simp [objectKind, stringAt, feedbackRecord, envelope, valueAt_cons, str, asStr]

theorem commit_kind {kind message : String} {parents transitions : List Oid} {snapshot : Oid} {author authoredAt : Text} :
    objectKind (commit G kind parents snapshot transitions author authoredAt message) = some .commit := by
  simp [objectKind, stringAt, commit, valueAt_cons, str, asStr]

theorem feedbackRecord_entity {entity human subject recordedAt : Text} {proposalHead : Oid}
    {disposition : ArtifactDisposition} :
    requiredString (feedbackRecord G entity human subject proposalHead disposition recordedAt) "entity_id" = .ok entity := by
  simp [requiredString, stringAt, feedbackRecord, envelope, valueAt_cons, str, asStr, required]

theorem commit_transition {kind message : String} {parents : List Oid} {snapshot transition : Oid}
    {author authoredAt : Text} : requiredArray
      (commit G kind parents snapshot [transition] author authoredAt message) "transition_refs" =
        .ok [.str transition] := by
  simp [requiredArray, commit, valueAt_cons, asArray, required, canonicalSet]

theorem commit_parents {r : Repository} {oid parent : Oid} {kind message : String} {transitions : List Oid}
    {snapshot : Oid} {author authoredAt : Text} (h : loadValue G r oid .commit =
      .ok (commit G kind [parent] snapshot transitions author authoredAt message)) : parents G r oid = some [parent] := by
  refine parents_eq_some.mpr ?_
  unfold commitParents
  rw [h]
  change (do
    let found ← requiredArray (commit G kind [parent] snapshot transitions author authoredAt message) "parents"
    found.mapM fun parent => required (asStr parent)) = _
  have hparents : requiredArray (commit G kind [parent] snapshot transitions author authoredAt message) "parents" =
      .ok [.str parent] := by
    simp [requiredArray, commit, valueAt_cons, asArray, required]
  rw [hparents]
  rfl

theorem feedbackRecord_disposition {r : Repository} {oid : Oid} {entity human subject recordedAt : Text}
    {proposalHead : Oid} {disposition : ArtifactDisposition} (h : loadValue G r oid .record =
      .ok (feedbackRecord G entity human subject proposalHead disposition recordedAt)) :
    dispositionFromFeedback G r oid proposalHead = .ok disposition := by
  unfold dispositionFromFeedback
  rw [h]
  have htype : requiredString (feedbackRecord G entity human subject proposalHead disposition recordedAt) "record_type" =
      .ok "decision_feedback".toList := by
    simp [requiredString, stringAt, feedbackRecord, envelope, valueAt_cons, str, asStr, required]
  have hvalue : valueAt (feedbackRecord G entity human subject proposalHead disposition recordedAt) "payload" =
      some (object [("proposal_ref", .str proposalHead), ("disposition", str (dispositionProtocol disposition)),
        ("reason_codes", .arr [str "unspecified"]), ("human_rationale", str (privacySafeRationale disposition)),
        ("applies_to_subjects", .arr (canonicalSet G [.str subject])), ("visibility", str "private"),
        ("training_use_policy", str "prohibited")]) := by
    simp [feedbackRecord, envelope, valueAt_cons]
  obtain ⟨payload, hpayload, hfields⟩ : ∃ payload, requiredObject
      (feedbackRecord G entity human subject proposalHead disposition recordedAt) "payload" = .ok payload ∧
        some (Json.obj payload) = valueAt (feedbackRecord G entity human subject proposalHead disposition recordedAt) "payload" := by
    unfold requiredObject
    rw [hvalue]
    exact ⟨_, rfl, rfl⟩
  rw [hvalue] at hfields
  have hfields := Option.some.inj hfields
  have hfound : [ArtifactDisposition.adoptedUnchanged, .rejected, .deferred].find? (fun other =>
      Decidable.decide ((dispositionProtocol other).toList = (dispositionProtocol disposition).toList)) = some disposition := by
    cases disposition <;> decide
  refine bind_ok.mpr ⟨_, rfl, bind_ok.mpr ⟨_, htype, ?_⟩⟩
  simp [hpayload, hfields, stringAt, valueAt_cons, str, asStr, asArray, required, hfound, bind, Except.bind, pure, Except.pure]

/-! ## Registering an intent -/

section
variable {L : Type} {faults : L → Fault.Outcome}

/-- A live binding has its base as the decision. -/
theorem validateLiveBinding_climbs {proposalRef decisionRef proposalHead proposal : L} {binding : ReviewBinding} :
    Climbs (Keeps K G D P who) (validateLiveBinding K G config proposalRef decisionRef proposalHead proposal binding) faults s
      (fun _ s' => s' = s ∧ s.repository.refs[binding.decisionRefName]? = some binding.expectedDecisionHead)
      fun _ s' => s' = s := by
  refine Climbs.bind (V := fun _ s' => s' = s) (Climbs.ofExcept (fun _ _ => rfl) fun _ _ => rfl) ?_
  rintro - s' - rfl
  refine Climbs.bind (V := fun _ s => s = s') (readRepository_any (fun _ _ => rfl) fun _ => rfl) ?_
  rintro proposalOid s - rfl
  refine Climbs.bind (V := fun decisionOid s' => s' = s ∧ s.repository.refs[binding.decisionRefName]? = decisionOid)
    (readRepository_any (fun _ h => ⟨rfl, Except.ok.inj h⟩) fun _ => rfl) ?_
  rintro decisionOid s' - ⟨rfl, hdecision⟩
  split
  · exact Climbs.throw rfl
  · split
    · exact Climbs.throw rfl
    · next hbase =>
      rw [not_not] at hbase
      refine Climbs.bind (V := fun _ s => s = s') (readRepository_any (fun _ _ => rfl) fun _ => rfl) ?_
      rintro - s - rfl
      exact readRepository_any (fun _ _ => ⟨rfl, hdecision.trans hbase⟩) fun _ => rfl

theorem registerDecisionIntent_climbs {before register after : L} {request : DecisionIntentRequest} (hG : G.Lawful K)
    (hreview : s.journal.reviews[id]? = some review)
    (hcandidate : s.journal.intents[id]? = none → s.repository.refs[D]? = some review.binding.expectedDecisionHead ∧
      Candidate K G s.repository id review.binding
        ⟨request.candidateHead, request.feedbackOid, request.expectedDecisionHead⟩) :
    Climbs (Keeps K G D P (some id)) (registerDecisionIntent G before register after id request) faults s
      (fun intent s' => s'.journal.intents[id]? = some intent) fun _ _ => True := by
  have hlaw := hG.registerDecisionIntent (Prod.eta (G.registerDecisionIntent id request s.journal)).symm
  refine Climbs.bind (V := fun _ s' => s' = s) (Climbs.failpoint (fun _ => rfl) fun _ => True.intro) ?_
  rintro - s' - rfl
  refine Climbs.bind (V := fun answer s => ∀ intent, answer = .ok intent → s.journal.intents[id]? = some intent)
    (callJournal_climbs ?_ ?_ True.intro True.intro) ?_
  · rcases hlaw with ⟨heq, -⟩ | ⟨intent, -, -, hfresh, rfl, heq⟩
    · rw [heq]
      exact Std.Refl.refl (r := Keeps K G D P (some id)) s'
    · have hnone : s'.journal.intents[id]? = none := Std.ExtTreeMap.getElem?_eq_none hfresh
      obtain ⟨hbase, hcandidate⟩ := hcandidate hnone
      rw [heq]
      exact keeps_register hreview hnone hcandidate hbase
  · intro intent hanswer
    rcases hlaw with ⟨heq, hold⟩ | ⟨found, hfound, -, -, -, heq⟩
    · rw [heq]
      exact hold intent hanswer
    · rw [hfound] at hanswer
      cases hanswer
      rw [heq]
      exact Std.ExtTreeMap.getElem?_insert_self
  · rintro answer s - hanswer
    refine Climbs.bind (V := fun intent s => s.journal.intents[id]? = some intent) (Climbs.ofExcept ?_
      fun _ _ => True.intro) ?_
    · intro intent hok
      cases answer with
      | error e => cases hok
      | ok found =>
        cases hok
        exact hanswer intent rfl
    · rintro intent s - hintent
      refine Climbs.bind (V := fun _ s => s.journal.intents[id]? = some intent) (Climbs.failpoint (fun _ => hintent)
        fun _ => True.intro) ?_
      rintro - s - hintent
      exact Climbs.pure hintent

end

theorem SameRefs.refl (s : State) : SameRefs s s := ⟨rfl, rfl⟩

theorem SameRefs.trans {s'' : State} (h : SameRefs s s') (h' : SameRefs s' s'') : SameRefs s s'' :=
  ⟨h'.1.trans h.1, h'.2.trans h.2⟩

section
variable {faults : IntentStep → Fault.Outcome}

theorem createDecisionIntent_climbs {disposition : ArtifactDisposition} {idempotencyKey : Bytes} (hG : G.Lawful K)
    (hs : Invariant K G D s) (hreview : s.journal.reviews[id]? = some review) :
    Climbs (Keeps K G D P (some id)) (createDecisionIntent K G config id review.binding disposition idempotencyKey) faults s
      (fun intent s' => s'.journal.intents[id]? = some intent) fun _ _ => True := by
  obtain ⟨hD, -, -⟩ := hs.bindings id review hreview
  refine Climbs.bind (V := fun _ s' => s' = s) (Climbs.failpoint (fun _ => rfl) fun _ => True.intro) ?_
  rintro - s₁ - rfl
  refine Climbs.bind (validateLiveBinding_climbs.mono (fun _ _ _ h => h) fun _ _ _ _ => True.intro) ?_
  rintro - s₂ - ⟨rfl, hbase⟩
  refine Climbs.bind (V := fun _ s' => s' = s₂) (readRepository_any (fun _ _ => rfl) fun _ => True.intro) ?_
  rintro - s₃ - rfl
  refine Climbs.bind (V := fun _ s' => s' = s₃) (readRepository_any (fun _ _ => rfl) fun _ => True.intro) ?_
  rintro controls s₄ - rfl
  refine Climbs.bind (V := fun _ s' => s' = s₄) (readRepository_any (fun _ _ => rfl) fun _ => True.intro) ?_
  rintro snapshot s₅ - rfl
  refine Climbs.bind (V := fun _ s' => s' = s₅) (Climbs.failpoint (fun _ => rfl) fun _ => True.intro) ?_
  rintro - s₆ - rfl
  refine Climbs.bind ((putJson_climbs hG feedbackRecord_kind nofun).mono (fun _ _ _ h => h) fun _ _ _ _ => True.intro) ?_
  rintro feedbackOid s₇ hkeeps₇ ⟨hsame₇, hfeedback⟩
  refine Climbs.bind (V := fun _ s' => s' = s₇) (Climbs.failpoint (fun _ => rfl) fun _ => True.intro) ?_
  rintro - s₈ - rfl
  refine Climbs.bind (V := fun _ s' => s' = s₈) (Climbs.failpoint (fun _ => rfl) fun _ => True.intro) ?_
  rintro - s₉ - rfl
  obtain ⟨hs₉, -⟩ := hkeeps₇ hs
  refine Climbs.bind ((putJson_climbs hG commit_kind nofun).mono (fun _ _ _ h => h) fun _ _ _ _ => True.intro) ?_
  rintro candidateHead s₁₀ hkeeps₁₀ ⟨hsame₁₀, hcandidate⟩
  refine Climbs.bind (V := fun _ s' => s' = s₁₀) (Climbs.failpoint (fun _ => rfl) fun _ => True.intro) ?_
  rintro - s₁₁ - rfl
  refine Climbs.bind (V := fun _ s' => s' = s₁₁) (Climbs.ofExcept (fun _ _ => rfl) fun _ _ => True.intro) ?_
  rintro request s₁₂ - rfl
  obtain ⟨hrefs, hjournal⟩ := hsame₇.trans hsame₁₀
  have hfeedback := loadValue_mono (hkeeps₁₀ hs₉).2.stays hfeedback
  refine registerDecisionIntent_climbs hG (hjournal ▸ hreview) fun _ => ⟨?_, ?_⟩
  · rw [hrefs, ← hD]
    exact hbase
  · exact {
      expected := rfl
      parents := commit_parents hcandidate
      feedback := ⟨_, hcandidate, commit_transition⟩
      entity := ⟨_, hfeedback, feedbackRecord_entity⟩
      disposition := ⟨disposition, feedbackRecord_disposition hfeedback⟩ }

end

section
variable {faults : DecideStep → Fault.Outcome}

theorem decisionIntent_climbs {disposition : ArtifactDisposition} {idempotencyKey : Bytes} (hG : G.Lawful K)
    (hs : Invariant K G D s) (hreview : s.journal.reviews[id]? = some review) :
    Climbs (Keeps K G D P (some id)) (decisionIntent K G config id review.binding disposition idempotencyKey) faults s
      (fun intent s' => s'.journal.intents[id]? = some intent) fun _ _ => True := by
  refine Climbs.bind (V := fun found s' => s' = s ∧ found = s.journal.intents[id]?)
    (Climbs.look (fun _ h _ => ⟨rfl, (Except.ok.inj h).symm⟩) (fun _ h => by cases h) fun _ => True.intro) ?_
  rintro found s' - ⟨rfl, rfl⟩
  split
  · next existing hexisting =>
    refine Climbs.bind (V := fun _ s => s = s') (Climbs.failpoint (fun _ => rfl) fun _ => True.intro) ?_
    rintro - s - rfl
    refine Climbs.bind (V := fun _ s' => s' = s) (readRepository_any (fun _ _ => rfl) fun _ => True.intro) ?_
    rintro disposition' s' - rfl
    split
    · exact Climbs.throw True.intro
    · refine Climbs.bind (V := fun _ s => s = s') (Climbs.ofExcept (fun _ _ => rfl) fun _ _ => True.intro) ?_
      rintro request s - rfl
      refine registerDecisionIntent_climbs hG hreview fun hnone => ?_
      rw [hexisting] at hnone
      cases hnone
  · exact Climbs.relabel (createDecisionIntent_climbs hG hs hreview)

end

/-! ## Publication -/

theorem requiredObject_ok {value : Json} {key : String} {fields : List (Text × Json)}
    (h : requiredObject value key = .ok fields) : valueAt value key = some (.obj fields) := by
  unfold requiredObject at h
  rw [required_ok] at h
  obtain ⟨found, hfound, hfields⟩ := Option.bind_eq_some_iff.mp h
  cases found with
  | obj found =>
    cases hfields
    exact hfound
  | _ => cases hfields

theorem feedbackDisposition_eq {r : Repository} {oid proposalHead : Oid} {disposition stated : ArtifactDisposition}
    (h : feedbackDisposition r oid = some disposition) (hread : dispositionFromFeedback G r oid proposalHead = .ok stated) :
    disposition = stated := by
  unfold dispositionFromFeedback at hread
  rw [bind_ok] at hread
  obtain ⟨feedback, hfeedback, hread⟩ := hread
  obtain ⟨-, -, hobject⟩ := loadValue_ok.mp hfeedback
  rw [bind_ok] at hread
  obtain ⟨name, -, hread⟩ := hread
  split at hread
  · cases hread
  rw [bind_ok] at hread
  obtain ⟨fields, hpayload, hread⟩ := hread
  have hpayload := requiredObject_ok hpayload
  dsimp only at hread
  split at hread
  · cases hread
  rw [bind_ok] at hread
  obtain ⟨stated', hstated, hread⟩ := hread
  rw [bind_ok] at hread
  obtain ⟨found, hfound, hread⟩ := hread
  rw [bind_ok] at hread
  obtain ⟨rationale, -, hread⟩ := hread
  split at hread
  · cases hread
  obtain rfl := pure_ok.mp hread
  unfold feedbackDisposition at h
  rw [hobject] at h
  dsimp only at h
  rw [hpayload, Option.bind_some, required_ok.mp hstated] at h
  simp only [Option.some.injEq] at h
  have hfound := required_ok.mp hfound
  simp only [eq_comm (b := stated')] at hfound
  exact Option.some.inj (h.symm.trans hfound)

section
variable {faults : CallStep → Fault.Outcome}

/-- The receipt of a publication. -/
def publicationReceipt (binding : ReviewBinding) (intent : DecisionIntent) (disposition : ArtifactDisposition) :
    HumanDecisionReceipt :=
  ⟨binding.decisionRefName, some binding.expectedDecisionHead, intent.candidateHead, binding.proposalHead,
    intent.feedbackOid, disposition⟩

/-- A publication that is refused with an error of its own has moved no ref. -/
def Refused (s : State) (e : SidecarError) (s' : State) : Prop :=
  s'.journal = s.journal ∧ (e ≠ .storage → s'.repository.refs = s.repository.refs)

theorem publish_climbs {controls : Controls} {disposition : ArtifactDisposition} (hG : G.Lawful K) (hs : Invariant K G D s)
    (hreview : s.journal.reviews[id]? = some review) (hintent : s.journal.intents[id]? = some intent)
    (hfinal : ¬Final review.state)
    (hstated : dispositionFromFeedback G s.repository intent.feedbackOid review.binding.proposalHead = .ok disposition) :
    Climbs (Keeps K G D P (some id)) (callRepository .storage .publish fun r =>
        ((G.publishHumanDecision (authority controls review.binding intent) r).1.mapError mapApplicationError,
          (G.publishHumanDecision (authority controls review.binding intent) r).2)) faults s
      (fun receipt s' => s'.journal = s.journal ∧ receipt = publicationReceipt review.binding intent disposition)
      fun e s' => Refused s e s' := by
  obtain ⟨hD, -, -⟩ := hs.bindings id review hreview
  have hlaw := hG.publishHumanDecision (Prod.eta (G.publishHumanDecision (authority controls review.binding intent)
    s.repository)).symm
  refine callRepository_climbs ?_ (fun receipt r' heq => ?_) (fun e r' heq => ?_) ⟨rfl, fun h => absurd rfl h⟩
    ⟨rfl, fun h => absurd rfl h⟩
  · rcases hlaw with ⟨-, hswap⟩ | ⟨-, hgrows⟩
    · exact keeps_decide (hD ▸ hswap) rfl hreview hintent hfinal
    · exact keeps_of_grows hgrows rfl
  · obtain ⟨hanswer, rfl⟩ := Prod.mk.inj heq
    refine ⟨rfl, ?_⟩
    rcases hlaw with ⟨⟨found, hreceipt, hfound⟩, -⟩ | ⟨⟨e, herror⟩, -⟩
    · rw [hreceipt] at hanswer
      rw [← feedbackDisposition_eq hfound hstated]
      exact (Except.ok.inj hanswer).symm
    · rw [herror] at hanswer
      cases hanswer
  · obtain ⟨hanswer, rfl⟩ := Prod.mk.inj heq
    refine ⟨rfl, fun _ => ?_⟩
    rcases hlaw with ⟨⟨found, hreceipt, -⟩, -⟩ | ⟨-, hgrows⟩
    · rw [hreceipt] at hanswer
      cases hanswer
    · exact hgrows.refs

theorem publishRecoveredDecision_climbs {disposition : ArtifactDisposition} (hG : G.Lawful K) (hs : Invariant K G D s)
    (hreview : s.journal.reviews[id]? = some review) (hintent : s.journal.intents[id]? = some intent)
    (hfinal : ¬Final review.state) : Climbs (Keeps K G D P (some id))
      (publishRecoveredDecision K G config review.binding intent disposition) faults s
      (fun _ s' => s'.journal = s.journal) fun e s' => Refused s e s' := by
  have hrefused : ∀ e, Refused s e s := fun _ => ⟨rfl, fun _ => rfl⟩
  unfold publishRecoveredDecision
  split
  · exact Climbs.throw (hrefused _)
  refine Climbs.bind (V := fun _ s' => s' = s) (Climbs.failpoint (fun _ => rfl) fun _ => hrefused _) ?_
  rintro - s₁ - rfl
  refine Climbs.bind (validateLiveBinding_climbs.mono (fun _ _ _ h => h) fun e _ _ h => h ▸ hrefused e) ?_
  rintro - s₂ - ⟨rfl, -⟩
  refine Climbs.bind (V := fun _ s' => s' = s₂) (readRepository_any (fun _ _ => rfl) hrefused) ?_
  rintro - s₃ - rfl
  refine Climbs.bind (V := fun _ s' => s' = s₃) (readRepository_any (fun _ _ => rfl) hrefused) ?_
  rintro controls s₄ - rfl
  refine Climbs.bind (V := fun found s' => s' = s₄ ∧
      dispositionFromFeedback G s₄.repository intent.feedbackOid review.binding.proposalHead = .ok found)
    (readRepository_any (fun _ h => ⟨rfl, h⟩) hrefused) ?_
  rintro found s₅ - ⟨rfl, hfound⟩
  split
  · exact Climbs.throw (hrefused _)
  · next hsame =>
    rw [not_not] at hsame
    rw [hsame] at hfound
    refine Climbs.bind (V := fun _ s' => s' = s₅) (readRepository_any (fun _ _ => rfl) hrefused) ?_
    rintro - s₆ - rfl
    refine Climbs.bind (V := fun _ s' => s' = s₆) (readRepository_any (fun _ _ => rfl) hrefused) ?_
    rintro - s₇ - rfl
    refine Climbs.bind (V := fun _ s' => s' = s₇) (Climbs.failpoint (fun _ => rfl) fun _ => hrefused _) ?_
    rintro - s₈ - rfl
    refine Climbs.bind (publish_climbs hG hs hreview hintent hfinal hfound) ?_
    rintro receipt s₉ - ⟨hjournal, rfl⟩
    refine Climbs.bind (V := fun _ s' => s' = s₉) (Climbs.failpoint (fun _ => rfl)
      fun _ => ⟨hjournal, fun h => absurd rfl h⟩) ?_
    rintro - s₁₀ - rfl
    rw [if_neg (by simp [publicationReceipt])]
    exact Climbs.pure hjournal

theorem callSynapse_climbs {disposition : ArtifactDisposition} (hG : G.Lawful K) (hs : Invariant K G D s)
    (hreview : s.journal.reviews[id]? = some review) (hintent : s.journal.intents[id]? = some intent)
    (hfinal : ¬Final review.state) : Climbs (Keeps K G D P (some id))
      (callSynapse K G config review.binding intent disposition) faults s
      (fun _ s' => s'.journal = s.journal) fun e s' => Refused s e s' := by
  refine Climbs.bind (V := fun _ s' => s' = s) (Climbs.failpoint (fun _ => rfl) fun _ => ⟨rfl, fun _ => rfl⟩) ?_
  rintro - s₁ - rfl
  refine Climbs.bind (publishRecoveredDecision_climbs hG hs hreview hintent hfinal) ?_
  rintro - s₂ - hjournal
  exact Climbs.failpoint (fun _ => hjournal) fun _ => ⟨hjournal, fun h => absurd rfl h⟩

end

/-! ## Outcomes -/

theorem getReview_ok {journal : Journal} (h : getReview journal id = .ok review) : journal.reviews[id]? = some review := by
  unfold getReview at h
  split at h
  · next heq =>
    cases h
    exact heq
  · cases h

theorem recordedAs_of_review (h : s.journal.reviews[id]? = some review) : RecordedAs id s review.state := by
  unfold RecordedAs
  rw [h]
  rfl

section
variable {faults : RetryStep → Fault.Outcome}

theorem transitionRetryable_climbs (hG : G.Lawful K) (hs : Invariant K G D s) :
    Climbs (Keeps K G D P (some id)) (transitionRetryable K G config id) faults s
      (fun outcome s' => Answers G config.artifactLimits id s' outcome) fun _ _ => True := by
  refine Climbs.bind (V := fun _ s' => s' = s) (Climbs.failpoint (fun _ => rfl) fun _ => True.intro) ?_
  rintro - s₁ - rfl
  refine Climbs.bind (V := fun review s' => s' = s₁ ∧ s₁.journal.reviews[id]? = some review)
    (Climbs.look (fun _ h _ => ⟨rfl, getReview_ok h⟩) (fun _ _ => True.intro) fun _ => True.intro) ?_
  rintro review s₂ - ⟨rfl, hreview⟩
  have hallowed : Allowed G D s₂ id .retryableFailure := True.intro
  refine Climbs.bind (Climbs.relabel ((transitionState_climbs hG (recordedAs_of_review hreview) hallowed 3).mono
    (fun _ _ _ h => h) fun _ _ _ _ => True.intro)) ?_
  rintro reached s₃ hkeeps ⟨-, hreached⟩
  cases reached with
  | retryableFailure => exact Climbs.pure ⟨hreached, nofun⟩
  | outcomeUnknown => exact Climbs.pure ⟨hreached, nofun⟩
  | terminalDenial => exact Climbs.pure ⟨hreached, nofun⟩
  | decisionCommitted =>
    exact Climbs.relabel ((reconcileParsed_climbs hG (hkeeps hs).1).mono (fun _ _ _ h => h.1.toAnswers) fun _ _ _ h => h)
  | pendingReview => exact Climbs.throw True.intro

end

/-- A review that is recorded as undecided at the base of the decision can be denied. -/
theorem transitionTerminal_climbs (limits : ArtifactLimits) {state : ReviewState}
    {faults : TransitionStep → Fault.Outcome} (hG : G.Lawful K) (hs : Invariant K G D s) (hrecorded : RecordedAs id s state)
    (hbase : ∀ review : Review, s.journal.reviews[id]? = some review →
      s.repository.refs[D]? = some review.binding.expectedDecisionHead) :
    Climbs (Keeps K G D P (some id)) (transitionTerminal G id state) faults s
      (fun _ s' => Answers G limits id s' .terminalDenial) fun _ _ => True := by
  obtain ⟨review, hreview, -⟩ := hrecorded.found
  exact (transitionTo_climbs hG hrecorded (hs.allowed hreview (hbase review hreview))).mono
    (fun _ _ _ h => .denied h.2) fun _ _ _ _ => True.intro

section
variable {faults : DecideStep → Fault.Outcome}

theorem decide_climbs {disposition : ArtifactDisposition} {privateRationale : Option Text} {idempotencyKey : Bytes}
    (hG : G.Lawful K) (hs : Invariant K G D s) : Climbs (Keeps K G D P (some id))
      (decide K G config id disposition privateRationale idempotencyKey) faults s
      (fun outcome s' => Answers G config.artifactLimits id s' outcome) fun _ _ => True := by
  refine Climbs.bind (V := fun _ s' => s' = s) (Climbs.ofExcept (fun _ _ => rfl) fun _ _ => True.intro) ?_
  rintro - s₁ - rfl
  refine Climbs.bind (V := fun _ s' => s' = s₁) (Climbs.ofExcept (fun _ _ => rfl) fun _ _ => True.intro) ?_
  rintro - s₂ - rfl
  refine Climbs.bind (V := fun _ s' => s' = s₂) (Climbs.ofExcept (fun _ _ => rfl) fun _ _ => True.intro) ?_
  rintro - s₃ - rfl
  refine Climbs.bind (V := fun _ s' => s' = s₃) (Climbs.failpoint (fun _ => rfl) fun _ => True.intro) ?_
  rintro - s₄ - rfl
  refine Climbs.bind (V := fun review s' => s' = s₄ ∧ s₄.journal.reviews[id]? = some review)
    (Climbs.look (fun _ h _ => ⟨rfl, getReview_ok h⟩) (fun _ _ => True.intro) fun _ => True.intro) ?_
  rintro review s₅ - ⟨rfl, hreview⟩
  refine Climbs.bind (V := fun _ s' => s' = s₅) (Climbs.ofExcept (fun _ _ => rfl) fun _ _ => True.intro) ?_
  rintro - s₆ - rfl
  refine Climbs.bind (decisionIntent_climbs hG hs hreview) ?_
  rintro intent s₇ hkeeps₇ hintent
  obtain ⟨hs₇, hadvances₇⟩ := hkeeps₇ hs
  obtain ⟨review₇, hreview₇, hbinding₇, -⟩ := hadvances₇.reviews id review hreview
  refine Climbs.bind (Climbs.relabel (reconcileParsed_climbs hG hs₇)) ?_
  rintro observed s₈ hkeeps₈ ⟨hseen, -⟩
  obtain ⟨hs₈, hadvances₈⟩ := hkeeps₈ hs₇
  have hpublish : ¬Final (recordedState observed) → Climbs (Keeps K G D P (some id))
      ((callSynapse K G config review.binding intent disposition).relabel .call) faults s₈
      (fun _ s' => s'.journal = s₈.journal) fun e s' => Refused s₈ e s' := by
    intro hfinal
    obtain ⟨review₈, hreview₈, hstate⟩ := hseen.recorded.found
    obtain ⟨found, hfound, hbinding₈, -⟩ := hadvances₈.reviews id review₇ hreview₇
    rw [hreview₈] at hfound
    cases hfound
    rw [← hbinding₇, ← hbinding₈]
    exact Climbs.relabel (callSynapse_climbs hG hs₈ hreview₈ (hadvances₈.intents id intent hintent) (hstate ▸ hfinal))
  cases observed with
  | decisionCommitted receipt => exact Climbs.pure hseen.toAnswers
  | terminalDenial => exact Climbs.pure hseen.toAnswers
  | outcomeUnknown => exact Climbs.pure hseen.toAnswers
  | pendingReview | retryableFailure =>
    refine Climbs.bind (V := fun _ _ => True) (E := fun _ _ => True) (Climbs.attempt ((hpublish nofun).mono
      (fun _ _ _ _ => True.intro) fun _ _ _ _ => True.intro)) ?_
    rintro answer s₉ hkeeps₉ -
    obtain ⟨hs₉, -⟩ := hkeeps₉ hs₈
    cases answer with
    | ok _ => exact Climbs.relabel ((reconcileParsed_climbs hG hs₉).mono (fun _ _ _ h => h.1.toAnswers) fun _ _ _ h => h)
    | error publicationError =>
      refine Climbs.bind (Climbs.relabel (reconcileParsed_climbs hG hs₉)) ?_
      rintro outcome s₁₀ hkeeps₁₀ ⟨hseen, -⟩
      obtain ⟨hs₁₀, -⟩ := hkeeps₁₀ hs₉
      split
      · next hpending =>
        subst hpending
        split
        · exact Climbs.relabel (transitionRetryable_climbs hG hs₁₀)
        · refine Climbs.bind (Climbs.relabel (transitionTerminal_climbs config.artifactLimits hG hs₁₀ hseen.recorded
            (hseen.base nofun nofun))) ?_
          rintro - s₁₁ - hdenied
          exact Climbs.pure hdenied
      · exact Climbs.pure hseen.toAnswers

end

/-! ## Resumption -/

theorem reconcile_climbs {faults : ReconcileStep → Fault.Outcome} (hG : G.Lawful K) (hs : Invariant K G D s) :
    Climbs (Keeps K G D P (some id)) (reconcile K G config id) faults s
      (fun outcome s' => Seen G D config.artifactLimits id (Readable faults) s s' outcome) fun _ _ => True := by
  refine Climbs.bind (V := fun _ s' => s' = s) (Climbs.ofExcept (fun _ _ => rfl) fun _ _ => True.intro) ?_
  rintro - s' - rfl
  exact (reconcileParsed_climbs hG hs).mono (fun _ _ _ h => h.1) fun _ _ _ h => h

section
variable {faults : ResumeStep → Fault.Outcome}

theorem recoveredPublication_climbs (hG : G.Lawful K) (hs : Invariant K G D s)
    (hreview : s.journal.reviews[id]? = some review) (hintent : s.journal.intents[id]? = some intent)
    (hfinal : ¬Final review.state) : Climbs (Keeps K G D P (some id))
      (recoveredPublication K G config review.binding intent) faults s (fun _ s' => s'.journal = s.journal)
      fun e s' => Refused s e s' := by
  have hrefused : ∀ e, Refused s e s := fun _ => ⟨rfl, fun _ => rfl⟩
  refine Climbs.bind (V := fun _ s' => s' = s) (Climbs.failpoint (fun _ => rfl) fun _ => hrefused _) ?_
  rintro - s₁ - rfl
  refine Climbs.bind (V := fun _ s' => s' = s₁) (readRepository_any (fun _ _ => rfl) hrefused) ?_
  rintro disposition s₂ - rfl
  exact Climbs.relabel (callSynapse_climbs hG hs hreview hintent hfinal)

/-- A publication that was refused is denied at the base of the review only. -/
theorem settlePublication_climbs {publicationError : SidecarError} {outcome : ReviewOutcome} (hG : G.Lawful K)
    (hs : Invariant K G D s) (hanswers : Answers G config.artifactLimits id s outcome)
    (hbase : ¬Final (recordedState outcome) → publicationError ≠ .storage → ∀ review : Review,
      s.journal.reviews[id]? = some review → s.repository.refs[D]? = some review.binding.expectedDecisionHead) :
    Climbs (Keeps K G D P (some id)) (settlePublication K G config id publicationError outcome) faults s
      (fun outcome s' => Answers G config.artifactLimits id s' outcome) fun _ _ => True := by
  have hdeny : ∀ {state}, RecordedAs id s state → (∀ review : Review, s.journal.reviews[id]? = some review →
      s.repository.refs[D]? = some review.binding.expectedDecisionHead) → Climbs (Keeps K G D P (some id)) (do
        (transitionTerminal G id state).relabel .deny
        pure .terminalDenial : Program ResumeStep State SidecarError ReviewOutcome) faults s
      (fun outcome s' => Answers G config.artifactLimits id s' outcome) fun _ _ => True := by
    intro state hrecorded hbase
    refine Climbs.bind (Climbs.relabel (transitionTerminal_climbs config.artifactLimits hG hs hrecorded hbase)) ?_
    rintro - s' - hdenied
    exact Climbs.pure hdenied
  unfold settlePublication
  cases outcome with
  | decisionCommitted receipt => exact Climbs.pure hanswers
  | terminalDenial => exact Climbs.pure hanswers
  | pendingReview =>
    dsimp only
    split
    · exact Climbs.relabel (transitionRetryable_climbs hG hs)
    · next herror => exact hdeny hanswers.recorded (hbase nofun herror)
  | retryableFailure | outcomeUnknown =>
    dsimp only
    split
    · exact Climbs.pure hanswers
    · next herror => exact hdeny hanswers.recorded (hbase nofun herror)

theorem resume_climbs (hG : G.Lawful K) (hs : Invariant K G D s)
    (hreadable : Readable (faults ∘ .first) ∨ Readable (faults ∘ .again)) : Climbs (Keeps K G D P (some id))
      (resume K G config id) faults s (fun outcome s' => Answers G config.artifactLimits id s' outcome)
      fun _ _ => True := by
  refine Climbs.bind (Climbs.relabel (reconcile_climbs hG hs)) ?_
  rintro observed s₁ hkeeps₁ hseen
  obtain ⟨hs₁, -⟩ := hkeeps₁ hs
  refine Climbs.bind (V := fun _ s' => s' = s₁) (Climbs.ofExcept (fun _ _ => rfl) fun _ _ => True.intro) ?_
  rintro - s₂ - rfl
  cases observed with
  | decisionCommitted receipt => exact Climbs.pure hseen.toAnswers
  | terminalDenial => exact Climbs.pure hseen.toAnswers
  | pendingReview | retryableFailure | outcomeUnknown =>
    refine Climbs.bind (V := fun _ s' => s' = s₂) (Climbs.failpoint (fun _ => rfl) fun _ => True.intro) ?_
    rintro - s₃ - rfl
    refine Climbs.bind (V := fun review s' => s' = s₃ ∧ s₃.journal.reviews[id]? = some review)
      (Climbs.look (fun _ h _ => ⟨rfl, getReview_ok h⟩) (fun _ _ => True.intro) fun _ => True.intro) ?_
    rintro review s₄ - ⟨rfl, hreview⟩
    refine Climbs.bind (V := fun _ s' => s' = s₄) (Climbs.ofExcept (fun _ _ => rfl) fun _ _ => True.intro) ?_
    rintro - s₅ - rfl
    split
    · exact Climbs.relabel ((reconcileParsed_climbs hG hs₁).mono (fun _ _ _ h => h.1.toAnswers) fun _ _ _ h => h)
    · next hstate =>
      have hfinal : ¬Final review.state := by
        rintro (heq | heq)
        · exact hstate (by rw [heq]; decide)
        · exact hstate (by rw [heq]; decide)
      refine Climbs.bind (V := fun intent s' => s' = s₅ ∧ intent = s₅.journal.intents[id]?)
        (Climbs.look (fun _ h _ => ⟨rfl, (Except.ok.inj h).symm⟩) (fun _ h => by cases h) fun _ => True.intro) ?_
      rintro intent s₆ - ⟨rfl, rfl⟩
      split
      · exact Climbs.pure hseen.toAnswers
      · next intent hintent =>
        split
        · exact Climbs.throw True.intro
        · refine Climbs.bind (V := fun answer s' => ∀ e, answer = .error e → Refused s₆ e s') (E := fun _ _ => True)
            (Climbs.attempt ((recoveredPublication_climbs hG hs₁ hreview hintent hfinal).mono (fun _ _ _ _ _ => nofun)
              fun e _ _ hrefused e' heq => Except.error.inj heq ▸ hrefused)) ?_
          rintro answer s₇ hkeeps₇ hanswer
          obtain ⟨hs₇, hadvances₇⟩ := hkeeps₇ hs₁
          cases answer with
          | ok _ =>
            exact Climbs.relabel ((reconcileParsed_climbs hG hs₇).mono (fun _ _ _ h => h.1.toAnswers) fun _ _ _ h => h)
          | error publicationError =>
            refine Climbs.bind (Climbs.relabel (reconcileParsed_climbs hG hs₇)) ?_
            rintro outcome s₈ hkeeps₈ ⟨hseen₈, -⟩
            obtain ⟨hs₈, hadvances₈⟩ := hkeeps₈ hs₇
            refine settlePublication_climbs hG hs₈ hseen₈.toAnswers fun hopen herror => ?_
            by_cases hagain : Readable (faults ∘ .again)
            · exact hseen₈.base hopen fun _ => hagain
            · have hfirst := hreadable.resolve_right hagain
              intro found hfound
              obtain ⟨review₇, hreview₇, hbinding₇, -⟩ := hadvances₇.reviews id review hreview
              obtain ⟨review₈, hreview₈, hbinding₈, -⟩ := hadvances₈.reviews id review₇ hreview₇
              rw [hfound] at hreview₈
              cases hreview₈
              rw [hseen₈.refs, (hanswer publicationError rfl).2 herror, hbinding₈, hbinding₇]
              exact hseen.base nofun (fun _ => hfirst) review hreview

end

end LpStudio.Synapse
