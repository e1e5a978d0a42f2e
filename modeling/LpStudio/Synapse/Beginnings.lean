import LpStudio.Synapse.Decisions

/-! # Beginnings keep the invariant
`begin_proposal`: the first commit of the decision ref has no parents, a proposal comes with a ref of its own, and its
review is registered once the ref is at the head of the proposal.
-/
namespace LpStudio.Synapse
open Str Fault Fault.Program Ancestry Outcome

variable {K : Crates} {G : SynapseGit} {D : Text} {config : SidecarConfig} {s s' : State}
  {who : Option Text} {P : Text → Prop}

/-! ## Closed proposals -/

/-- A decision with feedback on a proposal that the bounded search finds is one. -/
theorem decisionAncestryContainsProposal_sound {head proposalHead : Oid} (hs : Invariant K G D s)
    (hhead : s.repository.refs[D]? = some head)
    (h : decisionAncestryContainsProposal G s.repository head proposalHead = .ok true) : DecidedOn G D s proposalHead := by
  obtain ⟨chain, hchain⟩ := hs.chain head hhead
  unfold decisionAncestryContainsProposal at h
  have hvisit : ∀ other ps, other ∈ chain → (do
      let commit ← loadValue G s.repository other .commit
      if ← anyFeedback G s.repository proposalHead (← requiredArray commit "transition_refs") then return none
      let parents ← (← requiredArray commit "parents").mapM fun parent => required (asStr parent)
      return some parents : Except SidecarError (Option (List Oid))) = .ok (some ps) → ∀ parent ∈ ps, parent ∈ chain := by
    intro other ps hother hvisit
    rw [bind_ok] at hvisit
    obtain ⟨json, hjson, hvisit⟩ := hvisit
    rw [bind_ok] at hvisit
    obtain ⟨transitions, -, hvisit⟩ := hvisit
    rw [bind_ok] at hvisit
    obtain ⟨found, -, hvisit⟩ := hvisit
    cases found with
    | true => cases hvisit
    | false =>
      obtain ⟨array, harray, hvisit⟩ := bind_ok.mp hvisit
      obtain ⟨ps', hps', hvisit⟩ := bind_ok.mp hvisit
      cases hvisit
      have hparents : parents G s.repository other = some ps :=
        parents_eq_some.mpr (bind_ok.mpr ⟨json, hjson, bind_ok.mpr ⟨array, harray, hps'⟩⟩)
      exact fun parent hparent => hchain.parents_mem hother hparents hparent
  obtain ⟨commit, hmem, hearly | hnone⟩ := search_found
    (fun other hother => List.mem_singleton.mp hother ▸ hchain.head_mem) hvisit h
  · cases hearly
  · rw [bind_ok] at hnone
    obtain ⟨json, hjson, hnone⟩ := hnone
    rw [bind_ok] at hnone
    obtain ⟨transitions, htransitions, hnone⟩ := hnone
    rw [bind_ok] at hnone
    obtain ⟨found, hfound, hnone⟩ := hnone
    cases found with
    | true => exact ⟨commit, json, transitions, ⟨head, hhead, chain, hchain, hmem⟩, hjson, htransitions, hfound⟩
    | false =>
      obtain ⟨array, -, hnone⟩ := bind_ok.mp hnone
      obtain ⟨ps, -, hnone⟩ := bind_ok.mp hnone
      cases hnone

/-! ## Steps -/

section
variable {L : Type} {label : L} {faults : L → Fault.Outcome}

/-- An object is written, whatever it is. -/
theorem putJson_any (hG : G.Lawful K) {value : Json} : Climbs (Keeps K G D P who) (putJson G label value) faults s
    (fun _ s' => SameRefs s s') fun _ _ => True := by
  obtain ⟨hgrows, -⟩ := hG.putObject (Prod.eta (G.putObject value s.repository)).symm
  refine callRepository_climbs (keeps_of_grows hgrows rfl) (fun oid r' heq => ?_) (fun _ _ _ => True.intro) True.intro
    True.intro
  obtain ⟨-, rfl⟩ := Prod.mk.inj heq
  exact ⟨hgrows.refs, rfl⟩

theorem mapFiles_any (hG : G.Lawful K) {files : RegularFileManifest} : Climbs (Keeps K G D P who) (mapFiles G label files)
    faults s (fun _ s' => SameRefs s s') fun _ _ => True := by
  have hgrows := hG.mapRegularFiles (Prod.eta (G.mapRegularFiles files s.repository)).symm
  refine callRepository_climbs (keeps_of_grows hgrows rfl) (fun oid r' heq => ?_) (fun _ _ _ => True.intro) True.intro
    True.intro
  obtain ⟨-, rfl⟩ := Prod.mk.inj heq
  exact ⟨hgrows.refs, rfl⟩

theorem readControls_any {label : ControlsStep → L} {commitOid : Oid} : Climbs (Keeps K G D P who)
    (readControls K G config label commitOid) faults s (fun _ s' => s' = s) fun _ _ => True := by
  refine Climbs.bind (V := fun _ s' => s' = s) (readRepository_any (fun _ _ => rfl) fun _ => True.intro) ?_
  rintro - s' - rfl
  exact readRepository_any (fun _ _ => rfl) fun _ => True.intro

end

/-! ## Bootstrap -/

section
variable {faults : BootstrapStep → Fault.Outcome}

theorem expectedControls_climbs (hG : G.Lawful K) : Climbs (Keeps K G D P who) (expectedControls K G config) faults s
    (fun _ s' => SameRefs s s') fun _ _ => True := by
  refine Climbs.bind (putJson_any hG) ?_
  rintro humanActorOid s₁ - hsame₁
  refine Climbs.bind (putJson_any hG) ?_
  rintro aiActorOid s₂ - hsame₂
  refine Climbs.bind (putJson_any hG) ?_
  rintro policyOid s₃ - hsame₃
  refine Climbs.bind (putJson_any hG) ?_
  rintro grantOid s₄ - hsame₄
  refine Climbs.bind (putJson_any hG) ?_
  rintro subjectOid s₅ - hsame₅
  exact Climbs.pure (hsame₁.trans (hsame₂.trans (hsame₃.trans (hsame₄.trans hsame₅))))

theorem root_parents {r : Repository} {oid : Oid} {kind message : String} {transitions : List Oid}
    {snapshot : Oid} {author authoredAt : Text} (h : loadValue G r oid .commit =
      .ok (commit G kind [] snapshot transitions author authoredAt message)) : parents G r oid = some [] := by
  refine parents_eq_some.mpr ?_
  unfold commitParents
  rw [h]
  have hparents : requiredArray (commit G kind [] snapshot transitions author authoredAt message) "parents" = .ok [] := by
    simp [requiredArray, commit, valueAt_cons, asArray, required]
  exact bind_ok.mpr ⟨_, rfl, bind_ok.mpr ⟨_, hparents, rfl⟩⟩

theorem ensureBootstrap_climbs {accepted : RegularFileManifest} (hG : G.Lawful K) (hD : config.decisionRef = D) :
    Climbs (Keeps K G D P none) (ensureBootstrap K G config accepted) faults s
      (fun bootstrap s' => s'.repository.refs[D]? = some bootstrap.1) fun _ _ => True := by
  refine Climbs.bind (V := fun found s' => s' = s ∧ s.repository.refs[config.decisionRef]? = found)
    (readRepository_any (fun _ h => ⟨rfl, Except.ok.inj h⟩) fun _ => True.intro) ?_
  rintro found s₁ - ⟨rfl, hfound⟩
  cases found with
  | some current =>
    refine Climbs.bind readControls_any ?_
    rintro controls s₂ - rfl
    exact Climbs.pure (hD ▸ hfound)
  | none =>
    refine Climbs.bind (V := fun _ s' => s' = s₁) (readRepository_any (fun _ _ => rfl) fun _ => True.intro) ?_
    rintro - s₂ - rfl
    refine Climbs.bind (expectedControls_climbs hG) ?_
    rintro controls s₃ - -
    refine Climbs.bind (mapFiles_any hG) ?_
    rintro mapped s₄ - -
    refine Climbs.bind (putJson_any hG) ?_
    rintro controlTree s₅ - -
    refine Climbs.bind (putJson_any hG) ?_
    rintro snapshot s₆ - -
    refine Climbs.bind ((putJson_climbs hG commit_kind nofun).mono (fun _ _ _ h => h) fun _ _ _ _ => True.intro) ?_
    rintro baseHead s₇ - ⟨-, hbase⟩
    refine Climbs.bind (V := fun _ s' => s' = s₇) (Climbs.failpoint (fun _ => rfl) fun _ => True.intro) ?_
    rintro - s₈ - rfl
    have hlaw := hG.updateRef (Prod.eta (G.updateRef config.decisionRef baseHead s₈.repository)).symm
    refine Climbs.bind (V := fun updated s' => updated = .ok () → s'.repository.refs[D]? = some baseHead)
      (callRepository_climbs ?_ (fun updated r' heq => ?_) (fun _ _ _ => True.intro) True.intro True.intro) ?_
    · rcases hlaw with ⟨-, hswap⟩ | ⟨-, hgrows⟩
      · exact keeps_bootstrap (hD ▸ hswap) (root_parents hbase)
      · exact keeps_of_grows hgrows rfl
    · obtain ⟨hanswer, rfl⟩ := Prod.mk.inj heq
      rintro rfl
      rcases hlaw with ⟨-, hswap⟩ | ⟨⟨code, herror⟩, -⟩
      · exact hD ▸ hswap.new
      · rw [herror] at hanswer
        cases hanswer
    · rintro updated s₉ - hupdated
      cases updated with
      | ok _ => exact Climbs.pure (hupdated rfl)
      | error code =>
        dsimp only
        split
        · refine Climbs.bind (V := fun current s' => s'.repository.refs[config.decisionRef]? = some current)
            (readRepository_any (fun _ h => required_ok.mp h) fun _ => True.intro) ?_
          rintro current s₁₀ - hcurrent
          refine Climbs.bind readControls_any ?_
          rintro controls s₁₁ - rfl
          exact Climbs.pure (hD ▸ hcurrent)
        · exact Climbs.throw True.intro

end

/-! ## Reviews -/

theorem proposalRef_ne_decisionRef (operationKey : Text) : config.proposalRef operationKey ≠ config.decisionRef := by
  intro h
  have hproposal : (config.proposalRef operationKey).head? = some 'p' := by
    unfold SidecarConfig.proposalRef SidecarConfig.proposalPrefix
    rw [List.append_assoc, List.head?_append]
    rfl
  have hdecision : config.decisionRef.head? = some 'd' := by
    unfold SidecarConfig.decisionRef
    rw [List.head?_append]
    rfl
  rw [h, hdecision] at hproposal
  exact absurd (Option.some.inj hproposal) (by decide)

section
variable {faults : ReviewStep → Fault.Outcome} {operationKey : Text} {proposalHead baseHead : Oid} {digests : ProposalDigests}

theorem registerReview_climbs (hG : G.Lawful K) (hD : config.decisionRef = D)
    (hhead : s.repository.refs[config.proposalRef operationKey]? = some proposalHead) :
    Climbs (Keeps K G D P none) (registerReview K G config operationKey proposalHead baseHead digests) faults s
      (fun _ _ => True) fun _ _ => True := by
  refine Climbs.bind (V := fun _ s' => s' = s) (Climbs.ofExcept (fun _ _ => rfl) fun _ _ => True.intro) ?_
  rintro - s₁ - rfl
  refine Climbs.bind (V := fun _ s' => s' = s₁) (Climbs.failpoint (fun _ => rfl) fun _ => True.intro) ?_
  rintro - s₂ - rfl
  refine Climbs.bind (V := fun _ _ => True) (callJournal_climbs ?_ True.intro True.intro True.intro) ?_
  · generalize hbinding : (⟨_, _, _, _, _⟩ : ReviewBinding) = binding
    rcases hG.createOrGetReview (Prod.eta (G.createOrGetReview binding s₂.journal)).symm with
      ⟨heq, -⟩ | ⟨id, -, hfresh, hentity, heq⟩
    · rw [heq]
      exact Std.Refl.refl (r := Keeps K G D P none) s₂
    · subst hbinding
      rw [heq]
      exact keeps_addReview hfresh hentity hD (hD ▸ proposalRef_ne_decisionRef operationKey) hhead
  · rintro answer s₃ - -
    refine Climbs.bind (V := fun _ _ => True) (Climbs.ofExcept (fun _ _ => True.intro) fun _ _ => True.intro) ?_
    rintro registered s₄ - -
    exact Climbs.pure True.intro

end

theorem replayExistingProposal_climbs {faults : ReplayStep → Fault.Outcome} {operationKey : Text} {proposalHead : Oid}
    {digests : ProposalDigests} (hG : G.Lawful K) (hD : config.decisionRef = D)
    (hhead : s.repository.refs[config.proposalRef operationKey]? = some proposalHead) :
    Climbs (Keeps K G D P none) (replayExistingProposal K G config operationKey proposalHead digests) faults s
      (fun _ _ => True) fun _ _ => True := by
  refine Climbs.bind (V := fun _ s' => s' = s) (readRepository_any (fun _ _ => rfl) fun _ => True.intro) ?_
  rintro - s₁ - rfl
  refine Climbs.bind (V := fun _ s' => s' = s₁) (readRepository_any (fun _ _ => rfl) fun _ => True.intro) ?_
  rintro baseHead s₂ - rfl
  refine Climbs.bind (V := fun _ s' => s' = s₂) (readRepository_any (fun _ _ => rfl) fun _ => True.intro) ?_
  rintro current s₃ - rfl
  split
  · exact Climbs.throw True.intro
  · refine Climbs.bind (V := fun _ s' => s' = s₃) (readRepository_any (fun _ _ => rfl) fun _ => True.intro) ?_
    rintro - s₄ - rfl
    refine Climbs.bind readControls_any ?_
    rintro controls s₅ - rfl
    exact Climbs.relabel (registerReview_climbs hG hD hhead)

theorem proposalHasTerminalDenial_climbs {faults : DenialStep → Fault.Outcome} {proposalRef : Text} {proposalHead : Oid} :
    Climbs (Keeps K G D P who) (proposalHasTerminalDenial K G config proposalRef proposalHead) faults s
      (fun denied s' => s' = s ∧ (denied = true → Closed G D s proposalRef proposalHead)) fun _ _ => True := by
  refine Climbs.bind (V := fun _ s' => s' = s) (readRepository_any (fun _ _ => rfl) fun _ => True.intro) ?_
  rintro - s₁ - rfl
  refine Climbs.bind (V := fun _ s' => s' = s₁) (readRepository_any (fun _ _ => rfl) fun _ => True.intro) ?_
  rintro baseHead s₂ - rfl
  refine Climbs.bind (V := fun _ s' => s' = s₂) (readRepository_any (fun _ _ => rfl) fun _ => True.intro) ?_
  rintro - s₃ - rfl
  refine Climbs.bind readControls_any ?_
  rintro controls s₄ - rfl
  refine Climbs.bind (V := fun _ s' => s' = s₄) (readRepository_any (fun _ _ => rfl) fun _ => True.intro) ?_
  rintro - s₅ - rfl
  refine Climbs.bind (V := fun _ s' => s' = s₅) (readRepository_any (fun _ _ => rfl) fun _ => True.intro) ?_
  rintro current s₆ - rfl
  refine Climbs.bind (V := fun _ s' => s' = s₆) (readRepository_any (fun _ _ => rfl) fun _ => True.intro) ?_
  rintro - s₇ - rfl
  refine Climbs.bind (V := fun _ s' => s' = s₇) (readRepository_any (fun _ _ => rfl) fun _ => True.intro) ?_
  rintro contained s₈ - rfl
  split
  · refine Climbs.bind (V := fun _ s' => s' = s₈) (Climbs.ofExcept (fun _ _ => rfl) fun _ _ => True.intro) ?_
    rintro - s₉ - rfl
    refine Climbs.bind (V := fun _ s' => s' = s₉) (Climbs.ofExcept (fun _ _ => rfl) fun _ _ => True.intro) ?_
    rintro - s₁₀ - rfl
    refine Climbs.bind (V := fun _ s' => s' = s₁₀) (Climbs.failpoint (fun _ => rfl) fun _ => True.intro) ?_
    rintro - s₁₁ - rfl
    refine Climbs.look (fun denied h _ => ⟨rfl, fun hdenied => .inr ?_⟩) (fun _ _ => True.intro) fun _ => True.intro
    rw [← Except.ok.inj h, List.any_eq_true] at hdenied
    obtain ⟨⟨id, review⟩, hmem, hreview⟩ := hdenied
    rw [decide_eq_true_eq] at hreview
    exact ⟨id, review, Std.ExtTreeMap.mem_toList_iff_getElem?_eq_some.mp hmem, by rw [hreview.1], by rw [hreview.1],
      hreview.2⟩
  · exact Climbs.throw True.intro

/-! ## Proposals -/

section
variable {faults : BeginStep → Fault.Outcome} {input : ProposalInput} {baseHead : Oid} {digests : ProposalDigests}

/-- No proposal that is checked is open. -/
theorem refuseActiveReviews_climbs {proposals : List (Text × Oid)} (hs : Invariant K G D s)
    (hhead : s.repository.refs[D]? = some baseHead) : Climbs (Keeps K G D P who)
      (refuseActiveReviews K G config baseHead proposals) faults s
      (fun _ s' => s' = s ∧ ∀ proposal ∈ proposals, Closed G D s proposal.1 proposal.2) fun _ _ => True := by
  induction proposals with
  | nil => exact Climbs.pure ⟨rfl, fun _ h => absurd h List.not_mem_nil⟩
  | cons proposal proposals ih =>
    have hrest : Closed G D s proposal.1 proposal.2 → Climbs (Keeps K G D P who)
        (refuseActiveReviews K G config baseHead proposals) faults s
        (fun _ s' => s' = s ∧ ∀ other ∈ proposal :: proposals, Closed G D s other.1 other.2) fun _ _ => True :=
      fun hclosed => ih.mono (fun _ _ _ h => ⟨h.1, List.forall_mem_cons.mpr ⟨hclosed, h.2⟩⟩) fun _ _ _ h => h
    refine Climbs.bind (V := fun decided s' => s' = s ∧ (decided = true → DecidedOn G D s proposal.2))
      (readRepository_any (fun decided h => ⟨rfl, ?_⟩) fun _ => True.intro) ?_
    · rintro rfl
      exact decisionAncestryContainsProposal_sound hs hhead h
    rintro decided s₁ - ⟨rfl, hdecided⟩
    split
    · next htrue => exact hrest (.inl (hdecided htrue))
    · refine Climbs.bind (Climbs.relabel proposalHasTerminalDenial_climbs) ?_
      rintro denied s₂ - ⟨rfl, hdenied⟩
      split
      · next htrue => exact hrest (hdenied htrue)
      · exact Climbs.throw True.intro

/-- A proposal is written for the ref of its operation. -/
theorem writeProposal_climbs {canonicalContext : Bytes} {controls : Controls} (hG : G.Lawful K) : Climbs (Keeps K G D P who)
    (writeProposal K G config input canonicalContext baseHead controls) faults s
    (fun proposal s' => SameRefs s s' ∧ proposal.proposalRef = config.proposalRef input.operationKey)
    fun _ _ => True := by
  refine Climbs.bind (mapFiles_any hG) ?_
  rintro mapped s₁ - hsame₁
  have hgrows := hG.putBlob (Prod.eta (G.putBlob canonicalContext s₁.repository)).symm
  refine Climbs.bind (V := fun _ s' => SameRefs s₁ s') (callRepository_climbs (keeps_of_grows hgrows rfl)
    (fun oid r' heq => ?_) (fun _ _ _ => True.intro) True.intro True.intro) ?_
  · obtain ⟨-, rfl⟩ := Prod.mk.inj heq
    exact ⟨hgrows.refs, rfl⟩
  rintro contextBlob s₂ - hsame₂
  refine Climbs.bind (putJson_any hG) ?_
  rintro contextOid s₃ - hsame₃
  refine Climbs.bind (putJson_any hG) ?_
  rintro activityOid s₄ - hsame₄
  refine Climbs.bind (V := fun _ s' => s' = s₄) (readRepository_any (fun _ _ => rfl) fun _ => True.intro) ?_
  rintro base s₅ - rfl
  refine Climbs.bind (putJson_any hG) ?_
  rintro snapshot s₆ - hsame₆
  refine Climbs.bind (putJson_any hG) ?_
  rintro proposalHead s₇ - hsame₇
  exact Climbs.pure ⟨hsame₁.trans (hsame₂.trans (hsame₃.trans (hsame₄.trans (hsame₆.trans hsame₇)))), rfl⟩

theorem publishProposal_climbs {proposal : AiProposal} (hG : G.Lawful K) (hD : config.decisionRef = D)
    (hclosed : ∀ (other : Text) (head : Oid), other ≠ D → P other → s.repository.refs[other]? = some head →
      Closed G D s other head)
    (hproposal : proposal.proposalRef = config.proposalRef input.operationKey) : Climbs (Keeps K G D P none)
      (publishProposal K G config input baseHead digests proposal) faults s (fun _ _ => True) fun _ _ => True := by
  refine Climbs.bind (V := fun _ s' => s' = s) (readRepository_any (fun _ _ => rfl) fun _ => True.intro) ?_
  rintro - s₁ - rfl
  have hlaw := hG.executeAndPublishAi (Prod.eta (G.executeAndPublishAi proposal s₁.repository)).symm
  refine Climbs.bind (V := fun published s' => ∀ publication, published = .ok publication →
    s'.repository.refs[config.proposalRef input.operationKey]? = some proposal.proposalHead) (E := fun _ _ => True)
    (callRepository_climbs ?_ (fun published r' heq => ?_) (fun _ _ _ => True.intro) True.intro True.intro) ?_
  · rcases hlaw with ⟨-, hswap⟩ | ⟨-, hgrows⟩
    · exact keeps_newRef hswap (hproposal ▸ hD ▸ proposalRef_ne_decisionRef _) hclosed
    · exact keeps_of_grows hgrows rfl
  · obtain ⟨hanswer, rfl⟩ := Prod.mk.inj heq
    rintro publication rfl
    rcases hlaw with ⟨-, hswap⟩ | ⟨⟨e, herror⟩, -⟩
    · exact hproposal ▸ hswap.new
    · rw [herror] at hanswer
      cases hanswer
  · rintro published s₂ - hpublished
    cases published with
    | ok publication =>
      dsimp only
      split
      · exact Climbs.throw True.intro
      · exact Climbs.relabel (registerReview_climbs hG hD (hpublished publication rfl))
    | error e =>
      dsimp only
      split
      · refine Climbs.bind (V := fun _ s' => s' = s₂) (Climbs.failpoint (fun _ => rfl) fun _ => True.intro) ?_
        rintro - s₃ - rfl
        refine Climbs.bind (V := fun existing s' => s' = s₃ ∧ s₃.repository.refs[proposal.proposalRef]? = existing)
          (readRepository_any (fun _ h => ⟨rfl, Except.ok.inj h⟩) fun _ => True.intro) ?_
        rintro existing s₄ - ⟨rfl, hexisting⟩
        cases existing with
        | none => exact Climbs.throw True.intro
        | some existing => exact Climbs.relabel (replayExistingProposal_climbs hG hD (hproposal ▸ hexisting))
      · exact Climbs.throw True.intro

theorem beginProposal_climbs (hG : G.Lawful K) (hs : Invariant K G D s) (hD : config.decisionRef = D)
    (hP : ∀ name, P name → (stripPrefix (config.proposalPrefix ++ ['/']) name).isSome) : Climbs (Keeps K G D P none)
    (beginProposal K G config input) faults s (fun _ _ => True) fun _ _ => True := by
  refine Climbs.bind (V := fun _ s' => s' = s) (Climbs.ofExcept (fun _ _ => rfl) fun _ _ => True.intro) ?_
  rintro - s₁ - rfl
  refine Climbs.bind (V := fun _ s' => s' = s₁) (Climbs.ofExcept (fun _ _ => rfl) fun _ _ => True.intro) ?_
  rintro canonicalContext s₂ - rfl
  refine Climbs.bind (V := fun _ s' => s' = s₂) (Climbs.failpoint (fun _ => rfl) fun _ => True.intro) ?_
  rintro - s₃ - rfl
  refine Climbs.bind (Climbs.relabel (ensureBootstrap_climbs hG hD)) ?_
  rintro ⟨baseHead, controls⟩ s₄ hkeeps₄ hbase
  obtain ⟨hs₄, -⟩ := hkeeps₄ hs
  refine Climbs.bind (V := fun _ s' => s' = s₄) (readRepository_any (fun _ _ => rfl) fun _ => True.intro) ?_
  rintro current s₅ - rfl
  split
  · exact Climbs.throw True.intro
  · refine Climbs.bind (V := fun refs s' => s' = s₅ ∧ refs = s₅.repository.refs.toList)
      (readRepository_any (fun _ h => ⟨rfl, (Except.ok.inj h).symm⟩) fun _ => True.intro) ?_
    rintro refs s₆ - ⟨rfl, rfl⟩
    split
    · next existing hfound =>
      have hname := List.find?_some hfound
      have hhead := Std.ExtTreeMap.mem_toList_iff_getElem?_eq_some.mp (List.mem_of_find?_eq_some hfound)
      rw [decide_eq_true_eq] at hname
      exact Climbs.relabel (replayExistingProposal_climbs hG hD (hname ▸ hhead))
    · refine Climbs.bind (refuseActiveReviews_climbs hs₄ hbase) ?_
      rintro - s₇ - ⟨rfl, hclosed⟩
      refine Climbs.bind (writeProposal_climbs hG) ?_
      rintro proposal s₈ hkeeps₈ ⟨⟨hrefs, -⟩, hproposal⟩
      refine publishProposal_climbs hG hD (fun other head hother hname hhead => ?_) hproposal
      rw [hrefs] at hhead
      have hmem := Std.ExtTreeMap.mem_toList_iff_getElem?_eq_some.mpr hhead
      exact (hclosed (other, head) (List.mem_filter.mpr ⟨hmem, hP other hname⟩)).mono (hkeeps₈ hs₄).2.toFollows

end

end LpStudio.Synapse
