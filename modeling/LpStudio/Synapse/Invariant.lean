import LpStudio.Synapse.Proposals

/-! # What every call keeps
The state that a project's repository and journal are in between two calls, and the order in which calls move it: what
is stored stays, a review that is settled stays settled, and the decision ref moves only to the candidate of the
review that is decided.
-/
namespace LpStudio.Synapse
open Str Fault Fault.Program Ancestry Outcome

variable {K : Crates} {G : SynapseGit} {D : Text}

/-! ## Reading a repository that grows -/

/-- The objects of a repository stay under their addresses. -/
def Stays (r r' : Repository) : Prop :=
  ∀ (oid : Oid) (object : Object), r.objects[oid]? = some object → r'.objects[oid]? = some object

theorem required_ok {α : Type} {o : Option α} {a : α} : required o = .ok a ↔ o = some a := by
  cases o with
  | none => exact iff_of_false nofun nofun
  | some b =>
    constructor
    · intro h
      cases h
      rfl
    · intro h
      cases h
      rfl

theorem foldlM_mono {ε α β : Type} {step step' : α → β → Except ε α} {items : List β} {a b : α}
    (hstep : ∀ a item a', step a item = .ok a' → step' a item = .ok a') (h : items.foldlM step a = .ok b) :
    items.foldlM step' a = .ok b := by
  induction items generalizing a with
  | nil => exact h
  | cons item items ih =>
    rw [List.foldlM_cons, bind_ok] at h ⊢
    obtain ⟨a', hitem, h⟩ := h
    exact ⟨a', hstep _ _ _ hitem, ih h⟩

section
variable {r r' : Repository} {oid : Oid} {kind : ObjectKind} {json : Json}

theorem loadValue_ok : loadValue G r oid kind = .ok json ↔
    G.parseOid oid = some kind ∧ kind ≠ .blob ∧ r.objects[oid]? = some (.value json) := by
  unfold loadValue
  split
  · next h =>
    refine ⟨nofun, fun h' => ?_⟩
    rcases h with h | h
    · exact absurd h'.1 h
    · exact absurd h h'.2.1
  · next h =>
    rw [not_or, not_not] at h
    split
    · next found heq =>
      rw [heq]
      constructor
      · intro h'
        cases h'
        exact ⟨h.1, h.2, rfl⟩
      · rintro ⟨-, -, h'⟩
        cases h'
        rfl
    · next hnone =>
      refine ⟨nofun, fun h' => ?_⟩
      exact absurd h'.2.2 (hnone json)

theorem loadValue_mono (h : Stays r r') (hload : loadValue G r oid kind = .ok json) :
    loadValue G r' oid kind = .ok json := by
  obtain ⟨hkind, hblob, hobject⟩ := loadValue_ok.mp hload
  exact loadValue_ok.mpr ⟨hkind, hblob, h _ _ hobject⟩

theorem commitParents_mono {parents : List Oid} (h : Stays r r') (hparents : commitParents G r oid = .ok parents) :
    commitParents G r' oid = .ok parents := by
  unfold commitParents at hparents ⊢
  rw [bind_ok] at hparents ⊢
  obtain ⟨commit, hcommit, hparents⟩ := hparents
  exact ⟨commit, loadValue_mono h hcommit, hparents⟩

theorem dispositionFromFeedback_mono {proposalHead : Oid} {disposition : ArtifactDisposition} (h : Stays r r')
    (hread : dispositionFromFeedback G r oid proposalHead = .ok disposition) :
    dispositionFromFeedback G r' oid proposalHead = .ok disposition := by
  unfold dispositionFromFeedback at hread ⊢
  rw [bind_ok] at hread ⊢
  obtain ⟨feedback, hfeedback, hread⟩ := hread
  exact ⟨feedback, loadValue_mono h hfeedback, hread⟩

theorem siteTreeAtCommit_mono {root : Oid} (h : Stays r r') (hread : siteTreeAtCommit G r oid = .ok root) :
    siteTreeAtCommit G r' oid = .ok root := by
  unfold siteTreeAtCommit at hread ⊢
  rw [bind_ok] at hread ⊢
  obtain ⟨commit, hcommit, hread⟩ := hread
  refine ⟨commit, loadValue_mono h hcommit, ?_⟩
  rw [bind_ok] at hread ⊢
  obtain ⟨name, hname, hread⟩ := hread
  refine ⟨name, hname, ?_⟩
  rw [bind_ok] at hread ⊢
  obtain ⟨snapshot, hsnapshot, hread⟩ := hread
  exact ⟨snapshot, loadValue_mono h hsnapshot, hread⟩

theorem readVerifiedBlobLimited_mono {limit : ℕ} {bytes : Bytes} (h : Stays r r')
    (hread : readVerifiedBlobLimited r oid limit = .ok bytes) : readVerifiedBlobLimited r' oid limit = .ok bytes := by
  unfold readVerifiedBlobLimited at hread
  split at hread
  · next found hobject =>
    unfold readVerifiedBlobLimited
    rw [h _ _ hobject]
    exact hread
  · cases hread

theorem manifestEntry_mono {limits : ArtifactLimits} {namePrefix : Text} {depth : ℕ} {walk walk' : ManifestWalk}
    {field : Text × Json} (h : Stays r r') (hread : manifestEntry G r limits namePrefix depth walk field = .ok walk') :
    manifestEntry G r' limits namePrefix depth walk field = .ok walk' := by
  unfold manifestEntry at hread ⊢
  rw [bind_ok] at hread ⊢
  obtain ⟨oid, hoid, hread⟩ := hread
  refine ⟨oid, hoid, ?_⟩
  rw [bind_ok] at hread ⊢
  obtain ⟨kind, hkind, hread⟩ := hread
  refine ⟨kind, hkind, ?_⟩
  split at hread
  · next htree =>
    rw [if_pos htree]
    exact hread
  · next htree =>
    rw [if_neg htree]
    split at hread
    · next hblob =>
      rw [if_pos hblob]
      split at hread
      · cases hread
      · next hfiles =>
        rw [if_neg hfiles]
        rw [bind_ok] at hread ⊢
        obtain ⟨bytes, hbytes, hread⟩ := hread
        exact ⟨bytes, readVerifiedBlobLimited_mono h hbytes, hread⟩
    · next hblob =>
      rw [if_neg hblob]
      exact hread

theorem manifestWalk_mono {limits : ArtifactLimits} {budget : ℕ} {walk : ManifestWalk} {entries : List (Text × Bytes)}
    (h : Stays r r') (hread : manifestWalk G r limits budget walk = .ok entries) :
    manifestWalk G r' limits budget walk = .ok entries := by
  induction budget generalizing walk with
  | zero => exact hread
  | succ budget ih =>
    unfold manifestWalk at hread ⊢
    split at hread
    · exact hread
    · next oid namePrefix depth rest heq =>
      split at hread
      · cases hread
      · next hdepth =>
        rw [if_neg hdepth]
        rw [bind_ok] at hread ⊢
        obtain ⟨tree, htree, hread⟩ := hread
        refine ⟨tree, loadValue_mono h htree, ?_⟩
        rw [bind_ok] at hread ⊢
        obtain ⟨fields, hfields, hread⟩ := hread
        refine ⟨fields, hfields, ?_⟩
        rw [bind_ok] at hread ⊢
        obtain ⟨walk', hwalk, hread⟩ := hread
        refine ⟨walk', foldlM_mono (fun _ _ _ => manifestEntry_mono h) hwalk, ?_⟩
        split at hread
        · cases hread
        · next hpending =>
          rw [if_neg hpending]
          exact ih hread

theorem manifestDigestAtCommit_mono {limits : ArtifactLimits} {digest : Text} (h : Stays r r')
    (hread : manifestDigestAtCommit G r limits oid = .ok digest) : manifestDigestAtCommit G r' limits oid = .ok digest := by
  unfold manifestDigestAtCommit at hread ⊢
  rw [bind_ok] at hread ⊢
  obtain ⟨root, hroot, hread⟩ := hread
  refine ⟨root, siteTreeAtCommit_mono h hroot, ?_⟩
  rw [bind_ok] at hread ⊢
  obtain ⟨entries, hentries, hread⟩ := hread
  exact ⟨entries, manifestWalk_mono h hentries, hread⟩

end

/-! ## The ancestry of the decision -/

/-- The parents of a commit that can be read. -/
def parents (G : SynapseGit) (r : Repository) (oid : Oid) : Option (List Oid) := (commitParents G r oid).toOption

section
variable {r r' : Repository} {oid head candidate : Oid} {chain : List Oid} {ps : List Oid}

theorem parents_eq_some : parents G r oid = some ps ↔ commitParents G r oid = .ok ps := by
  unfold parents
  cases commitParents G r oid with
  | error e => exact iff_of_false nofun nofun
  | ok found =>
    constructor
    · intro h
      cases h
      rfl
    · intro h
      cases h
      rfl

theorem parents_mono (h : Stays r r') (oid : Oid) (ps : List Oid) (hps : parents G r oid = some ps) :
    parents G r' oid = some ps := parents_eq_some.mpr (commitParents_mono h (parents_eq_some.mp hps))

/-- The bounded search, when it answers, answers by the chain. -/
theorem decisionChainContainsCommit_ok {found : Bool} (hchain : Chain (parents G r) head chain)
    (h : decisionChainContainsCommit G r head candidate = .ok found) : found = true ↔ candidate ∈ chain := by
  unfold decisionChainContainsCommit at h
  refine search_chain hchain (fun oid answer hanswer => ?_) (fun _ _ => List.not_mem_nil) h
  cases hparents : commitParents G r oid with
  | error e =>
    rw [hparents] at hanswer
    cases hanswer
  | ok ps =>
    rw [hparents] at hanswer
    cases hanswer
    exact ⟨ps, rfl, parents_eq_some.mpr hparents⟩

end

/-! ## The invariant -/

/-- A commit of the chain of the decision ref. -/
def Decided (G : SynapseGit) (D : Text) (s : State) (commit : Oid) : Prop :=
  ∃ head, s.repository.refs[D]? = some head ∧ Descends (parents G s.repository) head commit

/-- The candidate of an intent: a commit on the base of its review, with a feedback record of this review. -/
structure Candidate (K : Crates) (G : SynapseGit) (r : Repository) (id : Text) (binding : ReviewBinding)
    (intent : DecisionIntent) : Prop where
  expected : intent.expectedDecisionHead = binding.expectedDecisionHead
  parents : parents G r intent.candidateHead = some [binding.expectedDecisionHead]
  feedback : ∃ commit, loadValue G r intent.candidateHead .commit = .ok commit ∧
    requiredArray commit "transition_refs" = .ok [.str intent.feedbackOid]
  entity : ∃ record, loadValue G r intent.feedbackOid .record = .ok record ∧
    requiredString record "entity_id" = .ok (entityId K id "feedback".toList)
  disposition : ∃ disposition, dispositionFromFeedback G r intent.feedbackOid binding.proposalHead = .ok disposition

structure Invariant (K : Crates) (G : SynapseGit) (D : Text) (s : State) : Prop where
  chain : ∀ head, s.repository.refs[D]? = some head → ∃ chain, Chain (parents G s.repository) head chain
  bindings : ∀ (id : Text) (review : Review), s.journal.reviews[id]? = some review →
    review.binding.decisionRefName = D ∧ review.binding.proposalRefName ≠ D ∧
      s.repository.refs[review.binding.proposalRefName]? = some review.binding.proposalHead
  entities : ∀ (id other : Text) (review review' : Review), s.journal.reviews[id]? = some review →
    s.journal.reviews[other]? = some review' →
    entityId K id "feedback".toList = entityId K other "feedback".toList → id = other
  intents : ∀ (id : Text) (intent : DecisionIntent), s.journal.intents[id]? = some intent →
    ∃ review, s.journal.reviews[id]? = some review ∧ Candidate K G s.repository id review.binding intent
  denied : ∀ (id : Text) (review : Review) (intent : DecisionIntent), s.journal.reviews[id]? = some review →
    review.state = .terminalDenial → s.journal.intents[id]? = some intent → ¬Decided G D s intent.candidateHead
  committed : ∀ (id : Text) (review : Review), s.journal.reviews[id]? = some review →
    review.state = .decisionCommitted →
    ∃ intent, s.journal.intents[id]? = some intent ∧ Decided G D s intent.candidateHead

/-- A state in which a review is settled. -/
def Final (state : ReviewState) : Prop := state = .decisionCommitted ∨ state = .terminalDenial

/-- A commit of the decision has feedback on a proposal. -/
def DecidedOn (G : SynapseGit) (D : Text) (s : State) (proposalHead : Oid) : Prop :=
  ∃ commit json transitions, Decided G D s commit ∧ loadValue G s.repository commit .commit = .ok json ∧
    requiredArray json "transition_refs" = .ok transitions ∧
    anyFeedback G s.repository proposalHead transitions = .ok true

/-- The proposal of a ref is decided on, or a review of it is denied. -/
def Closed (G : SynapseGit) (D : Text) (s : State) (name : Text) (head : Oid) : Prop :=
  DecidedOn G D s head ∨ ∃ (id : Text) (review : Review), s.journal.reviews[id]? = some review ∧
    review.binding.proposalRefName = name ∧ review.binding.proposalHead = head ∧ review.state = .terminalDenial

/-- At most one of the refs with `P` is at a proposal that is open. -/
def OneOpen (G : SynapseGit) (D : Text) (P : Text → Prop) (s : State) : Prop :=
  ∀ (name other : Text) (head head' : Oid), name ≠ D → other ≠ D → P name → P other →
    s.repository.refs[name]? = some head → s.repository.refs[other]? = some head' →
    ¬Closed G D s name head → ¬Closed G D s other head' → name = other

/-- What any number of calls on a project leave as it is. -/
structure Follows (G : SynapseGit) (D : Text) (s s' : State) : Prop where
  stays : Stays s.repository s'.repository
  refs : ∀ (name : Text) (head : Oid), name ≠ D → s.repository.refs[name]? = some head →
    s'.repository.refs[name]? = some head
  reviews : ∀ (id : Text) (review : Review), s.journal.reviews[id]? = some review →
    ∃ review', s'.journal.reviews[id]? = some review' ∧ review'.binding = review.binding ∧
      (Final review.state → review'.state = review.state)
  intents : ∀ (id : Text) (intent : DecisionIntent), s.journal.intents[id]? = some intent →
    s'.journal.intents[id]? = some intent
  decided : ∀ commit, Decided G D s commit → Decided G D s' commit

/-- How a call moves the state that is about a review, or about none. -/
structure Advances (G : SynapseGit) (D : Text) (P : Text → Prop) (who : Option Text) (s s' : State) : Prop
    extends Follows G D s s' where
  others : ∀ (id : Text) (review : Review), who ≠ some id → s.journal.reviews[id]? = some review →
    s'.journal.reviews[id]? = some review
  registered : ∀ (id : Text) (intent : DecisionIntent), s.journal.intents[id]? = none →
    s'.journal.intents[id]? = some intent → ∃ review : Review, who = some id ∧ s'.journal.reviews[id]? = some review ∧
      s.repository.refs[D]? = some review.binding.expectedDecisionHead
  decision : s'.repository.refs[D]? = s.repository.refs[D]? ∨
    (who = none ∧ s.repository.refs[D]? = none ∧
      ∃ base, s'.repository.refs[D]? = some base ∧ parents G s'.repository base = some []) ∨
    ∃ id review intent, who = some id ∧ s'.journal.reviews[id]? = some review ∧
      s'.journal.intents[id]? = some intent ∧ s.repository.refs[D]? = some review.binding.expectedDecisionHead ∧
      s'.repository.refs[D]? = some intent.candidateHead
  opens : OneOpen G D P s → OneOpen G D P s'

/-- From a state with the invariant to one with it. -/
def Keeps (K : Crates) (G : SynapseGit) (D : Text) (P : Text → Prop) (who : Option Text) (s s' : State) : Prop :=
  Invariant K G D s → Invariant K G D s' ∧ Advances G D P who s s'

section
variable {s s' s'' : State} {id : Text} {intent : DecisionIntent} {review : Review} {commit : Oid} {who : Option Text}
  {P : Text → Prop}

/-- The candidate on top of a head is not below it. -/
theorem Invariant.not_decided (hs : Invariant K G D s)
    (hhead : s.repository.refs[D]? = some review.binding.expectedDecisionHead)
    (hcandidate : Candidate K G s.repository id review.binding intent) : ¬Decided G D s intent.candidateHead := by
  rintro ⟨head, hdecision, hdescends⟩
  rw [hhead] at hdecision
  cases hdecision
  obtain ⟨chain, hchain⟩ := hs.chain _ hhead
  exact hchain.not_mem_of_child hcandidate.parents (hchain.descends_iff.mp hdescends)

theorem Candidate.mono {r r' : Repository} {binding : ReviewBinding} (h : Candidate K G r id binding intent)
    (hstays : Stays r r') : Candidate K G r' id binding intent := by
  obtain ⟨commit, hcommit, htransitions⟩ := h.feedback
  obtain ⟨record, hrecord, hentity⟩ := h.entity
  obtain ⟨disposition, hdisposition⟩ := h.disposition
  exact {
    expected := h.expected
    parents := parents_mono hstays _ _ h.parents
    feedback := ⟨commit, loadValue_mono hstays hcommit, htransitions⟩
    entity := ⟨record, loadValue_mono hstays hrecord, hentity⟩
    disposition := ⟨disposition, dispositionFromFeedback_mono hstays hdisposition⟩ }

/-- A candidate tells the review it is for. -/
theorem Candidate.entity_eq {r : Repository} {id other : Text} {binding binding' : ReviewBinding}
    {intent intent' : DecisionIntent} (h : Candidate K G r id binding intent)
    (h' : Candidate K G r other binding' intent') (heq : intent.candidateHead = intent'.candidateHead) :
    entityId K id "feedback".toList = entityId K other "feedback".toList := by
  obtain ⟨commit, hcommit, htransitions⟩ := h.feedback
  obtain ⟨commit', hcommit', htransitions'⟩ := h'.feedback
  rw [heq, hcommit'] at hcommit
  cases hcommit
  rw [htransitions'] at htransitions
  simp only [Except.ok.injEq, List.cons.injEq, Json.str.injEq, and_true] at htransitions
  obtain ⟨record, hrecord, hentity⟩ := h.entity
  obtain ⟨record', hrecord', hentity'⟩ := h'.entity
  rw [htransitions, hrecord] at hrecord'
  cases hrecord'
  rw [hentity] at hentity'
  exact Except.ok.inj hentity'

theorem Decided.mono (h : Decided G D s commit) (hstays : Stays s.repository s'.repository)
    (hdecision : s'.repository.refs[D]? = s.repository.refs[D]?) : Decided G D s' commit := by
  obtain ⟨head, hhead, hdescends⟩ := h
  exact ⟨head, hdecision.trans hhead, hdescends.mono (parents_mono hstays)⟩

/-- The commits of a decision ref that stays are the same in a repository that grew. -/
theorem Invariant.decided_iff (hs : Invariant K G D s) (hstays : Stays s.repository s'.repository)
    (hdecision : s'.repository.refs[D]? = s.repository.refs[D]?) : Decided G D s' commit ↔ Decided G D s commit := by
  constructor
  · rintro ⟨head, hhead, hdescends⟩
    rw [hdecision] at hhead
    obtain ⟨chain, hchain⟩ := hs.chain head hhead
    rw [(hchain.mono (parents_mono hstays)).descends_iff] at hdescends
    exact ⟨head, hhead, hchain.descends_iff.mpr hdescends⟩
  · exact fun h => h.mono hstays hdecision

/-- The commits of a decision ref that moves to a child of its head are the child and the commits before. -/
theorem Invariant.moved_iff {base candidate : Oid} (hs : Invariant K G D s) (hstays : Stays s.repository s'.repository)
    (hbase : s.repository.refs[D]? = some base) (hmoved : s'.repository.refs[D]? = some candidate)
    (hparents : parents G s'.repository candidate = some [base]) :
    Decided G D s' commit ↔ commit = candidate ∨ Decided G D s commit := by
  obtain ⟨chain, hchain⟩ := hs.chain _ hbase
  have hchain' := hchain.mono (parents_mono hstays)
  constructor
  · rintro ⟨head, hhead, hdescends⟩
    rw [hmoved] at hhead
    cases hhead
    rcases (descends_child hchain' hparents).mp hdescends with heq | hdescends
    · exact .inl heq
    · rw [hchain'.descends_iff] at hdescends
      exact .inr ⟨_, hbase, hchain.descends_iff.mpr hdescends⟩
  · intro h
    refine ⟨_, hmoved, (descends_child hchain' hparents).mpr ?_⟩
    rcases h with heq | ⟨head, hhead, hdescends⟩
    · exact .inl heq
    · rw [hbase] at hhead
      cases hhead
      exact .inr (hdescends.mono (parents_mono hstays))

instance : IsPreorder State (Follows G D) where
  refl s := {
    stays := fun _ _ h => h
    refs := fun _ _ _ h => h
    reviews := fun _ review h => ⟨review, h, rfl, fun _ => rfl⟩
    intents := fun _ _ h => h
    decided := fun _ h => h }
  trans _ _ _ h h' := {
    stays := fun oid object hobject => h'.stays oid object (h.stays oid object hobject)
    refs := fun name head hname hhead => h'.refs name head hname (h.refs name head hname hhead)
    reviews := fun id review hreview => by
      obtain ⟨review', hreview', hbinding, hstate⟩ := h.reviews id review hreview
      obtain ⟨review'', hreview'', hbinding', hstate'⟩ := h'.reviews id review' hreview'
      refine ⟨review'', hreview'', hbinding'.trans hbinding, fun hfinal => ?_⟩
      have heq := hstate hfinal
      rw [hstate' (heq ▸ hfinal), heq]
    intents := fun id intent hintent => h'.intents id intent (h.intents id intent hintent)
    decided := fun commit hcommit => h'.decided commit (h.decided commit hcommit) }

theorem anyFeedback_mono {r r' : Repository} {proposalHead : Oid} {transitions : List Json} {found : Bool}
    (h : Stays r r') (hread : anyFeedback G r proposalHead transitions = .ok found) :
    anyFeedback G r' proposalHead transitions = .ok found := by
  induction transitions with
  | nil => exact hread
  | cons transition transitions ih =>
    unfold anyFeedback at hread ⊢
    rw [bind_ok] at hread ⊢
    obtain ⟨oid, hoid, hread⟩ := hread
    refine ⟨oid, hoid, ?_⟩
    rw [bind_ok] at hread ⊢
    obtain ⟨record, hrecord, hread⟩ := hread
    refine ⟨record, loadValue_mono h hrecord, ?_⟩
    split at hread
    · next hfeedback =>
      rw [if_pos hfeedback]
      exact hread
    · next hfeedback =>
      rw [if_neg hfeedback]
      exact ih hread

theorem Closed.mono {name : Text} {head : Oid} (hclosed : Closed G D s name head) (h : Follows G D s s') :
    Closed G D s' name head := by
  rcases hclosed with ⟨commit, json, transitions, hdecided, hjson, htransitions, hfeedback⟩ |
    ⟨id, review, hreview, hname, hhead, hstate⟩
  · exact .inl ⟨commit, json, transitions, h.decided commit hdecided, loadValue_mono h.stays hjson, htransitions,
      anyFeedback_mono h.stays hfeedback⟩
  · obtain ⟨review', hreview', hbinding, hfinal⟩ := h.reviews id review hreview
    exact .inr ⟨id, review', hreview', hbinding ▸ hname, hbinding ▸ hhead, (hfinal (.inr hstate)).trans hstate⟩

/-- A step that adds no ref opens no proposal. -/
theorem Follows.oneOpen (h : Follows G D s s')
    (hrefs : ∀ name, name ≠ D → s'.repository.refs[name]? = s.repository.refs[name]?) (hopen : OneOpen G D P s) :
    OneOpen G D P s' := by
  intro name other head head' hname hother hP hP' hhead hhead' hclosed hclosed'
  rw [hrefs name hname] at hhead
  rw [hrefs other hother] at hhead'
  exact hopen name other head head' hname hother hP hP' hhead hhead' (fun h' => hclosed (h'.mono h))
    fun h' => hclosed' (h'.mono h)

/-- A step that registers no intent. -/
theorem registered_of_same (h : s'.journal.intents = s.journal.intents) (id : Text) (intent : DecisionIntent)
    (hnone : s.journal.intents[id]? = none) (hintent : s'.journal.intents[id]? = some intent) :
    ∃ review : Review, who = some id ∧ s'.journal.reviews[id]? = some review ∧
      s.repository.refs[D]? = some review.binding.expectedDecisionHead := by
  rw [h, hnone] at hintent
  cases hintent

theorem Advances.refl (who : Option Text) (s : State) : Advances G D P who s s where
  toFollows := Std.Refl.refl (r := Follows G D) s
  others := fun _ _ _ h => h
  registered := registered_of_same rfl
  decision := .inl rfl
  opens := fun h => h

/-- The decision ref moves past the base of a review once: its new head is above the base. -/
theorem Advances.trans (hs' : Invariant K G D s') (h : Advances G D P who s s') (h' : Advances G D P who s' s'') :
    Advances G D P who s s'' where
  toFollows := IsTrans.trans _ _ _ h.toFollows h'.toFollows
  others := fun id review hwho hreview => h'.others id review hwho (h.others id review hwho hreview)
  opens := fun hopen => h'.opens (h.opens hopen)
  registered := by
    intro id intent hnone hintent
    cases hfound : s'.journal.intents[id]? with
    | some found =>
      obtain ⟨review, hwho, hreview, hbase⟩ := h.registered id found hnone hfound
      obtain ⟨review', hreview', hbinding, -⟩ := h'.reviews id review hreview
      exact ⟨review', hwho, hreview', hbinding ▸ hbase⟩
    | none =>
      obtain ⟨review, hwho, hreview, hbase⟩ := h'.registered id intent hfound hintent
      refine ⟨review, hwho, hreview, ?_⟩
      rcases h.decision with hsame | ⟨hwho', -⟩ | ⟨other, -, intent', hwho', -, hintent', -⟩
      · exact hsame ▸ hbase
      · rw [hwho] at hwho'
        cases hwho'
      · rw [hwho] at hwho'
        cases hwho'
        rw [hfound] at hintent'
        cases hintent'
  decision := by
    rcases h.decision with hsame | ⟨hwho, hnone, base, hbase, hroot⟩ |
      ⟨id, review, intent, hwho, hreview, hintent, hbase, hmoved⟩
    · rcases h'.decision with hsame' | ⟨hwho', hnone', hroot⟩ |
        ⟨id, review, intent, hwho, hreview, hintent, hbase, hmoved⟩
      · exact .inl (hsame'.trans hsame)
      · exact .inr (.inl ⟨hwho', hsame ▸ hnone', hroot⟩)
      · exact .inr (.inr ⟨id, review, intent, hwho, hreview, hintent, hsame ▸ hbase, hmoved⟩)
    · refine .inr (.inl ⟨hwho, hnone, base, ?_, parents_mono h'.stays _ _ hroot⟩)
      rcases h'.decision with hsame' | ⟨-, hnone', -⟩ | ⟨id, -, -, hwho', -⟩
      · exact hsame'.trans hbase
      · rw [hbase] at hnone'
        cases hnone'
      · rw [hwho] at hwho'
        cases hwho'
    · obtain ⟨review'', hreview'', hbinding, -⟩ := h'.reviews id review hreview
      refine .inr (.inr ⟨id, review'', intent, hwho, hreview'', h'.intents _ _ hintent, hbinding ▸ hbase, ?_⟩)
      rcases h'.decision with hsame' | ⟨hwho', -⟩ | ⟨other, later, -, hwho', hlater, -, hbase', -⟩
      · exact hsame'.trans hmoved
      · rw [hwho] at hwho'
        cases hwho'
      · rw [hwho] at hwho'
        cases hwho'
        rw [hreview''] at hlater
        cases hlater
        rw [hbinding] at hbase'
        obtain ⟨found, hfound, hcandidate⟩ := hs'.intents id intent hintent
        rw [hreview] at hfound
        cases hfound
        refine absurd ⟨_, hmoved, ?_⟩ (hs'.not_decided hbase' hcandidate)
        obtain ⟨chain, hchain⟩ := hs'.chain _ hmoved
        exact hchain.descends_iff.mpr hchain.head_mem

instance : IsPreorder State (Keeps K G D P who) where
  refl s hs := ⟨hs, Advances.refl who s⟩
  trans _ _ _ h h' hs := ⟨(h' (h hs).1).1, (h hs).2.trans (h hs).1 (h' (h hs).1).2⟩

/-! ## Objects -/

theorem keeps_of_grows (hrepository : s.repository.Grows s'.repository) (hjournal : s'.journal = s.journal) :
    Keeps K G D P who s s' := by
  intro hs
  have hstays : Stays s.repository s'.repository := hrepository.objects
  have hrefs := hrepository.refs
  have hdecided : ∀ {commit}, Decided G D s' commit ↔ Decided G D s commit :=
    fun {commit} => hs.decided_iff hstays (by rw [hrefs])
  refine ⟨?_, ?_⟩
  · exact {
      chain := fun head hhead => by
        rw [hrefs] at hhead
        obtain ⟨chain, hchain⟩ := hs.chain head hhead
        exact ⟨chain, hchain.mono (parents_mono hstays)⟩
      bindings := fun id review hreview => by
        rw [hjournal] at hreview
        rw [hrefs]
        exact hs.bindings id review hreview
      entities := fun id other review review' hreview hreview' => by
        rw [hjournal] at hreview hreview'
        exact hs.entities id other review review' hreview hreview'
      intents := fun id intent hintent => by
        rw [hjournal] at hintent ⊢
        obtain ⟨review, hreview, hcandidate⟩ := hs.intents id intent hintent
        exact ⟨review, hreview, hcandidate.mono hstays⟩
      denied := fun id review intent hreview hstate hintent => by
        rw [hjournal] at hreview hintent
        rw [hdecided]
        exact hs.denied id review intent hreview hstate hintent
      committed := fun id review hreview hstate => by
        rw [hjournal] at hreview ⊢
        obtain ⟨intent, hintent, hdecision⟩ := hs.committed id review hreview hstate
        exact ⟨intent, hintent, hdecided.mpr hdecision⟩ }
  · have hfollows : Follows G D s s' := {
      stays := hstays
      refs := fun name head _ hhead => by rw [hrefs]; exact hhead
      reviews := fun id review hreview => ⟨review, by rw [hjournal]; exact hreview, rfl, fun _ => rfl⟩
      intents := fun id intent hintent => by rw [hjournal]; exact hintent
      decided := fun _ => hdecided.mpr }
    exact {
      toFollows := hfollows
      others := fun id review _ hreview => by rw [hjournal]; exact hreview
      registered := registered_of_same (by rw [hjournal])
      decision := .inl (by rw [hrefs])
      opens := hfollows.oneOpen fun _ _ => by rw [hrefs] }

/-! ## The journal -/

theorem getElem?_insert_ne {β : Type} {m : Std.ExtTreeMap Text β compare} {name other : Text} {value : β}
    (h : name ≠ other) : (m.insert name value)[other]? = m[other]? := by
  rw [Std.ExtTreeMap.getElem?_insert, if_neg fun heq => h (Std.LawfulEqCmp.eq_of_compare heq)]

theorem getElem?_modify_ne {β : Type} {m : Std.ExtTreeMap Text β compare} {name other : Text} {f : β → β}
    (h : name ≠ other) : (m.modify name f)[other]? = m[other]? := by
  rw [Std.ExtTreeMap.getElem?_modify, if_neg fun heq => h (Std.LawfulEqCmp.eq_of_compare heq)]

/-- What a review may be recorded as. -/
def Allowed (G : SynapseGit) (D : Text) (s : State) (id : Text) : ReviewState → Prop
  | .terminalDenial => ∀ intent : DecisionIntent, s.journal.intents[id]? = some intent →
      ¬Decided G D s intent.candidateHead
  | .decisionCommitted => ∃ intent : DecisionIntent, s.journal.intents[id]? = some intent ∧
      Decided G D s intent.candidateHead
  | _ => True

/-- The state of a review is recorded. -/
def record (id : Text) (target : ReviewState) (s : State) : State :=
  { s with journal := { s.journal with
    reviews := s.journal.reviews.modify id fun review => { review with state := target } } }

theorem record_reviews {target : ReviewState} {other : Text} : (record id target s).journal.reviews[other]? =
    if other = id then (s.journal.reviews[id]?).map fun review => { review with state := target }
    else s.journal.reviews[other]? := by
  unfold record
  split
  · next heq =>
    rw [heq]
    exact Std.ExtTreeMap.getElem?_modify_self
  · next hne => exact getElem?_modify_ne (Ne.symm hne)

/-- A review after its state has been recorded, by the review before. -/
theorem of_record {target : ReviewState} {other : Text} {review' : Review}
    (h : (record id target s).journal.reviews[other]? = some review') :
    ∃ review, s.journal.reviews[other]? = some review ∧ review'.binding = review.binding ∧
      ((other = id ∧ review'.state = target) ∨ (other ≠ id ∧ review' = review)) := by
  rw [record_reviews] at h
  split at h
  · next heq =>
    obtain ⟨review, hreview, rfl⟩ := Option.map_eq_some_iff.mp h
    exact ⟨review, heq ▸ hreview, rfl, .inl ⟨heq, rfl⟩⟩
  · next hne => exact ⟨review', h, rfl, .inr ⟨hne, rfl⟩⟩

theorem keeps_record {target : ReviewState} (hreview : s.journal.reviews[id]? = some review)
    (hfinal : ¬Final review.state) (hallowed : Allowed G D s id target) :
    Keeps K G D P (some id) s (record id target s) := by
  intro hs
  refine ⟨?_, ?_⟩
  · exact {
      chain := hs.chain
      bindings := fun other review' hreview' => by
        obtain ⟨found, hfound, hbinding, -⟩ := of_record hreview'
        rw [hbinding]
        exact hs.bindings other found hfound
      entities := fun other another review' review'' hreview' hreview'' => by
        obtain ⟨found, hfound, -⟩ := of_record hreview'
        obtain ⟨found', hfound', -⟩ := of_record hreview''
        exact hs.entities other another found found' hfound hfound'
      intents := fun other intent hintent => by
        obtain ⟨found, hfound, hcandidate⟩ := hs.intents other intent hintent
        rw [record_reviews]
        split
        · next heq =>
          rw [heq] at hfound hcandidate
          exact ⟨_, Option.map_eq_some_iff.mpr ⟨found, hfound, rfl⟩, heq ▸ hcandidate⟩
        · exact ⟨found, hfound, hcandidate⟩
      denied := fun other review' intent hreview' hstate hintent => by
        obtain ⟨found, hfound, -, ⟨rfl, htarget⟩ | ⟨-, rfl⟩⟩ := of_record hreview'
        · rw [← htarget, hstate] at hallowed
          exact hallowed intent hintent
        · exact hs.denied other _ intent hfound hstate hintent
      committed := fun other review' hreview' hstate => by
        obtain ⟨found, hfound, -, ⟨rfl, htarget⟩ | ⟨-, rfl⟩⟩ := of_record hreview'
        · rw [← htarget, hstate] at hallowed
          exact hallowed
        · exact hs.committed other _ hfound hstate }
  · have hfollows : Follows G D s (record id target s) := {
      stays := fun _ _ h => h
      refs := fun _ _ _ h => h
      reviews := fun other found hfound => by
        rw [record_reviews]
        split
        · next heq =>
          rw [heq, hreview] at hfound
          cases hfound
          exact ⟨_, Option.map_eq_some_iff.mpr ⟨review, hreview, rfl⟩, rfl, fun h => absurd h hfinal⟩
        · exact ⟨found, hfound, rfl, fun _ => rfl⟩
      intents := fun _ _ h => h
      decided := fun _ h => h }
    exact {
      toFollows := hfollows
      others := fun other found hother hfound => by
        rw [record_reviews, if_neg fun heq => hother (congrArg some heq.symm)]
        exact hfound
      registered := registered_of_same rfl
      decision := .inl rfl
      opens := hfollows.oneOpen fun _ _ => rfl }

/-- The intent of a review is registered. -/
def register (id : Text) (intent : DecisionIntent) (s : State) : State :=
  { s with journal := { s.journal with intents := s.journal.intents.insert id intent } }

theorem keeps_register (hreview : s.journal.reviews[id]? = some review) (hnone : s.journal.intents[id]? = none)
    (hcandidate : Candidate K G s.repository id review.binding intent)
    (hbase : s.repository.refs[D]? = some review.binding.expectedDecisionHead) :
    Keeps K G D P (some id) s (register id intent s) := by
  intro hs
  have hintents : ∀ {other : Text} {found : DecisionIntent}, (register id intent s).journal.intents[other]? = some found →
      (other = id ∧ found = intent) ∨ (other ≠ id ∧ s.journal.intents[other]? = some found) := by
    intro other found hfound
    by_cases heq : other = id
    · rw [heq, register, Std.ExtTreeMap.getElem?_insert_self] at hfound
      exact .inl ⟨heq, (Option.some.inj hfound).symm⟩
    · rw [register, getElem?_insert_ne (Ne.symm heq)] at hfound
      exact .inr ⟨heq, hfound⟩
  have hkeep : ∀ {other : Text} {found : DecisionIntent}, s.journal.intents[other]? = some found →
      (register id intent s).journal.intents[other]? = some found := by
    intro other found hfound
    have hne : id ≠ other := by
      rintro rfl
      rw [hnone] at hfound
      cases hfound
    rw [register, getElem?_insert_ne hne]
    exact hfound
  refine ⟨?_, ?_⟩
  · exact {
      chain := hs.chain
      bindings := hs.bindings
      entities := hs.entities
      intents := fun other found hfound => by
        rcases hintents hfound with ⟨rfl, rfl⟩ | ⟨-, hfound⟩
        · exact ⟨review, hreview, hcandidate⟩
        · exact hs.intents other found hfound
      denied := fun other found found' hfound hstate hintent => by
        rcases hintents hintent with ⟨rfl, rfl⟩ | ⟨-, hintent⟩
        · exact hs.not_decided hbase hcandidate
        · exact hs.denied other found found' hfound hstate hintent
      committed := fun other found hfound hstate => by
        obtain ⟨found', hintent, hdecided⟩ := hs.committed other found hfound hstate
        exact ⟨found', hkeep hintent, hdecided⟩ }
  · have hfollows : Follows G D s (register id intent s) := {
      stays := fun _ _ h => h
      refs := fun _ _ _ h => h
      reviews := fun other found hfound => ⟨found, hfound, rfl, fun _ => rfl⟩
      intents := fun _ _ hfound => hkeep hfound
      decided := fun _ h => h }
    exact {
      toFollows := hfollows
      others := fun _ _ _ hfound => hfound
      registered := fun other found hother hfound => by
        rcases hintents hfound with ⟨rfl, -⟩ | ⟨-, hfound⟩
        · exact ⟨review, rfl, hreview, hbase⟩
        · rw [hother] at hfound
          cases hfound
      decision := .inl rfl
      opens := hfollows.oneOpen fun _ _ => rfl }

/-- A review begins. -/
def addReview (id : Text) (binding : ReviewBinding) (s : State) : State :=
  { s with journal := { s.journal with reviews := s.journal.reviews.insert id ⟨binding, .pendingReview⟩ } }

theorem keeps_addReview {binding : ReviewBinding} (hfresh : id ∉ s.journal.reviews)
    (hentity : ∀ other ∈ s.journal.reviews, entityId K other "feedback".toList ≠ entityId K id "feedback".toList)
    (hdecision : binding.decisionRefName = D) (hproposal : binding.proposalRefName ≠ D)
    (hhead : s.repository.refs[binding.proposalRefName]? = some binding.proposalHead) :
    Keeps K G D P who s (addReview id binding s) := by
  intro hs
  have hold : ∀ {other : Text} {found : Review}, s.journal.reviews[other]? = some found → id ≠ other := by
    rintro other found hfound rfl
    exact hfresh (Std.ExtTreeMap.mem_iff_isSome_getElem?.mpr (by rw [hfound]; rfl))
  have hkeep : ∀ {other : Text} {found : Review}, s.journal.reviews[other]? = some found →
      (addReview id binding s).journal.reviews[other]? = some found := by
    intro other found hfound
    rw [addReview, getElem?_insert_ne (hold hfound)]
    exact hfound
  have hcases : ∀ {other : Text} {found : Review}, (addReview id binding s).journal.reviews[other]? = some found →
      (other = id ∧ found = ⟨binding, .pendingReview⟩) ∨ s.journal.reviews[other]? = some found := by
    intro other found hfound
    by_cases heq : other = id
    · rw [heq, addReview, Std.ExtTreeMap.getElem?_insert_self] at hfound
      exact .inl ⟨heq, (Option.some.inj hfound).symm⟩
    · rw [addReview, getElem?_insert_ne (Ne.symm heq)] at hfound
      exact .inr hfound
  have hmem : ∀ {other : Text} {found : Review}, s.journal.reviews[other]? = some found → other ∈ s.journal.reviews :=
    fun hfound => Std.ExtTreeMap.mem_iff_isSome_getElem?.mpr (by rw [hfound]; rfl)
  refine ⟨?_, ?_⟩
  · exact {
      chain := hs.chain
      bindings := fun other found hfound => by
        rcases hcases hfound with ⟨-, rfl⟩ | hfound
        · exact ⟨hdecision, hproposal, hhead⟩
        · exact hs.bindings other found hfound
      entities := fun other another found found' hfound hfound' heq => by
        rcases hcases hfound with ⟨hother, -⟩ | hfound
        · rcases hcases hfound' with ⟨hanother, -⟩ | hfound'
          · exact hother.trans hanother.symm
          · exact absurd (hother ▸ heq).symm (hentity another (hmem hfound'))
        · rcases hcases hfound' with ⟨hanother, -⟩ | hfound'
          · exact absurd (hanother ▸ heq) (hentity other (hmem hfound))
          · exact hs.entities other another found found' hfound hfound' heq
      intents := fun other intent hintent => by
        obtain ⟨found, hfound, hcandidate⟩ := hs.intents other intent hintent
        exact ⟨found, hkeep hfound, hcandidate⟩
      denied := fun other found intent hfound hstate hintent => by
        rcases hcases hfound with ⟨-, rfl⟩ | hfound
        · cases hstate
        · exact hs.denied other found intent hfound hstate hintent
      committed := fun other found hfound hstate => by
        rcases hcases hfound with ⟨-, rfl⟩ | hfound
        · cases hstate
        · exact hs.committed other found hfound hstate }
  · have hfollows : Follows G D s (addReview id binding s) := {
      stays := fun _ _ h => h
      refs := fun _ _ _ h => h
      reviews := fun other found hfound => ⟨found, hkeep hfound, rfl, fun _ => rfl⟩
      intents := fun _ _ hintent => hintent
      decided := fun _ h => h }
    exact {
      toFollows := hfollows
      others := fun _ _ _ hfound => hkeep hfound
      registered := registered_of_same rfl
      decision := .inl rfl
      opens := hfollows.oneOpen fun _ _ => rfl }

/-! ## The refs -/

theorem Repository.Swapped.of_ne {name other : Text} {expected : Option Oid} {new : Oid} {r r' : Repository}
    (h : r.Swapped name expected new r') (hne : name ≠ other) : r'.refs[other]? = r.refs[other]? := by
  rw [h.refs, getElem?_insert_ne hne]

/-- A ref that comes to be is none that there was. -/
theorem Repository.Swapped.ne_of_found {name other : Text} {new head : Oid} {r r' : Repository}
    (h : r.Swapped name none new r') (hhead : r.refs[other]? = some head) : name ≠ other := by
  rintro rfl
  rw [h.expected] at hhead
  cases hhead

theorem Repository.Swapped.new {name : Text} {expected : Option Oid} {new : Oid} {r r' : Repository}
    (h : r.Swapped name expected new r') : r'.refs[name]? = some new := by
  rw [h.refs, Std.ExtTreeMap.getElem?_insert_self]

theorem keeps_decide {r' : Repository} {expected : Oid}
    (hswap : s.repository.Swapped D (some expected) intent.candidateHead r')
    (hexpected : expected = review.binding.expectedDecisionHead) (hreview : s.journal.reviews[id]? = some review)
    (hintent : s.journal.intents[id]? = some intent) (hfinal : ¬Final review.state) :
    Keeps K G D P (some id) s { s with repository := r' } := by
  intro hs
  have hstays : Stays s.repository r' := hswap.objects
  have hbase : s.repository.refs[D]? = some review.binding.expectedDecisionHead := hexpected ▸ hswap.expected
  obtain ⟨found, hfound, hcandidate⟩ := hs.intents id intent hintent
  rw [hreview] at hfound
  cases hfound
  obtain ⟨chain, hchain⟩ := hs.chain _ hbase
  have hchain' := hchain.mono (parents_mono hstays)
  have hparents := parents_mono hstays _ _ hcandidate.parents
  have hdecided : ∀ {commit}, Decided G D { s with repository := r' } commit ↔
      commit = intent.candidateHead ∨ Decided G D s commit :=
    fun {commit} => hs.moved_iff hstays hbase hswap.new hparents
  refine ⟨?_, ?_⟩
  · exact {
      chain := fun head hhead => by
        rw [hswap.new] at hhead
        cases hhead
        exact ⟨_, .child hparents hchain'⟩
      bindings := fun other found hfound => by
        obtain ⟨hdecision, hne, hhead⟩ := hs.bindings other found hfound
        exact ⟨hdecision, hne, (hswap.of_ne (Ne.symm hne)).trans hhead⟩
      entities := hs.entities
      intents := fun other found hfound => by
        obtain ⟨review', hreview', hcandidate'⟩ := hs.intents other found hfound
        exact ⟨review', hreview', hcandidate'.mono hstays⟩
      denied := fun other found found' hfound hstate hfound' hdecision => by
        rcases hdecided.mp hdecision with heq | hdecision
        · obtain ⟨review', hreview', hcandidate'⟩ := hs.intents other found' hfound'
          obtain rfl := hs.entities other id review' review hreview' hreview (hcandidate'.entity_eq hcandidate heq)
          rw [hreview] at hfound
          cases hfound
          exact hfinal (.inr hstate)
        · exact hs.denied other found found' hfound hstate hfound' hdecision
      committed := fun other found hfound hstate => by
        obtain ⟨found', hfound', hdecision⟩ := hs.committed other found hfound hstate
        exact ⟨found', hfound', hdecided.mpr (.inr hdecision)⟩ }
  · have hfollows : Follows G D s { s with repository := r' } := {
      stays := hstays
      refs := fun name head hname hhead => (hswap.of_ne (Ne.symm hname)).trans hhead
      reviews := fun other found hfound => ⟨found, hfound, rfl, fun _ => rfl⟩
      intents := fun _ _ hfound => hfound
      decided := fun _ hdecision => hdecided.mpr (.inr hdecision) }
    exact {
      toFollows := hfollows
      others := fun _ _ _ hfound => hfound
      registered := registered_of_same rfl
      decision := .inr (.inr ⟨id, review, intent, rfl, hreview, hintent, hbase, hswap.new⟩)
      opens := hfollows.oneOpen fun name hname => hswap.of_ne (Ne.symm hname) }

/-- A ref that is not the decision ref comes to be, once no proposal is open. -/
theorem keeps_newRef {r' : Repository} {name : Text} {new : Oid} (hswap : s.repository.Swapped name none new r')
    (hname : name ≠ D) (hclosedAll : ∀ (other : Text) (head : Oid), other ≠ D → P other →
      s.repository.refs[other]? = some head → Closed G D s other head) : Keeps K G D P who s { s with repository := r' } := by
  intro hs
  have hstays : Stays s.repository r' := hswap.objects
  have hdecision : r'.refs[D]? = s.repository.refs[D]? := hswap.of_ne hname
  have hdecided : ∀ {commit}, Decided G D { s with repository := r' } commit ↔ Decided G D s commit :=
    hs.decided_iff hstays hdecision
  refine ⟨?_, ?_⟩
  · exact {
      chain := fun head hhead => by
        rw [hdecision] at hhead
        obtain ⟨chain, hchain⟩ := hs.chain head hhead
        exact ⟨chain, hchain.mono (parents_mono hstays)⟩
      bindings := fun other found hfound => by
        obtain ⟨hdecision, hne, hhead⟩ := hs.bindings other found hfound
        exact ⟨hdecision, hne, (hswap.of_ne (hswap.ne_of_found hhead)).trans hhead⟩
      entities := hs.entities
      intents := fun other found hfound => by
        obtain ⟨review', hreview', hcandidate'⟩ := hs.intents other found hfound
        exact ⟨review', hreview', hcandidate'.mono hstays⟩
      denied := fun other found found' hfound hstate hfound' => by
        rw [hdecided]
        exact hs.denied other found found' hfound hstate hfound'
      committed := fun other found hfound hstate => by
        obtain ⟨found', hfound', hdecision⟩ := hs.committed other found hfound hstate
        exact ⟨found', hfound', hdecided.mpr hdecision⟩ }
  · have hfollows : Follows G D s { s with repository := r' } := {
      stays := hstays
      refs := fun other head _ hhead => (hswap.of_ne (hswap.ne_of_found hhead)).trans hhead
      reviews := fun other found hfound => ⟨found, hfound, rfl, fun _ => rfl⟩
      intents := fun _ _ hfound => hfound
      decided := fun _ => hdecided.mpr }
    have hold : ∀ {other : Text} {head : Oid}, other ≠ D → P other → r'.refs[other]? = some head →
        ¬Closed G D { s with repository := r' } other head → other = name := by
      intro other head hother hP hhead hclosed
      by_contra hne
      rw [hswap.of_ne (Ne.symm hne)] at hhead
      exact hclosed ((hclosedAll other head hother hP hhead).mono hfollows)
    exact {
      toFollows := hfollows
      others := fun _ _ _ hfound => hfound
      registered := registered_of_same rfl
      decision := .inl hdecision
      opens := fun _ first second head head' hfirst hsecond hP hP' hhead hhead' hclosed hclosed' =>
        (hold hfirst hP hhead hclosed).trans (hold hsecond hP' hhead' hclosed').symm }

/-- The decision ref comes to be, at a commit without parents. -/
theorem keeps_bootstrap {r' : Repository} {base : Oid} (hswap : s.repository.Swapped D none base r')
    (hparents : parents G s.repository base = some []) : Keeps K G D P none s { s with repository := r' } := by
  intro hs
  have hstays : Stays s.repository r' := hswap.objects
  have hchain : Chain (parents G r') base [base] := .root (parents_mono hstays _ _ hparents)
  refine ⟨?_, ?_⟩
  · exact {
      chain := fun head hhead => by
        rw [hswap.new] at hhead
        cases hhead
        exact ⟨_, hchain⟩
      bindings := fun other found hfound => by
        obtain ⟨hdecision, hne, hhead⟩ := hs.bindings other found hfound
        exact ⟨hdecision, hne, (hswap.of_ne (Ne.symm hne)).trans hhead⟩
      entities := hs.entities
      intents := fun other found hfound => by
        obtain ⟨review', hreview', hcandidate'⟩ := hs.intents other found hfound
        exact ⟨review', hreview', hcandidate'.mono hstays⟩
      denied := fun other found found' hfound hstate hfound' hdecision => by
        obtain ⟨review', -, hcandidate'⟩ := hs.intents other found' hfound'
        obtain ⟨head, hhead, hdescends⟩ := hdecision
        rw [hswap.new] at hhead
        cases hhead
        rw [hchain.descends_iff, List.mem_singleton] at hdescends
        have hboth := hcandidate'.parents
        rw [hdescends, hparents] at hboth
        cases hboth
      committed := fun other found hfound hstate => by
        obtain ⟨found', -, head, hhead, -⟩ := hs.committed other found hfound hstate
        rw [hswap.expected] at hhead
        cases hhead }
  · have hfollows : Follows G D s { s with repository := r' } := {
      stays := hstays
      refs := fun name head hname hhead => (hswap.of_ne (Ne.symm hname)).trans hhead
      reviews := fun other found hfound => ⟨found, hfound, rfl, fun _ => rfl⟩
      intents := fun _ _ hfound => hfound
      decided := fun commit hdecision => by
        obtain ⟨head, hhead, -⟩ := hdecision
        rw [hswap.expected] at hhead
        cases hhead }
    exact {
      toFollows := hfollows
      others := fun _ _ _ hfound => hfound
      registered := registered_of_same rfl
      decision := .inr (.inl ⟨rfl, hswap.expected, base, hswap.new, parents_mono hstays _ _ hparents⟩)
      opens := hfollows.oneOpen fun name hname => hswap.of_ne (Ne.symm hname) }

end

end LpStudio.Synapse
