import LpStudio.Synapse.Invariant

/-! # A store under numbers
A SynapseGit that keeps its objects under numbers, with the first letter of a kind before the number. It relies on
nothing but the crates, and is lawful.
-/
namespace LpStudio.Synapse
open Str

namespace Numbered

def letter : ObjectKind → Char
  | .blob => 'b'
  | .record => 'r'
  | .tree => 't'
  | .commit => 'c'

def kindOf (oid : Oid) : Option ObjectKind :=
  [ObjectKind.blob, .record, .tree, .commit].find? fun kind => oid.head? = some (letter kind)

/-- An object goes under the number of the objects there are. -/
def put (kind : ObjectKind) (object : Object) (r : Repository) : Except Unit Oid × Repository :=
  let oid := letter kind :: List.replicate r.objects.size '.'
  if oid ∈ r.objects then (.error (), r) else (.ok oid, { r with objects := r.objects.insert oid object })

def putObject (json : Json) (r : Repository) : Except Unit Oid × Repository :=
  match objectKind json with
  | some kind => put kind (.value json) r
  | none => (.error (), r)

/-- The blobs of a manifest without directories, with the entries of their tree. -/
def putFiles : RegularFileManifest → Repository → Except Unit (List (Text × Oid)) × Repository
  | [], r => (.ok [], r)
  | file :: files, r =>
    match put .blob (.blob file.2) r with
    | (.error _, r) => (.error (), r)
    | (.ok oid, r) =>
      match putFiles files r with
      | (.error _, r) => (.error (), r)
      | (.ok entries, r) => (.ok ((file.1, oid) :: entries), r)

def mapRegularFiles (files : RegularFileManifest) (r : Repository) : Except Unit MappedFiles × Repository :=
  match putFiles files r with
  | (.error _, r) => (.error (), r)
  | (.ok entries, r) =>
    match putObject (manifestTree (entries.map fun file =>
        (file.1, object [("entry_kind", str "blob"), ("oid", .str file.2)]))) r with
    | (.error _, r) => (.error (), r)
    | (.ok tree, r) => (.ok ⟨tree, entries.map (·.2)⟩, r)

/-- A ref is swapped from what it is expected to be at. -/
def swap {ε α : Type} (name : Text) (expected : Option Oid) (new : Oid) (conflict : ε) (answer : α) (r : Repository) :
    Except ε α × Repository :=
  if r.refs[name]? = expected then (.ok answer, { r with refs := r.refs.insert name new }) else (.error conflict, r)

def publish {ε : Type} (stale refused : ε) (decision : HumanDecision) (r : Repository) :
    Except ε HumanDecisionReceipt × Repository :=
  match feedbackDisposition r decision.feedbackOid with
  | none => (.error refused, r)
  | some disposition =>
    swap decision.decisionRef (some decision.expectedDecisionHead) decision.candidateHead stale
      ⟨decision.decisionRef, some decision.expectedDecisionHead, decision.candidateHead, decision.proposalHead,
        decision.feedbackOid, disposition⟩ r

def createOrGetReview (K : Crates) (binding : ReviewBinding) (j : Journal) :
    Except JournalError (Text × Review) × Journal :=
  match j.reviews.toList.find? (·.2.binding = binding) with
  | some review => (.ok review, j)
  | none =>
    let id := List.replicate (j.reviews.size + 1) 'r'
    if id ∈ j.reviews ∨ j.reviews.toList.any fun other =>
        entityId K other.1 "feedback".toList = entityId K id "feedback".toList then
      (.error .random, j)
    else (.ok (id, ⟨binding, .pendingReview⟩), { j with reviews := j.reviews.insert id ⟨binding, .pendingReview⟩ })

def registerDecisionIntent (id : Text) (request : DecisionIntentRequest) (j : Journal) :
    Except JournalError DecisionIntent × Journal :=
  let intent : DecisionIntent := ⟨request.candidateHead, request.feedbackOid, request.expectedDecisionHead⟩
  match j.intents[id]? with
  | some existing => (if existing = intent then .ok existing else .error .decisionIntentExists, j)
  | none =>
    if id ∈ j.reviews then (.ok intent, { j with intents := j.intents.insert id intent })
    else (.error .reviewNotFound, j)

def transitionReviewState (id : Text) (initial target : ReviewState) (j : Journal) :
    Except JournalError ReviewState × Journal :=
  match j.reviews[id]? with
  | none => (.error .reviewNotFound, j)
  | some review =>
    if review.state = initial then
      (.ok target, { j with reviews := j.reviews.modify id fun review => { review with state := target } })
    else (.error (.stateConflict review.state), j)

end Numbered

def numbered (K : Crates) : SynapseGit where
  parseOid := Numbered.kindOf
  canonicalBytes json := encode json.render
  canonicalize bytes := some bytes
  artifactManifestSha256 files := K.sha256 (files.flatMap fun file => encode file.1 ++ file.2)
  fromEntries entries _ := some entries
  errorCode
    | .core code => code
    | .refConflict => "ref_conflict".toList
    | .staleBase => "stale_base".toList
    | _ => "refused".toList
  putObject := Numbered.putObject
  putBlob bytes := Numbered.put .blob (.blob bytes)
  mapRegularFiles := Numbered.mapRegularFiles
  validateHead oid r := Numbered.kindOf oid = some .commit ∧ oid ∈ r.objects
  updateRef name new := Numbered.swap name none new "ref_conflict".toList ()
  prepareAi _ _ := .ok ()
  executeAndPublishAi proposal := Numbered.swap proposal.proposalRef none proposal.proposalHead .refConflict
    ⟨proposal.proposalRef, none, proposal.proposalHead, proposal.activityOid⟩
  prepareHumanDecision _ _ := .ok ()
  publishHumanDecision := Numbered.publish .staleBase .executionFailed
  publishDecision := Numbered.publish "ref_conflict".toList "refused".toList
  parseReviewId _ := .ok ()
  newBinding _ := .ok ()
  createOrGetReview := Numbered.createOrGetReview K
  registerDecisionIntent := Numbered.registerDecisionIntent
  transitionReviewState := Numbered.transitionReviewState

theorem Repository.Grows.refl (r : Repository) : r.Grows r := ⟨fun _ _ h => h, rfl⟩

theorem Repository.Grows.trans {r r' r'' : Repository} (h : r.Grows r') (h' : r'.Grows r'') : r.Grows r'' :=
  ⟨fun oid object hobject => h'.objects oid object (h.objects oid object hobject), h'.refs.trans h.refs⟩

namespace Numbered

variable {K : Crates} {r r' : Repository}

theorem insert_grows {oid : Oid} {object : Object} (h : oid ∉ r.objects) :
    r.Grows { r with objects := r.objects.insert oid object } where
  objects other found hfound := by
    have hne : oid ≠ other := by
      rintro rfl
      exact h (Std.ExtTreeMap.mem_iff_isSome_getElem?.mpr (by rw [hfound]; rfl))
    exact (getElem?_insert_ne hne).trans hfound
  refs := rfl

theorem put_grows (kind : ObjectKind) (object : Object) (r : Repository) : r.Grows (put kind object r).2 := by
  unfold put
  dsimp only
  split
  · exact .refl r
  · next hfresh => exact insert_grows hfresh

theorem put_ok {kind : ObjectKind} {object : Object} {oid : Oid} (h : (put kind object r).1 = .ok oid) :
    (put kind object r).2.objects[oid]? = some object ∧ kindOf oid = some kind := by
  unfold put at h ⊢
  dsimp only at h ⊢
  split at h
  · cases h
  · next hfresh =>
    rw [if_neg hfresh]
    cases h
    refine ⟨Std.ExtTreeMap.getElem?_insert_self, ?_⟩
    unfold kindOf
    cases kind <;> rfl

theorem putObject_lawful (json : Json) (r : Repository) : r.Grows (putObject json r).2 ∧
    ∀ oid, (putObject json r).1 = .ok oid →
      (putObject json r).2.objects[oid]? = some (.value json) ∧ kindOf oid = objectKind json := by
  unfold putObject
  split
  · next kind hkind =>
    refine ⟨put_grows kind _ r, fun oid h => ?_⟩
    rw [hkind]
    exact put_ok h
  · exact ⟨.refl r, nofun⟩

theorem putFiles_grows (files : RegularFileManifest) (r : Repository) : r.Grows (putFiles files r).2 := by
  induction files generalizing r with
  | nil => exact .refl r
  | cons file files ih =>
    have hput := put_grows .blob (.blob file.2) r
    unfold putFiles
    split
    · next heq =>
      rw [heq] at hput
      exact hput
    · next oid r' heq =>
      rw [heq] at hput
      have hfiles := ih r'
      split
      · next heq' =>
        rw [heq'] at hfiles
        exact hput.trans hfiles
      · next heq' =>
        rw [heq'] at hfiles
        exact hput.trans hfiles

theorem mapRegularFiles_grows (files : RegularFileManifest) (r : Repository) :
    r.Grows (mapRegularFiles files r).2 := by
  have hfiles := putFiles_grows files r
  unfold mapRegularFiles
  split
  · next heq =>
    rw [heq] at hfiles
    exact hfiles
  · next entries r' heq =>
    rw [heq] at hfiles
    have htree := (putObject_lawful (manifestTree (entries.map fun file =>
      (file.1, object [("entry_kind", str "blob"), ("oid", .str file.2)]))) r').1
    split
    · next heq' =>
      rw [heq'] at htree
      exact hfiles.trans htree
    · next heq' =>
      rw [heq'] at htree
      exact hfiles.trans htree

section
variable {ε α : Type} {name : Text} {expected : Option Oid} {new : Oid} {conflict : ε} {answer : α}

theorem swap_lawful {result : Except ε α} (h : swap name expected new conflict answer r = (result, r')) :
    (result = .ok answer ∧ r.Swapped name expected new r') ∨ ((∃ e, result = .error e) ∧ r.Grows r') := by
  unfold swap at h
  split at h
  · next hexpected =>
    cases h
    exact .inl ⟨rfl, fun _ _ h => h, hexpected, rfl⟩
  · cases h
    exact .inr ⟨⟨conflict, rfl⟩, .refl r⟩

theorem publish_lawful {stale refused : ε} {decision : HumanDecision} {result : Except ε HumanDecisionReceipt}
    (h : publish stale refused decision r = (result, r')) :
    ((∃ disposition, result = .ok ⟨decision.decisionRef, some decision.expectedDecisionHead, decision.candidateHead,
        decision.proposalHead, decision.feedbackOid, disposition⟩ ∧
        feedbackDisposition r decision.feedbackOid = some disposition) ∧
      r.Swapped decision.decisionRef (some decision.expectedDecisionHead) decision.candidateHead r') ∨
      ((∃ e, result = .error e) ∧ r.Grows r') := by
  unfold publish at h
  split at h
  · cases h
    exact .inr ⟨⟨refused, rfl⟩, .refl r⟩
  · next disposition hdisposition =>
    rcases swap_lawful h with ⟨hresult, hswap⟩ | herror
    · exact .inl ⟨⟨disposition, hresult, hdisposition⟩, hswap⟩
    · exact .inr herror

end

theorem createOrGetReview_lawful {binding : ReviewBinding} {j j' : Journal}
    {answer : Except JournalError (Text × Review)} (h : createOrGetReview K binding j = (answer, j')) :
    (j' = j ∧ ∀ id review, answer = .ok (id, review) → j.reviews[id]? = some review) ∨
      ∃ id, answer = .ok (id, ⟨binding, .pendingReview⟩) ∧ id ∉ j.reviews ∧
        (∀ other ∈ j.reviews, entityId K other "feedback".toList ≠ entityId K id "feedback".toList) ∧
        j' = { j with reviews := j.reviews.insert id ⟨binding, .pendingReview⟩ } := by
  unfold createOrGetReview at h
  split at h
  · next found hfound =>
    cases h
    refine .inl ⟨rfl, fun id review heq => ?_⟩
    cases heq
    exact Std.ExtTreeMap.mem_toList_iff_getElem?_eq_some.mp (List.mem_of_find?_eq_some hfound)
  · dsimp only at h
    split at h
    · cases h
      exact .inl ⟨rfl, nofun⟩
    · next hfresh =>
      cases h
      rw [not_or] at hfresh
      refine .inr ⟨_, rfl, hfresh.1, fun other hother heq => hfresh.2 ?_, rfl⟩
      obtain ⟨review, hreview⟩ := Option.isSome_iff_exists.mp (Std.ExtTreeMap.mem_iff_isSome_getElem?.mp hother)
      exact List.any_eq_true.mpr ⟨(other, review), Std.ExtTreeMap.mem_toList_iff_getElem?_eq_some.mpr hreview,
        decide_eq_true heq⟩

theorem registerDecisionIntent_lawful {id : Text} {request : DecisionIntentRequest} {j j' : Journal}
    {answer : Except JournalError DecisionIntent} (h : registerDecisionIntent id request j = (answer, j')) :
    (j' = j ∧ ∀ intent, answer = .ok intent → j.intents[id]? = some intent) ∨
      ∃ intent, answer = .ok intent ∧ id ∈ j.reviews ∧ id ∉ j.intents ∧
        intent = ⟨request.candidateHead, request.feedbackOid, request.expectedDecisionHead⟩ ∧
        j' = { j with intents := j.intents.insert id intent } := by
  unfold registerDecisionIntent at h
  dsimp only at h
  split at h
  · next existing hexisting =>
    cases h
    refine .inl ⟨rfl, fun intent heq => ?_⟩
    split at heq
    · cases heq
      exact hexisting
    · cases heq
  · next hnone =>
    split at h
    · next hmem =>
      cases h
      refine .inr ⟨_, rfl, hmem, fun h => ?_, rfl, rfl⟩
      rw [Std.ExtTreeMap.mem_iff_isSome_getElem?, hnone] at h
      cases h
    · cases h
      exact .inl ⟨rfl, nofun⟩

theorem transitionReviewState_lawful {id : Text} {initial target : ReviewState} {j j' : Journal}
    {answer : Except JournalError ReviewState} (h : transitionReviewState id initial target j = (answer, j')) :
    (j' = j ∧ ∃ e, answer = .error e ∧ ∀ actual, e = .stateConflict actual →
        (j.reviews[id]?).map (·.state) = some actual) ∨
      (answer = .ok target ∧ (j.reviews[id]?).map (·.state) = some initial ∧
        j' = { j with reviews := j.reviews.modify id fun review => { review with state := target } }) := by
  unfold transitionReviewState at h
  split at h
  · cases h
    exact .inl ⟨rfl, _, rfl, nofun⟩
  · next review hreview =>
    split at h
    · next hstate =>
      cases h
      exact .inr ⟨rfl, by rw [hreview, Option.map_some, hstate], rfl⟩
    · cases h
      refine .inl ⟨rfl, _, rfl, fun actual heq => ?_⟩
      cases heq
      rw [hreview, Option.map_some]

end Numbered

theorem numbered_lawful (K : Crates) : (numbered K).Lawful K where
  putObject := by
    rintro json r answer r' h
    obtain rfl := congrArg Prod.fst h
    obtain rfl := congrArg Prod.snd h
    exact Numbered.putObject_lawful json r
  putBlob := by
    rintro bytes r answer r' h
    obtain rfl := congrArg Prod.snd h
    exact Numbered.put_grows _ _ r
  mapRegularFiles := by
    rintro files r answer r' h
    obtain rfl := congrArg Prod.snd h
    exact Numbered.mapRegularFiles_grows files r
  updateRef h := Numbered.swap_lawful h
  executeAndPublishAi h := (Numbered.swap_lawful h).imp_left fun h => ⟨⟨_, h.1⟩, h.2⟩
  publishHumanDecision h := Numbered.publish_lawful h
  publishDecision h := (Numbered.publish_lawful h).imp_left fun h => ⟨⟨_, h.1.choose_spec.1⟩, h.2⟩
  createOrGetReview h := Numbered.createOrGetReview_lawful h
  registerDecisionIntent h := Numbered.registerDecisionIntent_lawful h
  transitionReviewState h := Numbered.transitionReviewState_lawful h

end LpStudio.Synapse
