import LpStudio.Lib.Run
import LpStudio.Server.AiAttempts

/-! # Every claim is settled at most once
Handlers call the table in any order and with any generation. What they can do to the active claims is small: a
call leaves them alone, drops one of them, or adds one under the next generation. So a generation that is no
longer active never becomes active again.
-/
namespace LpStudio.Server.AiAttempts
open Str Run

inductive Call where
  | queue (projectId attemptId : Text)
  | claim (projectId attemptId : Text)
  | cancel (projectId attemptId : Text)
  | complete (projectId attemptId : Text) (generation : ℕ) (status : AttemptStatus)
  | release (projectId attemptId : Text) (generation : ℕ)
  | removeProject (projectId : Text)
  | removeQueuedProject (projectId : Text)
  deriving DecidableEq

inductive Reply where
  | queued (result : Except ClaimError Unit)
  | claimed (result : Except ClaimError ℕ)
  | cancelled (result : CancelResult)
  | completed (result : CompleteResult)
  | released (result : Bool)
  | removed

def perform (s : AiAttempts) : Call → Reply × AiAttempts
  | .queue projectId attemptId => (s.queue projectId attemptId).map .queued id
  | .claim projectId attemptId => (s.claim projectId attemptId).map .claimed id
  | .cancel projectId attemptId => (s.cancel projectId attemptId).map .cancelled id
  | .complete projectId attemptId generation status =>
    (s.complete projectId attemptId generation status).map .completed id
  | .release projectId attemptId generation => (s.release projectId attemptId generation).map .released id
  | .removeProject projectId => (.removed, s.removeProject projectId)
  | .removeQueuedProject projectId => (.removed, s.removeQueuedProject projectId)

/-- A `complete` that recorded the generation, or a `release` that released it. -/
def settles (generation : ℕ) (e : Event AiAttempts Call Reply) : Bool :=
  match e.call, e.reply with
  | .complete _ _ g _, .completed .recorded => g == generation
  | .release _ _ g, .released true => g == generation
  | _, _ => false

/-! ## What a call does to the active claims -/

inductive Moves (s s' : AiAttempts) : Prop where
  | same (hactive : s'.activeByProject = s.activeByProject) (hnext : s'.nextGeneration = s.nextGeneration)
  | drop (projectId : Text) (hactive : s'.activeByProject = s.activeByProject.erase projectId)
      (hnext : s'.nextGeneration = s.nextGeneration)
  | claim (projectId attemptId : Text)
      (hactive : s'.activeByProject = s.activeByProject.insert projectId ⟨attemptId, s.nextGeneration + 1⟩)
      (hnext : s'.nextGeneration = s.nextGeneration + 1)

@[simp] theorem recordTerminal_active (s : AiAttempts) (projectId attemptId : Text) (status : AttemptStatus) :
    (s.recordTerminal projectId attemptId status).activeByProject = s.activeByProject := by
  unfold recordTerminal
  split <;> rfl

@[simp] theorem recordTerminal_next (s : AiAttempts) (projectId attemptId : Text) (status : AttemptStatus) :
    (s.recordTerminal projectId attemptId status).nextGeneration = s.nextGeneration := by
  unfold recordTerminal
  split <;> rfl

/-- A `complete` only acts on the claim that its project, attempt and generation name. -/
theorem complete_cases (s : AiAttempts) (projectId attemptId : Text) (generation : ℕ) (status : AttemptStatus) :
    (s.activeByProject[projectId]? = some ⟨attemptId, generation⟩ ∧
      (s.complete projectId attemptId generation status).2.activeByProject = s.activeByProject.erase projectId ∧
      (s.complete projectId attemptId generation status).2.nextGeneration = s.nextGeneration) ∨
    (s.activeByProject[projectId]? ≠ some ⟨attemptId, generation⟩ ∧
      (s.complete projectId attemptId generation status).1 ≠ .recorded ∧
      (s.complete projectId attemptId generation status).2 = s) := by
  unfold complete
  cases hactive : s.activeByProject[projectId]? with
  | none =>
    refine Or.inr ⟨by simp, ?_, rfl⟩
    dsimp only
    split
    · exact fun h => by cases h
    · exact fun h => by cases h
  | some active =>
    by_cases hother : active.attemptId ≠ attemptId ∨ active.generation ≠ generation
    · refine Or.inr ⟨fun h => ?_, ?_, ?_⟩
      · obtain rfl := Option.some.inj h
        rcases hother with hother | hother
        · exact hother rfl
        · exact hother rfl
      · simp [if_pos hother]
      · simp [if_pos hother]
    · obtain ⟨rfl, rfl⟩ : active.attemptId = attemptId ∧ active.generation = generation := by
        simpa only [not_or, not_not] using hother
      refine Or.inl ⟨rfl, ?_, ?_⟩
      · simp only [if_neg hother]
        split <;> simp
      · simp only [if_neg hother]
        split <;> simp

theorem release_cases (s : AiAttempts) (projectId attemptId : Text) (generation : ℕ) :
    (s.activeByProject[projectId]? = some ⟨attemptId, generation⟩ ∧
      (s.release projectId attemptId generation).2.activeByProject = s.activeByProject.erase projectId ∧
      (s.release projectId attemptId generation).2.nextGeneration = s.nextGeneration) ∨
    (s.activeByProject[projectId]? ≠ some ⟨attemptId, generation⟩ ∧
      (s.release projectId attemptId generation).1 = false ∧
      (s.release projectId attemptId generation).2 = s) := by
  unfold release isActiveGeneration
  by_cases hactive : s.activeByProject[projectId]? = some ⟨attemptId, generation⟩
  · refine Or.inl ⟨hactive, ?_⟩
    simp [hactive]
  · refine Or.inr ⟨hactive, ?_⟩
    simp [hactive]

/-- A `cancel` that finds its attempt active drops that claim. -/
theorem cancel_cases (s : AiAttempts) (projectId attemptId : Text) :
    (∃ generation, s.activeByProject[projectId]? = some ⟨attemptId, generation⟩ ∧
      (s.cancel projectId attemptId).2.activeByProject = s.activeByProject.erase projectId ∧
      (s.cancel projectId attemptId).2.nextGeneration = s.nextGeneration) ∨
    (((s.cancel projectId attemptId).1 = .cancelled →
        ∀ generation, s.activeByProject[projectId]? ≠ some ⟨attemptId, generation⟩) ∧
      (s.cancel projectId attemptId).2.activeByProject = s.activeByProject ∧
      (s.cancel projectId attemptId).2.nextGeneration = s.nextGeneration) := by
  unfold cancel
  by_cases hterminal : s.terminalStatus projectId attemptId = some .cancelled
  · refine Or.inr ?_
    simp [hterminal]
  rw [if_neg hterminal]
  cases hactive : s.activeByProject[projectId]?.filter (·.attemptId == attemptId) with
  | some active =>
    obtain ⟨hheld, hattempt⟩ := Option.filter_eq_some_iff.mp hactive
    obtain rfl := eq_of_beq hattempt
    exact Or.inl ⟨active.generation, hheld, by simp, by simp⟩
  | none =>
    refine Or.inr ⟨fun _ generation h => ?_, ?_, ?_⟩
    · rw [h] at hactive
      simp at hactive
    · dsimp only
      split <;> simp
    · dsimp only
      split <;> simp

theorem perform_moves (s : AiAttempts) (c : Call) : Moves s (s.perform c).2 := by
  cases c with
  | queue projectId attemptId =>
    refine .same ?_ ?_ <;>
    · simp only [perform, queue]
      split <;> rfl
  | claim projectId attemptId =>
    simp only [perform, claim]
    split
    · exact .same rfl rfl
    split
    · exact .same rfl rfl
    split
    · exact .same rfl rfl
    · exact .claim projectId attemptId rfl rfl
  | cancel projectId attemptId =>
    rcases s.cancel_cases projectId attemptId with ⟨_, -, hactive, hnext⟩ | ⟨-, hactive, hnext⟩
    · exact .drop projectId hactive hnext
    · exact .same hactive hnext
  | complete projectId attemptId generation status =>
    rcases s.complete_cases projectId attemptId generation status with ⟨-, hactive, hnext⟩ | ⟨-, -, h⟩
    · exact .drop projectId hactive hnext
    · exact .same (congrArg _ h) (congrArg _ h)
  | release projectId attemptId generation =>
    rcases s.release_cases projectId attemptId generation with ⟨-, hactive, hnext⟩ | ⟨-, -, h⟩
    · exact .drop projectId hactive hnext
    · exact .same (congrArg _ h) (congrArg _ h)
  | removeProject projectId => exact .drop projectId rfl rfl
  | removeQueuedProject projectId => exact .same rfl rfl

/-! ## Generations -/

/-- Active claims have been claimed, and no two of them share a generation. -/
structure Distinct (s : AiAttempts) : Prop where
  claimed : ∀ (projectId : Text) (active : ActiveAttempt), s.activeByProject[projectId]? = some active →
    active.generation ≤ s.nextGeneration
  apart : ∀ (p q : Text) (a b : ActiveAttempt), s.activeByProject[p]? = some a → s.activeByProject[q]? = some b →
    a.generation = b.generation → p = q

/-- The generation was claimed and its claim is no longer active. -/
structure Spent (generation : ℕ) (s : AiAttempts) : Prop where
  claimed : generation ≤ s.nextGeneration
  inactive : ∀ (projectId : Text) (active : ActiveAttempt), s.activeByProject[projectId]? = some active →
    active.generation ≠ generation

theorem distinct_start : Distinct start := by
  refine ⟨fun _ _ h => ?_, fun _ _ _ _ h => ?_⟩ <;>
  · simp [start] at h

theorem getElem?_of_erase {m : Std.ExtTreeMap Text ActiveAttempt compare} {p q : Text} {a : ActiveAttempt}
    (h : (m.erase p)[q]? = some a) : q ≠ p ∧ m[q]? = some a := by
  rw [Std.ExtTreeMap.getElem?_erase] at h
  split at h
  · cases h
  · rename_i hne
    exact ⟨fun heq => hne (heq ▸ Std.ReflCmp.compare_self), h⟩

theorem getElem?_of_insert {m : Std.ExtTreeMap Text ActiveAttempt compare} {p q : Text} {a b : ActiveAttempt}
    (h : (m.insert p b)[q]? = some a) : (q = p ∧ a = b) ∨ m[q]? = some a := by
  rw [Std.ExtTreeMap.getElem?_insert] at h
  split at h
  · rename_i heq
    exact Or.inl ⟨(Std.LawfulEqCmp.eq_of_compare heq).symm, (Option.some.inj h).symm⟩
  · exact Or.inr h

theorem distinct_perform (s : AiAttempts) (c : Call) (hs : Distinct s) : Distinct (s.perform c).2 := by
  rcases s.perform_moves c with ⟨hactive, hnext⟩ | ⟨projectId, hactive, hnext⟩ | ⟨projectId, attemptId, hactive, hnext⟩
  · constructor
    · rw [hactive, hnext]
      exact hs.claimed
    · rw [hactive]
      exact hs.apart
  · constructor
    · rw [hactive, hnext]
      exact fun p a h => hs.claimed p a (getElem?_of_erase h).2
    · rw [hactive]
      exact fun p q a b hp hq => hs.apart p q a b (getElem?_of_erase hp).2 (getElem?_of_erase hq).2
  · constructor
    · rw [hactive, hnext]
      intro p a h
      rcases getElem?_of_insert h with ⟨-, rfl⟩ | h
      · exact le_rfl
      · exact Nat.le_succ_of_le (hs.claimed p a h)
    · rw [hactive]
      intro p q a b hp hq hab
      rcases getElem?_of_insert hp with ⟨rfl, rfl⟩ | hp'
      · rcases getElem?_of_insert hq with ⟨rfl, -⟩ | hq'
        · rfl
        · exact absurd (hab ▸ hs.claimed q b hq') (Nat.not_succ_le_self _)
      · rcases getElem?_of_insert hq with ⟨rfl, rfl⟩ | hq'
        · exact absurd (hab.symm ▸ hs.claimed p a hp') (Nat.not_succ_le_self _)
        · exact hs.apart p q a b hp' hq' hab

theorem spent_perform {generation : ℕ} (s : AiAttempts) (c : Call) (hs : Spent generation s) :
    Spent generation (s.perform c).2 := by
  rcases s.perform_moves c with ⟨hactive, hnext⟩ | ⟨projectId, hactive, hnext⟩ | ⟨projectId, attemptId, hactive, hnext⟩
  · exact ⟨hnext ▸ hs.claimed, hactive ▸ hs.inactive⟩
  · refine ⟨hnext ▸ hs.claimed, ?_⟩
    rw [hactive]
    exact fun p a h => hs.inactive p a (getElem?_of_erase h).2
  · refine ⟨hnext ▸ Nat.le_succ_of_le hs.claimed, ?_⟩
    rw [hactive]
    intro p a h
    rcases getElem?_of_insert h with ⟨-, rfl⟩ | h
    · exact fun heq => absurd (heq ▸ hs.claimed) (Nat.not_succ_le_self _)
    · exact hs.inactive p a h

/-- Dropping the claim that holds a generation spends it. -/
theorem spent_of_drop {s s' : AiAttempts} {projectId attemptId : Text} {generation : ℕ} (hs : Distinct s)
    (hheld : s.activeByProject[projectId]? = some ⟨attemptId, generation⟩)
    (hactive : s'.activeByProject = s.activeByProject.erase projectId)
    (hnext : s'.nextGeneration = s.nextGeneration) : Spent generation s' := by
  constructor
  · rw [hnext]
    exact hs.claimed _ _ hheld
  · rw [hactive]
    intro p a h heq
    obtain ⟨hne, h⟩ := getElem?_of_erase h
    exact hne (hs.apart p projectId a _ h hheld heq)

/-! ## Settling -/

/-- What settles a generation held its claim and dropped it. -/
theorem settles_drops {s : AiAttempts} {c : Call} {generation : ℕ}
    (h : settles generation ⟨s, c, (s.perform c).1, (s.perform c).2⟩ = true) :
    ∃ projectId attemptId, s.activeByProject[projectId]? = some ⟨attemptId, generation⟩ ∧
      (s.perform c).2.activeByProject = s.activeByProject.erase projectId ∧
      (s.perform c).2.nextGeneration = s.nextGeneration := by
  cases c with
  | complete projectId attemptId g status =>
    rcases s.complete_cases projectId attemptId g status with ⟨hheld, hactive, hnext⟩ | ⟨-, hnot, -⟩
    · simp only [settles, perform, Prod.map] at h
      split at h
      · rename_i heq _
        cases heq
        obtain rfl := eq_of_beq h
        exact ⟨projectId, attemptId, hheld, hactive, hnext⟩
      · rename_i heq _
        cases heq
      · cases h
    · simp only [settles, perform, Prod.map] at h
      split at h
      · rename_i _ heq
        exact absurd (Reply.completed.inj heq) hnot
      · rename_i heq _
        cases heq
      · cases h
  | release projectId attemptId g =>
    rcases s.release_cases projectId attemptId g with ⟨hheld, hactive, hnext⟩ | ⟨-, hnot, -⟩
    · simp only [settles, perform, Prod.map] at h
      split at h
      · rename_i heq _
        cases heq
      · rename_i heq _
        cases heq
        obtain rfl := eq_of_beq h
        exact ⟨projectId, attemptId, hheld, hactive, hnext⟩
      · cases h
    · simp [settles, perform, Prod.map, hnot] at h
  | _ => simp [settles] at h

theorem not_settles_of_spent {s : AiAttempts} {c : Call} {generation : ℕ} (hs : Spent generation s) :
    settles generation ⟨s, c, (s.perform c).1, (s.perform c).2⟩ = false := by
  refine Bool.eq_false_of_not_eq_true fun h => ?_
  obtain ⟨projectId, attemptId, hheld, -⟩ := settles_drops h
  exact hs.inactive _ _ hheld rfl

theorem spent_of_cancel {s : AiAttempts} {projectId attemptId : Text} {generation : ℕ} (hs : Distinct s)
    (hheld : s.activeByProject[projectId]? = some ⟨attemptId, generation⟩)
    (hcancelled : (s.cancel projectId attemptId).1 = .cancelled) :
    Spent generation (s.cancel projectId attemptId).2 := by
  rcases s.cancel_cases projectId attemptId with ⟨g, hg, hactive, hnext⟩ | ⟨hnot, -⟩
  · exact spent_of_drop hs hheld hactive hnext
  · exact absurd hheld (hnot hcancelled generation)

/-- In every run from the empty table each generation is settled at most once, and never recorded after a cancel
that hit its claim. What carries any other generation changes nothing. -/
theorem attempts_settled :
    (∀ calls generation, (events perform start calls).countP (settles generation) ≤ 1) ∧
    (∀ earlier later (projectId attemptId : Text) generation,
      (final perform start earlier).activeByProject[projectId]? = some ⟨attemptId, generation⟩ →
      ((final perform start earlier).cancel projectId attemptId).1 = .cancelled →
      ∀ e ∈ events perform ((final perform start earlier).cancel projectId attemptId).2 later,
        ∀ p a status, e.call = .complete p a generation status → e.reply ≠ .completed .recorded) ∧
    (∀ (s : AiAttempts) (projectId attemptId : Text) generation status,
      (∀ active : ActiveAttempt, s.activeByProject[projectId]? = some active → active.generation ≠ generation) →
      (s.complete projectId attemptId generation status).2 = s ∧
      (s.release projectId attemptId generation).2 = s) := by
  refine ⟨fun calls generation => ?_, ?_, ?_⟩
  · refine countP_events_le_one distinct_perform (fun s c _ hsp => spent_perform s c hsp)
      (fun s c _ hsp => not_settles_of_spent hsp) (fun s c hs hhit => ?_) calls distinct_start
    obtain ⟨projectId, attemptId, hheld, hactive, hnext⟩ := settles_drops hhit
    exact spent_of_drop hs hheld hactive hnext
  · intro earlier later projectId attemptId generation hheld hcancelled e he p a status hcall hreply
    have hdistinct := final_inv distinct_perform earlier distinct_start
    have hspent := spent_of_cancel hdistinct hheld hcancelled
    obtain ⟨hbefore, hstep, -⟩ := events_inv spent_perform hspent e he
    have hnot := not_settles_of_spent (c := e.call) hbefore
    rw [← hstep, hreply, hcall] at hnot
    simp [settles] at hnot
  · intro s projectId attemptId generation status hother
    constructor
    · rcases s.complete_cases projectId attemptId generation status with ⟨hheld, -⟩ | ⟨-, -, h⟩
      · exact absurd rfl (hother _ hheld)
      · exact h
    · rcases s.release_cases projectId attemptId generation with ⟨hheld, -⟩ | ⟨-, -, h⟩
      · exact absurd rfl (hother _ hheld)
      · exact h

/-- The attempt is cancelled, its record removed, its id queued and claimed again: the first generation stays
without effect. -/
theorem attempts_settled_reclaimed :
    ∀ e ∈ events perform ((final perform start [.queue ['p'] ['a'], .claim ['p'] ['a']]).cancel ['p'] ['a']).2
      [.removeProject ['p'], .queue ['p'] ['a'], .claim ['p'] ['a'], .complete ['p'] ['a'] 1 .proposalReady],
      ∀ p a status, e.call = .complete p a 1 status → e.reply ≠ .completed .recorded :=
  attempts_settled.2.1 _ _ ['p'] ['a'] 1 (by decide) (by decide)

end LpStudio.Server.AiAttempts
