import LpStudio.Server.Settlement

/-! # The three tables of the attempts
No attempt is finished and active, or finished and queued, and no claim that is still active has been signalled. So an
attempt that shows as cancelled is a finished one, and what `complete` answers for it depends on its project alone.
-/
namespace LpStudio.Server
open Str Run

def TerminalAttempt.key (entry : TerminalAttempt) : Text × Text := (entry.projectId, entry.attemptId)

namespace AiAttempts

def terminalKeys (s : AiAttempts) : List (Text × Text) := s.terminal.map (·.key)

structure Registry (s : AiAttempts) : Prop extends Distinct s where
  bounded : s.terminal.length ≤ maxTerminalAttempts
  keys : s.terminalKeys.Nodup
  active : ∀ (projectId : Text) (active : ActiveAttempt), s.activeByProject[projectId]? = some active →
    (projectId, active.attemptId) ∉ s.terminalKeys
  queued : ∀ key ∈ s.queued, key ∉ s.terminalKeys
  unsignalled : ∀ (projectId : Text) (active : ActiveAttempt), s.activeByProject[projectId]? = some active →
    active.generation ∉ s.signalled
  signalled : ∀ generation ∈ s.signalled, generation ≤ s.nextGeneration

theorem registry_start : Registry start where
  toDistinct := distinct_start
  bounded := Nat.zero_le _
  keys := List.nodup_nil
  active _ _ _ h := by cases h
  queued _ h := by cases h
  unsignalled _ _ _ h := by cases h
  signalled _ h := by cases h

/-! ## The finished attempts -/

section
variable {s : AiAttempts} {projectId attemptId : Text} {status : AttemptStatus}

theorem key_beq (entry : TerminalAttempt) :
    (entry.projectId == projectId && entry.attemptId == attemptId) = true ↔ entry.key = (projectId, attemptId) := by
  rw [Bool.and_eq_true, beq_iff_eq, beq_iff_eq, TerminalAttempt.key, Prod.mk.injEq]

theorem terminalStatus_isSome :
    (s.terminalStatus projectId attemptId).isSome = true ↔ (projectId, attemptId) ∈ s.terminalKeys := by
  rw [terminalStatus, Option.isSome_map, List.find?_isSome, terminalKeys, List.mem_map]
  simp only [List.mem_reverse, key_beq]

theorem any_key : (s.terminal.any fun entry => entry.projectId == projectId && entry.attemptId == attemptId) = true ↔
    (projectId, attemptId) ∈ s.terminalKeys := by
  rw [List.any_eq_true, terminalKeys, List.mem_map]
  simp only [key_beq]

theorem restatus_keys (l : List TerminalAttempt) :
    (restatus projectId attemptId status l).map (·.key) = l.map (·.key) := by
  induction l with
  | nil => rfl
  | cons entry rest ih =>
    rw [restatus]
    split
    · rfl
    · rw [List.map_cons, List.map_cons, ih]

/-- What is recorded stands among the finished attempts, of which the oldest may go. -/
theorem recordTerminal_keys (s : AiAttempts) (projectId attemptId : Text) (status : AttemptStatus) :
    ((projectId, attemptId) ∈ s.terminalKeys ∧
      (s.recordTerminal projectId attemptId status).terminalKeys = s.terminalKeys) ∨
    ((projectId, attemptId) ∉ s.terminalKeys ∧ ∃ kept : List TerminalAttempt, kept.Sublist s.terminal ∧
      (s.terminal.length = maxTerminalAttempts → kept = s.terminal.tail) ∧
      (s.recordTerminal projectId attemptId status).terminal = kept ++ [⟨projectId, attemptId, status⟩]) := by
  unfold recordTerminal
  by_cases h : (projectId, attemptId) ∈ s.terminalKeys
  · refine Or.inl ⟨h, ?_⟩
    simp only [any_key.mpr h, ↓reduceIte, terminalKeys, restatus_keys]
  · refine Or.inr ⟨h, ?_⟩
    have hany := Bool.eq_false_iff.mpr (mt any_key.mp h)
    simp only [hany, Bool.false_eq_true, ↓reduceIte]
    split
    · exact ⟨_, List.tail_sublist _, fun _ => rfl, rfl⟩
    · rename_i hlength
      exact ⟨_, List.Sublist.refl _, fun hfull => absurd hfull hlength, rfl⟩

theorem recordTerminal_queued :
    (s.recordTerminal projectId attemptId status).queued = s.queued.erase (projectId, attemptId) := by
  unfold recordTerminal
  split <;> rfl

theorem recordTerminal_signalled : (s.recordTerminal projectId attemptId status).signalled = s.signalled := by
  unfold recordTerminal
  split <;> rfl

theorem mem_recordTerminal {key : Text × Text}
    (h : key ∈ (s.recordTerminal projectId attemptId status).terminalKeys) :
    key = (projectId, attemptId) ∨ key ∈ s.terminalKeys := by
  rcases s.recordTerminal_keys projectId attemptId status with ⟨-, hkeys⟩ | ⟨-, kept, hsub, -, hterminal⟩
  · exact Or.inr (hkeys ▸ h)
  · rw [terminalKeys, hterminal, List.map_append, List.mem_append] at h
    rcases h with h | h
    · exact Or.inr ((hsub.map _).subset h)
    · exact Or.inl (List.mem_singleton.mp h)

end

/-! ## The operations -/

/-- Entries of the tables may go at any time. -/
theorem Registry.shrink {s s' : AiAttempts} (h : Registry s) (hdistinct : Distinct s')
    (hactive : ∀ (p : Text) (a : ActiveAttempt), s'.activeByProject[p]? = some a → s.activeByProject[p]? = some a)
    (hqueued : s'.queued ⊆ s.queued) (hterminal : s'.terminal.Sublist s.terminal) (hsignalled : s'.signalled = s.signalled)
    (hnext : s'.nextGeneration = s.nextGeneration) : Registry s' where
  toDistinct := hdistinct
  bounded := hterminal.length_le.trans h.bounded
  keys := h.keys.sublist (hterminal.map _)
  active p a ha hmem := h.active p a (hactive p a ha) ((hterminal.map _).subset hmem)
  queued key hkey hmem := h.queued key (hqueued hkey) ((hterminal.map _).subset hmem)
  unsignalled p a ha := hsignalled ▸ h.unsignalled p a (hactive p a ha)
  signalled := hsignalled ▸ hnext ▸ h.signalled

/-- An attempt that is not active can be recorded. -/
theorem Registry.record {s : AiAttempts} (h : Registry s) {projectId attemptId : Text} (status : AttemptStatus)
    (hactive : ∀ active : ActiveAttempt, s.activeByProject[projectId]? = some active → active.attemptId ≠ attemptId) :
    Registry (s.recordTerminal projectId attemptId status) where
  claimed p a ha := by
    rw [recordTerminal_active] at ha
    rw [recordTerminal_next]
    exact h.claimed p a ha
  apart p q a b ha hb := by
    rw [recordTerminal_active] at ha hb
    exact h.apart p q a b ha hb
  bounded := by
    rcases s.recordTerminal_keys projectId attemptId status with ⟨-, hkeys⟩ | ⟨-, kept, hsub, hfull, hterminal⟩
    · have hlength := congrArg List.length hkeys
      rw [terminalKeys, terminalKeys, List.length_map, List.length_map] at hlength
      exact hlength ▸ h.bounded
    · rw [hterminal, List.length_append, List.length_singleton]
      have hle := hsub.length_le
      rcases Nat.lt_or_eq_of_le h.bounded with hlt | heq
      · omega
      · have hpositive : 0 < maxTerminalAttempts := by decide
        rw [hfull heq, List.length_tail]
        omega
  keys := by
    rcases s.recordTerminal_keys projectId attemptId status with ⟨-, hkeys⟩ | ⟨hnew, kept, hsub, -, hterminal⟩
    · exact hkeys ▸ h.keys
    · rw [terminalKeys, hterminal, List.map_append]
      refine (h.keys.sublist (hsub.map _)).append (List.nodup_singleton _) fun key hkey hlast => hnew ?_
      obtain rfl := List.mem_singleton.mp hlast
      exact (hsub.map _).subset hkey
  active p a ha hmem := by
    rw [recordTerminal_active] at ha
    rcases mem_recordTerminal hmem with heq | hmem
    · obtain ⟨rfl, rfl⟩ := Prod.mk.inj heq
      exact hactive a ha rfl
    · exact h.active p a ha hmem
  queued key hkey hmem := by
    rw [recordTerminal_queued, Finset.mem_erase] at hkey
    rcases mem_recordTerminal hmem with heq | hmem
    · exact hkey.1 heq
    · exact h.queued key hkey.2 hmem
  unsignalled p a ha := by
    rw [recordTerminal_active] at ha
    rw [recordTerminal_signalled]
    exact h.unsignalled p a ha
  signalled g hg := by
    rw [recordTerminal_signalled] at hg
    rw [recordTerminal_next]
    exact h.signalled g hg

theorem Distinct.erase {s s' : AiAttempts} (h : Distinct s) {projectId : Text}
    (hactive : s'.activeByProject = s.activeByProject.erase projectId) (hnext : s'.nextGeneration = s.nextGeneration) :
    Distinct s' where
  claimed p a ha := hnext ▸ h.claimed p a (getElem?_of_erase (hactive ▸ ha)).2
  apart p q a b ha hb := h.apart p q a b (getElem?_of_erase (hactive ▸ ha)).2 (getElem?_of_erase (hactive ▸ hb)).2

/-- A claim that is dropped may be signalled. -/
theorem Registry.drop {s : AiAttempts} (h : Registry s) {projectId : Text} {active : ActiveAttempt}
    (hactive : s.activeByProject[projectId]? = some active) (signalled : Finset ℕ)
    (hsignalled : signalled ⊆ insert active.generation s.signalled) :
    Registry { s with signalled, activeByProject := s.activeByProject.erase projectId } where
  toDistinct := h.toDistinct.erase rfl rfl
  bounded := h.bounded
  keys := h.keys
  active p a ha := h.active p a (getElem?_of_erase ha).2
  queued := h.queued
  unsignalled p a ha hmem := by
    obtain ⟨hne, ha⟩ := getElem?_of_erase ha
    rcases Finset.mem_insert.mp (hsignalled hmem) with heq | hmem
    · exact hne (h.apart p projectId a active ha hactive heq)
    · exact h.unsignalled p a ha hmem
  signalled g hg := by
    rcases Finset.mem_insert.mp (hsignalled hg) with rfl | hg
    · exact h.claimed projectId active hactive
    · exact h.signalled g hg

theorem erase_none {s : AiAttempts} {projectId attemptId : Text} (active : ActiveAttempt)
    (h : (s.activeByProject.erase projectId)[projectId]? = some active) : active.attemptId ≠ attemptId :=
  absurd rfl (getElem?_of_erase h).1

theorem registry_perform (s : AiAttempts) (c : Call) (h : Registry s) : Registry (s.perform c).2 := by
  have hdistinct := distinct_perform s c h.toDistinct
  cases c with
  | queue projectId attemptId =>
    simp only [perform, queue]
    split
    · exact h
    · rename_i hnew
      refine { h with queued := fun key hkey => ?_ }
      rcases Finset.mem_insert.mp hkey with rfl | hkey
      · exact mt terminalStatus_isSome.mpr hnew
      · exact h.queued key hkey
  | claim projectId attemptId =>
    simp only [perform, claim] at hdistinct ⊢
    split
    · exact h
    rename_i hnew
    split
    · exact h
    split
    · exact h
    rename_i hbusy hexhausted
    rw [if_neg hnew, if_neg hbusy, if_neg hexhausted] at hdistinct
    refine { hdistinct with
      bounded := h.bounded, keys := h.keys, active := fun p a ha => ?_,
      queued := fun key hkey => h.queued key (Finset.mem_of_mem_erase hkey), unsignalled := fun p a ha => ?_,
      signalled := fun g hg => Nat.le_succ_of_le (h.signalled g hg) }
    · rcases getElem?_of_insert ha with ⟨rfl, rfl⟩ | ha
      · exact mt terminalStatus_isSome.mpr hnew
      · exact h.active p a ha
    · rcases getElem?_of_insert ha with ⟨rfl, rfl⟩ | ha
      · exact fun hmem => absurd (h.signalled _ hmem) (Nat.not_succ_le_self _)
      · exact h.unsignalled p a ha
  | cancel projectId attemptId =>
    simp only [perform, cancel]
    split
    · exact h
    split
    · rename_i active hfound
      obtain ⟨hactive, -⟩ := Option.filter_eq_some_iff.mp hfound
      exact (h.drop hactive _ (Finset.Subset.refl _)).record _ fun a ha => erase_none a ha
    · rename_i hnone
      split
      · refine Registry.record (@Registry.shrink s { s with queued := s.queued.erase (projectId, attemptId) } h ⟨h.claimed, h.apart⟩ (fun _ _ ha => ha) (Finset.erase_subset _ _)
          (List.Sublist.refl _) rfl rfl) _ fun a ha heq => ?_
        rw [Option.filter_eq_none_iff] at hnone
        exact hnone a ha (beq_iff_eq.mpr heq)
      · exact h
  | complete projectId attemptId generation status =>
    simp only [perform, complete]
    cases hactive : s.activeByProject[projectId]? with
    | none => exact h
    | some active =>
      dsimp only
      split
      · exact h
      · have hdrop := h.drop hactive s.signalled (Finset.subset_insert _ _)
        split
        · exact hdrop.record _ fun a ha => erase_none a ha
        · exact hdrop.record _ fun a ha => erase_none a ha
  | release projectId attemptId generation =>
    simp only [perform, release]
    split
    · rename_i hactive
      have hactive := of_decide_eq_true hactive
      have hdrop := h.drop hactive s.signalled (Finset.subset_insert _ _)
      refine { hdrop with queued := fun key hkey => ?_ }
      rcases Finset.mem_insert.mp hkey with rfl | hkey
      · exact h.active projectId _ hactive
      · exact h.queued key hkey
    · exact h
  | removeProject projectId =>
    exact h.shrink hdistinct (fun p a ha => (getElem?_of_erase ha).2) (Finset.filter_subset _ _)
      List.filter_sublist rfl rfl
  | removeQueuedProject projectId =>
    exact h.shrink hdistinct (fun p a ha => ha) (Finset.filter_subset _ _) (List.Sublist.refl _) rfl rfl

/-- In every state that the operations reach, the tables are in order. -/
theorem attempts_registry (calls : List Call) : Registry (final perform start calls) :=
  final_inv registry_perform calls registry_start

/-! ## Cancelled attempts -/

/-- A cancelled attempt is a finished one. -/
theorem Registry.cancelled {s : AiAttempts} (h : Registry s) {projectId attemptId : Text}
    (hstatus : s.status projectId attemptId = some .cancelled) :
    s.terminalStatus projectId attemptId = some .cancelled ∧
      ∀ active : ActiveAttempt, s.activeByProject[projectId]? = some active → active.attemptId ≠ attemptId := by
  unfold status at hstatus
  split at hstatus
  · rename_i active hfound
    obtain ⟨hactive, -⟩ := Option.filter_eq_some_iff.mp hfound
    rw [if_neg (h.unsignalled _ _ hactive)] at hstatus
    cases hstatus
  · rename_i hnone
    rw [Option.filter_eq_none_iff] at hnone
    refine ⟨?_, fun active hactive heq => hnone active hactive (beq_iff_eq.mpr heq)⟩
    cases hterminal : s.terminalStatus projectId attemptId with
    | none =>
      rw [hterminal, Option.none_or] at hstatus
      split at hstatus
      · cases hstatus
      · cases hstatus
    | some status =>
      rw [hterminal, Option.some_or] at hstatus
      exact hstatus

/-- `complete` answers that an attempt is cancelled exactly where its project runs no other one. -/
theorem complete_cancelled_iff (calls : List Call) {projectId attemptId : Text} (generation : ℕ)
    (status : AttemptStatus) (h : (final perform start calls).status projectId attemptId = some .cancelled) :
    (((final perform start calls).complete projectId attemptId generation status).1 = .cancelled ∧
      ((final perform start calls).complete projectId attemptId generation status).2.status projectId attemptId =
        some .cancelled) ↔ (final perform start calls).activeByProject[projectId]? = none := by
  obtain ⟨hterminal, hother⟩ := (attempts_registry calls).cancelled h
  unfold complete
  cases hactive : (final perform start calls).activeByProject[projectId]? with
  | none =>
    dsimp only
    rw [if_pos hterminal]
    exact iff_of_true ⟨rfl, h⟩ rfl
  | some active =>
    dsimp only
    rw [if_pos (Or.inl (hother active hactive))]
    refine iff_of_false (fun hcancelled => ?_) (by simp)
    cases hcancelled.1

theorem complete_cancelled_alone :
    (((final perform start [.queue ['p'] ['a'], .cancel ['p'] ['a']]).complete ['p'] ['a'] 1 .proposalReady).1 =
        .cancelled ∧
      ((final perform start [.queue ['p'] ['a'], .cancel ['p'] ['a']]).complete ['p'] ['a'] 1 .proposalReady).2.status
        ['p'] ['a'] = some .cancelled) ↔
      (final perform start [.queue ['p'] ['a'], .cancel ['p'] ['a']]).activeByProject[['p']]? = none :=
  complete_cancelled_iff [.queue ['p'] ['a'], .cancel ['p'] ['a']] 1 .proposalReady (by decide)

/-- The attempt is claimed and cancelled, another attempt of the project claimed: the first one completes as not active. -/
theorem cancelled_not_active :
    (final perform start [.claim ['p'] ['a'], .cancel ['p'] ['a'], .claim ['p'] ['b']]).status ['p'] ['a'] =
        some .cancelled ∧
      ((final perform start [.claim ['p'] ['a'], .cancel ['p'] ['a'], .claim ['p'] ['b']]).complete ['p'] ['a'] 1
        .proposalReady).1 = .notActive := by
  decide

end AiAttempts
end LpStudio.Server
