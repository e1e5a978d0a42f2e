import LpStudio.Lib.Str

/-! # AI attempts
`AiAttempts` of `ai_attempt.rs`. A claim opens a watch channel that its generation names: the table keeps the
sender in the active entry and the handler keeps the receiver, so the channels that carry `true` are kept
beside the three tables.
-/
namespace LpStudio.Server
open Str

def maxTerminalAttempts : ℕ := 512
def maxGeneration : ℕ := 2 ^ 64 - 1

inductive AttemptStatus where
  | queued | running | cancelled | timedOut | providerFailed | validationFailed | proposalReady
  deriving DecidableEq, Repr

inductive ClaimError where
  | projectBusy | attemptAlreadyFinished | generationExhausted
  deriving DecidableEq, Repr

inductive CancelResult where
  | cancelled | alreadyCancelled | notActive
  deriving DecidableEq, Repr

inductive CompleteResult where
  | recorded | cancelled | notActive
  deriving DecidableEq, Repr

structure ActiveAttempt where
  attemptId : Text
  generation : ℕ
  deriving DecidableEq, Repr

structure TerminalAttempt where
  projectId : Text
  attemptId : Text
  status : AttemptStatus
  deriving DecidableEq, Repr

structure AiAttempts where
  activeByProject : Std.ExtTreeMap Text ActiveAttempt compare
  queued : Finset (Text × Text)
  terminal : List TerminalAttempt
  nextGeneration : ℕ
  /-- The generations whose watch channel carries `true`. -/
  signalled : Finset ℕ

namespace AiAttempts

/-- `AiAttempts::default()`. -/
def start : AiAttempts := ⟨∅, ∅, [], 0, ∅⟩

def terminalStatus (s : AiAttempts) (projectId attemptId : Text) : Option AttemptStatus :=
  (s.terminal.reverse.find? fun entry => entry.projectId == projectId && entry.attemptId == attemptId).map
    (·.status)

/-- Sets the status of the first entry of the attempt, if there is one. -/
def restatus (projectId attemptId : Text) (status : AttemptStatus) : List TerminalAttempt → List TerminalAttempt
  | [] => []
  | entry :: rest =>
    if entry.projectId == projectId && entry.attemptId == attemptId then { entry with status } :: rest
    else entry :: restatus projectId attemptId status rest

def recordTerminal (s : AiAttempts) (projectId attemptId : Text) (status : AttemptStatus) : AiAttempts :=
  let queued := s.queued.erase (projectId, attemptId)
  if s.terminal.any fun entry => entry.projectId == projectId && entry.attemptId == attemptId then
    { s with queued, terminal := restatus projectId attemptId status s.terminal }
  else
    let kept := if s.terminal.length = maxTerminalAttempts then s.terminal.tail else s.terminal
    { s with queued, terminal := kept ++ [⟨projectId, attemptId, status⟩] }

def queue (s : AiAttempts) (projectId attemptId : Text) : Except ClaimError Unit × AiAttempts :=
  if (s.terminalStatus projectId attemptId).isSome then (.error .attemptAlreadyFinished, s)
  else (.ok (), { s with queued := insert (projectId, attemptId) s.queued })

def claim (s : AiAttempts) (projectId attemptId : Text) : Except ClaimError ℕ × AiAttempts :=
  if (s.terminalStatus projectId attemptId).isSome then (.error .attemptAlreadyFinished, s)
  else if s.activeByProject.contains projectId then (.error .projectBusy, s)
  else if s.nextGeneration = maxGeneration then (.error .generationExhausted, s)
  else
    let generation := s.nextGeneration + 1
    (.ok generation, { s with
      activeByProject := s.activeByProject.insert projectId ⟨attemptId, generation⟩
      queued := s.queued.erase (projectId, attemptId)
      nextGeneration := generation })

def cancel (s : AiAttempts) (projectId attemptId : Text) : CancelResult × AiAttempts :=
  if s.terminalStatus projectId attemptId = some .cancelled then (.alreadyCancelled, s)
  else match s.activeByProject[projectId]?.filter (·.attemptId == attemptId) with
    | some active =>
      let s := { s with
        signalled := insert active.generation s.signalled
        activeByProject := s.activeByProject.erase projectId }
      (.cancelled, s.recordTerminal projectId attemptId .cancelled)
    | none =>
      if (projectId, attemptId) ∈ s.queued then
        let s := { s with queued := s.queued.erase (projectId, attemptId) }
        (.cancelled, s.recordTerminal projectId attemptId .cancelled)
      else (.notActive, s)

def complete (s : AiAttempts) (projectId attemptId : Text) (generation : ℕ) (status : AttemptStatus) :
    CompleteResult × AiAttempts :=
  match s.activeByProject[projectId]? with
  | none =>
    (if s.terminalStatus projectId attemptId = some .cancelled then .cancelled else .notActive, s)
  | some active =>
    if active.attemptId ≠ attemptId ∨ active.generation ≠ generation then (.notActive, s)
    else
      let cancelled := active.generation ∈ s.signalled ∨ s.terminalStatus projectId attemptId = some .cancelled
      let s := { s with activeByProject := s.activeByProject.erase projectId }
      if cancelled then (.cancelled, s.recordTerminal projectId attemptId .cancelled)
      else (.recorded, s.recordTerminal projectId attemptId status)

def isActiveGeneration (s : AiAttempts) (projectId attemptId : Text) (generation : ℕ) : Bool :=
  s.activeByProject[projectId]? = some ⟨attemptId, generation⟩

def release (s : AiAttempts) (projectId attemptId : Text) (generation : ℕ) : Bool × AiAttempts :=
  if s.isActiveGeneration projectId attemptId generation then
    (true, { s with
      activeByProject := s.activeByProject.erase projectId
      queued := insert (projectId, attemptId) s.queued })
  else (false, s)

def status (s : AiAttempts) (projectId attemptId : Text) : Option AttemptStatus :=
  match s.activeByProject[projectId]?.filter (·.attemptId == attemptId) with
  | some active => some (if active.generation ∈ s.signalled then .cancelled else .running)
  | none =>
    (s.terminalStatus projectId attemptId).or
      (if (projectId, attemptId) ∈ s.queued then some .queued else none)

def containsProject (s : AiAttempts) (projectId : Text) : Bool := s.activeByProject.contains projectId

def removeProject (s : AiAttempts) (projectId : Text) : AiAttempts :=
  { s with
    activeByProject := s.activeByProject.erase projectId
    queued := s.queued.filter (·.1 ≠ projectId)
    terminal := s.terminal.filter (·.projectId != projectId) }

def removeQueuedProject (s : AiAttempts) (projectId : Text) : AiAttempts :=
  { s with queued := s.queued.filter (·.1 ≠ projectId) }

end AiAttempts
end LpStudio.Server
