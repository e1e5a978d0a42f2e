import Mathlib

/-! # Runs of a deterministic machine
A machine answers a call with a reply and its next state. A run is a list of calls, its events are the calls with
the replies and the states around them.
-/
namespace Run

variable {S C R : Type*}

structure Event (S C R : Type*) where
  before : S
  call : C
  reply : R
  after : S

def final (step : S → C → R × S) : S → List C → S
  | s, [] => s
  | s, c :: cs => final step (step s c).2 cs

def events (step : S → C → R × S) : S → List C → List (Event S C R)
  | _, [] => []
  | s, c :: cs => ⟨s, c, (step s c).1, (step s c).2⟩ :: events step (step s c).2 cs

theorem final_inv {step : S → C → R × S} {I : S → Prop} (hstep : ∀ s c, I s → I (step s c).2) {s : S}
    (cs : List C) (hs : I s) : I (final step s cs) := by
  induction cs generalizing s with
  | nil => exact hs
  | cons c cs ih => exact ih (hstep s c hs)

/-- An event of a run is a step from a state that has every invariant of the run. -/
theorem events_inv {step : S → C → R × S} {I : S → Prop} (hstep : ∀ s c, I s → I (step s c).2) {s : S}
    {cs : List C} (hs : I s) : ∀ e ∈ events step s cs,
      I e.before ∧ e.reply = (step e.before e.call).1 ∧ e.after = (step e.before e.call).2 := by
  induction cs generalizing s with
  | nil => exact fun e he => absurd he List.not_mem_nil
  | cons c cs ih =>
    intro e he
    rcases List.mem_cons.mp he with rfl | he
    · exact ⟨hs, rfl, rfl⟩
    · exact ih (hstep s c hs) e he

/-- An invariant of what has happened, what is still to come and the state holds wherever a run is cut. -/
theorem events_cut_inv {step : S → C → R × S} {I : List (Event S C R) → List C → S → Prop}
    (hstep : ∀ past c cs s, I past (c :: cs) s → I (past ++ [⟨s, c, (step s c).1, (step s c).2⟩]) cs (step s c).2)
    {past : List (Event S C R)} {cs : List C} {s : S} (hs : I past cs s) {before after : List (Event S C R)}
    (h : events step s cs = before ++ after) :
    ∃ cs' s', I (past ++ before) cs' s' ∧ after = events step s' cs' := by
  induction before generalizing past cs s with
  | nil => exact ⟨cs, s, by rwa [List.append_nil], h.symm⟩
  | cons e before ih =>
    cases cs with
    | nil => cases h
    | cons c cs =>
      obtain ⟨rfl, htail⟩ := List.cons.inj h
      obtain ⟨cs', s', hI, hafter⟩ := ih (hstep past c cs s hs) htail
      exact ⟨cs', s', by simpa using hI, hafter⟩

/-- An invariant of what has happened and the state holds after a run. -/
theorem events_final_inv {step : S → C → R × S} {I : List (Event S C R) → S → Prop}
    (hstep : ∀ past c s, I past s → I (past ++ [⟨s, c, (step s c).1, (step s c).2⟩]) (step s c).2)
    {past : List (Event S C R)} {s : S} (cs : List C) (hs : I past s) :
    I (past ++ events step s cs) (final step s cs) := by
  induction cs generalizing past s with
  | nil => rwa [events, List.append_nil]
  | cons c cs ih =>
    have hnext := ih (hstep past c s hs)
    rwa [List.append_assoc] at hnext

/-- What comes after an event is a run from the state after it. -/
theorem events_split {step : S → C → R × S} {s : S} {cs : List C} {before after : List (Event S C R)} {e : Event S C R}
    (h : events step s cs = before ++ e :: after) : ∃ cs', after = events step e.after cs' := by
  induction before generalizing s cs with
  | nil =>
    cases cs with
    | nil => cases h
    | cons c cs =>
      obtain ⟨rfl, htail⟩ := List.cons.inj h
      exact ⟨cs, htail.symm⟩
  | cons _ before ih =>
    cases cs with
    | nil => cases h
    | cons c cs => exact ih (List.cons.inj h).2

/-- Each event is followed by what a preorder on the states allows. -/
theorem events_pairwise {step : S → C → R × S} {I : S → Prop} {le : S → S → Prop} [IsPreorder S le]
    (hstep : ∀ s c, I s → I (step s c).2) (hle : ∀ s c, I s → le s (step s c).2) {s : S} (cs : List C) (hs : I s) :
    (events step s cs).Pairwise fun e e' => le e.after e'.before := by
  have hfrom : ∀ (cs : List C) {s : S}, I s → ∀ e ∈ events step s cs, le s e.before := by
    intro cs
    induction cs with
    | nil => exact fun _ e he => absurd he List.not_mem_nil
    | cons c cs ih =>
      intro s hs e he
      rcases List.mem_cons.mp he with rfl | he
      · exact Std.Refl.refl (r := le) s
      · exact IsTrans.trans _ _ _ (hle s c hs) (ih (hstep s c hs) e he)
  induction cs generalizing s with
  | nil => exact .nil
  | cons c cs ih => exact .cons (hfrom cs (hstep s c hs)) (ih (hstep s c hs))

theorem events_le_final {step : S → C → R × S} {I : S → Prop} {le : S → S → Prop} [IsPreorder S le]
    (hstep : ∀ s c, I s → I (step s c).2) (hle : ∀ s c, I s → le s (step s c).2) {s : S} {cs : List C} (hs : I s) :
    ∀ e ∈ events step s cs, le e.after (final step s cs) := by
  have hfrom : ∀ (cs : List C) {s : S}, I s → le s (final step s cs) := by
    intro cs
    induction cs with
    | nil => exact fun _ => Std.Refl.refl (r := le) _
    | cons c cs ih => exact fun hs => IsTrans.trans _ _ _ (hle _ c hs) (ih (hstep _ c hs))
  induction cs generalizing s with
  | nil => exact fun e he => absurd he List.not_mem_nil
  | cons c cs ih =>
    intro e he
    rcases List.mem_cons.mp he with rfl | he
    · exact hfrom cs (hstep s c hs)
    · exact ih (hstep s c hs) e he

/-- What happens at most once: it leaves the machine spent, and a spent machine stays spent and cannot do it. -/
theorem countP_events_le_one {step : S → C → R × S} {I Spent : S → Prop} {hit : Event S C R → Bool}
    (hstep : ∀ s c, I s → I (step s c).2)
    (hspent : ∀ s c, I s → Spent s → Spent (step s c).2)
    (hnot : ∀ s c, I s → Spent s → hit ⟨s, c, (step s c).1, (step s c).2⟩ = false)
    (hhit : ∀ s c, I s → hit ⟨s, c, (step s c).1, (step s c).2⟩ = true → Spent (step s c).2)
    {s : S} (cs : List C) (hs : I s) : (events step s cs).countP hit ≤ 1 := by
  have hnone : ∀ (cs : List C) {s : S}, I s → Spent s → (events step s cs).countP hit = 0 := by
    intro cs
    induction cs with
    | nil => exact fun _ _ => rfl
    | cons c cs ih =>
      intro s hs hsp
      rw [events, List.countP_cons, ih (hstep s c hs) (hspent s c hs hsp), hnot s c hs hsp]
      rfl
  induction cs generalizing s with
  | nil => exact Nat.zero_le 1
  | cons c cs ih =>
    rw [events, List.countP_cons]
    by_cases hc : hit ⟨s, c, (step s c).1, (step s c).2⟩ = true
    · rw [hnone cs (hstep s c hs) (hhit s c hs hc), if_pos hc]
    · rw [if_neg hc]
      exact ih (hstep s c hs)

/-- A machine that is spent has been spent by an event. -/
theorem countP_events_pos {step : S → C → R × S} {I Spent : S → Prop} {hit : Event S C R → Bool}
    (hstep : ∀ s c, I s → I (step s c).2)
    (hspent : ∀ s c, I s → ¬Spent s → Spent (step s c).2 → hit ⟨s, c, (step s c).1, (step s c).2⟩ = true)
    {s : S} (cs : List C) (hs : I s) (hnot : ¬Spent s) (h : Spent (final step s cs)) :
    0 < (events step s cs).countP hit := by
  induction cs generalizing s with
  | nil => exact absurd h hnot
  | cons c cs ih =>
    rw [events, List.countP_cons]
    by_cases hnext : Spent (step s c).2
    · rw [hspent s c hs hnot hnext]
      exact Nat.succ_pos _
    · exact Nat.add_pos_left (ih (hstep s c hs) hnext h) _

end Run
