import Mathlib

/-! # Scanning loops
A loop `while cursor < input.len()` over a list: each turn looks at the suffix the cursor leaves,
emits some items and moves on to a shorter suffix, or ends the loop.
-/
namespace Scanning

variable {σ τ τ' ρ ε ε' : Type*}

/-- What one turn of the loop does with the suffix it looks at. -/
inductive Step (ε τ σ : Type*) where
  | halt (out : List τ)
  | fail (error : ε)
  | next (out : List τ) (rest : List σ)
  deriving DecidableEq, Repr

abbrev Stepper (ε τ σ : Type*) := List σ → Step ε τ σ

def runFuel (step : Stepper ε τ σ) : Nat → List σ → Except ε (List τ)
  | 0, _ => .ok []
  | fuel + 1, input =>
    match step input with
    | .halt out => .ok out
    | .fail error => .error error
    | .next out rest =>
      match runFuel step fuel rest with
      | .ok more => .ok (out ++ more)
      | .error error => .error error

/-- The loop from the beginning of `input`. -/
def run (step : Stepper ε τ σ) (input : List σ) : Except ε (List τ) :=
  runFuel step (input.length + 1) input

/-- A loop that never fails. -/
def collect (step : Stepper Empty τ σ) (input : List σ) : List τ :=
  match run step input with
  | .ok out => out

/-- Every turn that continues makes progress. -/
def Productive (step : Stepper ε τ σ) : Prop :=
  ∀ ⦃input out rest⦄, step input = .next out rest → rest.length < input.length

/-- The suffixes the loop looks at. -/
inductive Visits (step : Stepper ε τ σ) : List σ → List σ → Prop where
  | here (input) : Visits step input input
  | next {input out rest u} : step input = .next out rest → Visits step rest u → Visits step input u

/-! ## The loop equation -/

/-- What the loop makes of a turn that it has fuel for. -/
theorem runFuel_turn (step : Stepper ε τ σ) (fuel : ℕ) (input : List σ) :
    (∀ out, step input = .halt out → runFuel step (fuel + 1) input = .ok out) ∧
    (∀ error, step input = .fail error → runFuel step (fuel + 1) input = .error error) ∧
    ∀ out rest, step input = .next out rest →
      runFuel step (fuel + 1) input = (runFuel step fuel rest).map (out ++ ·) := by
  refine ⟨fun out hs => ?_, fun error hs => ?_, fun out rest hs => ?_⟩
  · simp only [runFuel, hs]
  · simp only [runFuel, hs]
  · simp only [runFuel, hs]
    cases runFuel step fuel rest <;> rfl

theorem runFuel_enough {step : Stepper ε τ σ} (hp : Productive step) {m n : Nat} {input : List σ}
    (hm : input.length < m) (hn : input.length < n) :
    runFuel step m input = runFuel step n input := by
  induction m generalizing n input with
  | zero => omega
  | succ m ih =>
    obtain ⟨n, rfl⟩ : ∃ k, n = k + 1 := ⟨n - 1, by omega⟩
    obtain ⟨hhalt, hfail, hnext⟩ := runFuel_turn step m input
    obtain ⟨hhalt', hfail', hnext'⟩ := runFuel_turn step n input
    cases hs : step input with
    | halt out => rw [hhalt out hs, hhalt' out hs]
    | fail error => rw [hfail error hs, hfail' error hs]
    | next out rest =>
      have hlt := hp hs
      have hrest : runFuel step m rest = runFuel step n rest := ih (by omega) (by omega)
      rw [hnext out rest hs, hnext' out rest hs, hrest]

theorem run_halt {step : Stepper ε τ σ} {input : List σ} {out : List τ}
    (hs : step input = .halt out) : run step input = .ok out :=
  (runFuel_turn step input.length input).1 out hs

theorem run_fail {step : Stepper ε τ σ} {input : List σ} {error : ε}
    (hs : step input = .fail error) : run step input = .error error :=
  (runFuel_turn step input.length input).2.1 error hs

theorem run_next {step : Stepper ε τ σ} (hp : Productive step) {input rest : List σ} {out : List τ}
    (hs : step input = .next out rest) : run step input = (run step rest).map (out ++ ·) := by
  have hfuel : runFuel step input.length rest = run step rest := runFuel_enough hp (hp hs) (Nat.lt_succ_self _)
  rw [← hfuel]
  exact (runFuel_turn step input.length input).2.2 out rest hs

/-- A successful loop splits at its first turn. -/
theorem run_next_ok {step : Stepper ε τ σ} (hp : Productive step) {input rest : List σ}
    {out all : List τ} (hs : step input = .next out rest) (h : run step input = .ok all) :
    ∃ more, run step rest = .ok more ∧ all = out ++ more := by
  rw [run_next hp hs] at h
  cases hr : run step rest with
  | error error => simp [hr, Except.map] at h
  | ok more => exact ⟨more, rfl, by simpa [hr, Except.map] using h.symm⟩

theorem collect_halt {step : Stepper Empty τ σ} {input : List σ} {out : List τ}
    (hs : step input = .halt out) : collect step input = out := by
  simp [collect, run_halt hs]

theorem collect_next {step : Stepper Empty τ σ} (hp : Productive step) {input rest : List σ}
    {out : List τ} (hs : step input = .next out rest) :
    collect step input = out ++ collect step rest := by
  simp only [collect, run_next hp hs]
  cases run step rest with
  | ok more => rfl
  | error error => exact error.elim

/-- The loop depends on the suffix through the turn it takes there. -/
theorem collect_congr {step : Stepper Empty τ σ} (hp : Productive step) {input input' : List σ}
    (h : step input = step input') : collect step input = collect step input' := by
  cases hs : step input with
  | halt out => rw [collect_halt hs, collect_halt (h ▸ hs)]
  | fail error => exact error.elim
  | next out rest =>
    have hs' : step input' = .next out rest := h ▸ hs
    rw [collect_next hp hs, collect_next hp hs']

/-- Induction along a productive loop: a property of suffixes that each turn carries back from the
rest of the input holds everywhere. -/
theorem induct {step : Stepper ε τ σ} (hp : Productive step) {P : List σ → Prop}
    (h : ∀ input, (∀ out rest, step input = .next out rest → P rest) → P input) (input) :
    P input := by
  induction hn : input.length using Nat.strong_induction_on generalizing input with
  | _ n ih =>
    subst hn
    exact h input fun out rest hs => ih _ (hp hs) rest rfl

/-- What every turn emits, the loop emits. -/
theorem forall_collect {step : Stepper Empty τ σ} (hp : Productive step) {P : τ → Prop}
    (hhalt : ∀ u out, step u = .halt out → ∀ x ∈ out, P x)
    (hnext : ∀ u out rest, step u = .next out rest → ∀ x ∈ out, P x) (input : List σ) :
    ∀ x ∈ collect step input, P x := by
  induction input using induct hp with
  | _ input ih =>
    cases hs : step input with
    | halt out => rw [collect_halt hs]; exact hhalt input out hs
    | fail error => exact error.elim
    | next out rest =>
      rw [collect_next hp hs]
      intro x hx
      rcases List.mem_append.mp hx with hx | hx
      · exact hnext input out rest hs x hx
      · exact ih out rest hs x hx

theorem Visits.trans {step : Stepper ε τ σ} {input u v : List σ} (h : Visits step input u)
    (h' : Visits step u v) : Visits step input v := by
  induction h with
  | here => exact h'
  | next hs _ ih => exact .next hs (ih h')

/-- The suffixes the loop looks at, in order. -/
def trailFuel (step : Stepper ε τ σ) : Nat → List σ → List (List σ)
  | 0, _ => []
  | fuel + 1, input =>
    input :: match step input with
      | .next _ rest => trailFuel step fuel rest
      | _ => []

def trail (step : Stepper ε τ σ) (input : List σ) : List (List σ) :=
  trailFuel step (input.length + 1) input

theorem mem_trailFuel {step : Stepper ε τ σ} (hp : Productive step) {n : Nat} {input u : List σ}
    (hn : input.length < n) : u ∈ trailFuel step n input ↔ Visits step input u := by
  induction n generalizing input with
  | zero => omega
  | succ n ih =>
    have hdone : ∀ {s}, step input = s → (∀ out rest, s ≠ .next out rest) →
        Visits step input u → u = input := by
      intro s hs hnext hv
      cases hv with
      | here => rfl
      | next h _ => rw [hs] at h; exact absurd h (hnext _ _)
    simp only [trailFuel, List.mem_cons]
    constructor
    · rintro (rfl | hu)
      · exact .here _
      · cases hs : step input with
        | halt out => simp [hs] at hu
        | fail error => simp [hs] at hu
        | next out rest =>
          have hlt := hp hs
          rw [hs] at hu
          exact .next hs ((ih (by omega)).mp hu)
    · intro hv
      cases hs : step input with
      | halt out => exact .inl (hdone hs (by simp) hv)
      | fail error => exact .inl (hdone hs (by simp) hv)
      | next out rest =>
        have hlt := hp hs
        cases hv with
        | here => exact .inl rfl
        | next h hv =>
          rw [hs] at h; cases h
          exact .inr ((ih (by omega)).mpr hv)

theorem mem_trail {step : Stepper ε τ σ} (hp : Productive step) {input u : List σ} :
    u ∈ trail step input ↔ Visits step input u :=
  mem_trailFuel hp (Nat.lt_succ_self _)

/-! ## Two loops in step -/

/-- Two turns agree: they emit related items and leave the same suffix. A turn that fails makes no
demand on the other. -/
inductive InStep (R : τ → τ' → Prop) : Step ε τ σ → Step ε' τ' σ → Prop where
  | halt {out out'} : List.Forall₂ R out out' → InStep R (.halt out) (.halt out')
  | fail {error s} : InStep R (.fail error) s
  | next {out out' rest} : List.Forall₂ R out out' → InStep R (.next out rest) (.next out' rest)

/-- The turn emits nothing. -/
inductive Silent : Step ε τ σ → Prop where
  | halt : Silent (.halt [])
  | fail (error) : Silent (.fail error)
  | next (rest) : Silent (.next [] rest)

/-- No turn emits anything from here on. -/
def Quiet (step : Stepper ε τ σ) (input : List σ) : Prop :=
  ∀ u, Visits step input u → Silent (step u)

theorem run_quiet {step : Stepper ε τ σ} (hp : Productive step) {input : List σ}
    (h : Quiet step input) {out : List τ} (hrun : run step input = .ok out) : out = [] := by
  induction input using induct hp generalizing out with
  | _ input ih =>
    have hsilent := h input (.here _)
    generalize hs : step input = s at hsilent
    cases hsilent with
    | halt => rw [run_halt hs] at hrun; simpa using hrun.symm
    | fail error => rw [run_fail hs] at hrun; cases hrun
    | next rest =>
      obtain ⟨more, hmore, rfl⟩ := run_next_ok hp hs hrun
      exact ih [] rest hs (fun u hu => h u (.next hs hu)) hmore

/-- Two loops emit related items when, at every suffix the first one looks at, their turns agree or the
second one stops while the first has nothing more to emit. -/
theorem run_inStep {R : τ → τ' → Prop} {step : Stepper ε τ σ} {step' : Stepper Empty τ' σ}
    (hp : Productive step) (hp' : Productive step') (input : List σ)
    (h : ∀ u, Visits step input u →
      InStep R (step u) (step' u) ∨ (step' u = .halt [] ∧ Quiet step u))
    {out : List τ} (hrun : run step input = .ok out) :
    List.Forall₂ R out (collect step' input) := by
  induction input using induct hp generalizing out with
  | _ input ih =>
    rcases h input (.here _) with hin | ⟨hstop, hquiet⟩
    · generalize hs : step input = s at hin
      generalize hs' : step' input = s' at hin
      cases hin with
      | halt hout =>
        rw [run_halt hs] at hrun
        obtain rfl : _ = out := by simpa using hrun
        rwa [collect_halt hs']
      | fail => rw [run_fail hs] at hrun; cases hrun
      | next hout =>
        obtain ⟨more, hmore, rfl⟩ := run_next_ok hp hs hrun
        rw [collect_next hp' hs']
        exact List.rel_append hout (ih _ _ hs (fun u hu => h u (.next hs hu)) hmore)
    · rw [collect_halt hstop, run_quiet hp hquiet hrun]
      exact .nil

/-- A loop that succeeds fails at no suffix it looks at. -/
theorem run_ok_visits {step : Stepper ε τ σ} (hp : Productive step) {input u : List σ}
    {all : List τ} (hrun : run step input = .ok all) (hu : Visits step input u) :
    ∀ error, step u ≠ .fail error := by
  induction hu generalizing all with
  | here =>
    intro error hs
    rw [run_fail hs] at hrun; cases hrun
  | next hs _ ih =>
    obtain ⟨more, hmore, -⟩ := run_next_ok hp hs hrun
    exact ih hmore

/-- A loop that emits nothing emits nothing from any later suffix. -/
theorem run_nil_visits {step : Stepper ε τ σ} (hp : Productive step) {input u : List σ}
    (hrun : run step input = .ok []) (hu : Visits step input u) : run step u = .ok [] := by
  induction hu with
  | here => exact hrun
  | next hs _ ih =>
    obtain ⟨more, hmore, hnil⟩ := run_next_ok hp hs hrun
    obtain ⟨rfl, rfl⟩ := List.append_eq_nil_iff.mp hnil.symm
    exact ih hmore

/-- A loop that emits nothing has no turn that does. -/
theorem quiet_of_run_nil {step : Stepper ε τ σ} (hp : Productive step) {input : List σ}
    (hrun : run step input = .ok []) : Quiet step input := by
  intro u hu
  have hrun := run_nil_visits hp hrun hu
  cases hs : step u with
  | halt out =>
    rw [run_halt hs] at hrun
    obtain rfl : out = [] := by simpa using hrun
    exact .halt
  | fail error => exact .fail error
  | next out rest =>
    obtain ⟨more, -, hnil⟩ := run_next_ok hp hs hrun
    rw [(List.append_eq_nil_iff.mp hnil.symm).1]
    exact .next rest

/-- Two loops that emit equally many items, and agree wherever the second does not stop, have nothing
left to emit where it stops. -/
theorem run_nil_of_stop {R : τ → τ' → Prop} {step : Stepper ε τ σ} {step' : Stepper Empty τ' σ}
    (hp : Productive step) (hp' : Productive step') {input u : List σ}
    (h : ∀ w, Visits step input w → InStep R (step w) (step' w) ∨ step' w = .halt [])
    {out : List τ} (hrun : run step input = .ok out)
    (hlen : out.length = (collect step' input).length)
    (hu : Visits step input u) (hstop : step' u = .halt []) : run step u = .ok [] := by
  have stopped : ∀ {w out}, step' w = .halt [] → run step w = .ok out →
      out.length = (collect step' w).length → run step w = .ok [] := by
    intro w out hw hrun hlen
    rw [collect_halt hw] at hlen
    rwa [List.length_eq_zero_iff.mp hlen] at hrun
  induction hu generalizing out with
  | here => exact stopped hstop hrun hlen
  | @next input o rest u hs hu ih =>
    rcases h input (.here _) with hin | hw
    · generalize hs' : step' input = s' at hin
      rw [hs] at hin
      cases hin with
      | next hout =>
        obtain ⟨more, hmore, rfl⟩ := run_next_ok hp hs hrun
        rw [collect_next hp' hs', List.length_append, List.length_append, hout.length_eq] at hlen
        exact ih (fun w hw => h w (.next hs hw)) hmore (by omega) hstop
    · exact run_nil_visits hp (stopped hw hrun hlen) (.next hs hu)

/-! ## Instrumented loops -/

/-- A loop that keeps, with every item, what `note` reads off the suffix it was emitted at. -/
def noted (note : List σ → ρ) (step : Stepper ε τ σ) : Stepper ε (τ × ρ) σ := fun input =>
  match step input with
  | .halt out => .halt (out.map (·, note input))
  | .fail error => .fail error
  | .next out rest => .next (out.map (·, note input)) rest

theorem noted_productive {note : List σ → ρ} {step : Stepper ε τ σ} (hp : Productive step) :
    Productive (noted note step) := by
  intro input out rest h
  simp only [noted] at h
  cases hs : step input with
  | halt o => simp [hs] at h
  | fail error => simp [hs] at h
  | next o r => simp only [hs, Step.next.injEq] at h; rw [← h.2]; exact hp hs

theorem noted_visits {note : List σ → ρ} {step : Stepper ε τ σ} {input u : List σ}
    (h : Visits (noted note step) input u) : Visits step input u := by
  induction h with
  | here => exact .here _
  | @next input out rest u hs _ ih =>
    simp only [noted] at hs
    cases hstep : step input with
    | halt o => simp [hstep] at hs
    | fail error => simp [hstep] at hs
    | next o r =>
      simp only [hstep, Step.next.injEq] at hs
      obtain ⟨-, rfl⟩ := hs
      exact .next hstep ih

theorem InStep.of_noted {R : τ × ρ → τ' → Prop} {note : List σ → ρ} {step : Stepper ε τ σ}
    {input : List σ} {s : Step ε' τ' σ} (h : InStep R (noted note step input) s) :
    InStep (fun _ _ => True) (step input) s := by
  have forget : ∀ {out : List τ} {out' : List τ'},
      List.Forall₂ R (out.map (·, note input)) out' → List.Forall₂ (fun _ _ => True) out out' := by
    intro out out' hout
    exact (List.forall₂_map_left_iff.mp hout).imp fun _ _ _ => trivial
  simp only [noted] at h
  cases hs : step input with
  | halt out => rw [hs] at h; cases h with | halt hout => exact .halt (forget hout)
  | fail error => exact .fail
  | next out rest => rw [hs] at h; cases h with | next hout => exact .next (forget hout)

/-- Forgetting the notes gives back the loop. -/
theorem run_noted {note : List σ → ρ} {step : Stepper ε τ σ} (hp : Productive step)
    (input : List σ) : (run (noted note step) input).map (List.map Prod.fst) = run step input := by
  induction input using induct hp with
  | _ input ih =>
    cases hs : step input with
    | halt out =>
      have hhalt : run (noted note step) input = .ok (out.map (·, note input)) :=
        run_halt (by simp [noted, hs])
      rw [run_halt hs, hhalt]
      simp [Except.map, Function.comp_def]
    | fail error =>
      have hfail : run (noted note step) input = .error error := run_fail (by simp [noted, hs])
      rw [run_fail hs, hfail]
      rfl
    | next out rest =>
      have hn : noted note step input = .next (out.map (·, note input)) rest := by simp [noted, hs]
      rw [run_next hp hs, run_next (noted_productive hp) hn, ← ih out rest hs]
      cases run (noted note step) rest with
      | ok more => simp [Except.map, Function.comp_def]
      | error error => rfl

end Scanning
