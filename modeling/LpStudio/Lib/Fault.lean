import Mathlib

/-! # Programs whose steps can fail
A program is a sequence of labelled steps on a state. At each label the environment decides: the step is done, it
reports an error, or the process stops there. A step that is not done may still have made progress, none (0) or
some; what progress an atomic step makes is its whole effect.
-/
namespace Fault

universe u
variable {L M σ ε α β : Type u}

inductive Outcome where
  | done
  | failed (progress : ℕ)
  | stopped (progress : ℕ)
  deriving DecidableEq, Repr

/-- How a program ends. -/
inductive Exit (ε α : Type u) where
  | value (a : α)
  | error (e : ε)
  | stop
  deriving DecidableEq, Repr

def Program (L σ ε α : Type u) := (L → Outcome) → σ → Exit ε α × σ

namespace Program

protected def pure (a : α) : Program L σ ε α := fun _ s => (.value a, s)

protected def bind (p : Program L σ ε α) (k : α → Program L σ ε β) : Program L σ ε β := fun faults s =>
  match p faults s with
  | (.value a, s) => k a faults s
  | (.error e, s) => (.error e, s)
  | (.stop, s) => (.stop, s)

instance : Monad (Program L σ ε) where
  pure := Program.pure
  bind := Program.bind

/-- An error of the program itself. -/
def throw (e : ε) : Program L σ ε α := fun _ s => (.error e, s)

/-- What the program reads off the state, when the steps of the label that read it are done. -/
def look (io : ε) (label : L) (f : σ → Except ε α) : Program L σ ε α := fun faults s =>
  match faults label with
  | .done => match f s with
    | .ok a => (.value a, s)
    | .error e => (.error e, s)
  | .failed _ => (.error io, s)
  | .stopped _ => (.stop, s)

/-- A step that may stop half-way, with what it leaves then. -/
def gradual (io : ε) (label : L) (part : ℕ → σ → σ) (effect : σ → σ) : Program L σ ε PUnit := fun faults s =>
  match faults label with
  | .done => (.value ⟨⟩, effect s)
  | .failed n => (.error io, part n s)
  | .stopped n => (.stop, part n s)

def atomic (io : ε) (label : L) (effect : σ → σ) : Program L σ ε PUnit :=
  gradual io label (fun n s => if n = 0 then s else effect s) effect

/-- The handler runs after an error, not after a stop. -/
def rescue (p : Program L σ ε α) (handler : ε → Program L σ ε α) : Program L σ ε α := fun faults s =>
  match p faults s with
  | (.error e, s) => handler e faults s
  | other => other

/-- `let _ = p`. -/
def ignore (p : Program L σ ε PUnit) : Program L σ ε PUnit := p.rescue fun _ => Program.pure ⟨⟩

/-- The program with its labels put into a larger set of labels. -/
def relabel (f : M → L) (p : Program M σ ε α) : Program L σ ε α := fun faults => p (faults ∘ f)

/-! ## What holds at the end -/

/-- From `s`, the program ends in a value with `V`, in an error with `E` or in a stop with `S`. -/
def Ends (p : Program L σ ε α) (faults : L → Outcome) (s : σ) (V : α → σ → Prop) (E : ε → σ → Prop)
    (S : σ → Prop) : Prop :=
  match p faults s with
  | (.value a, s) => V a s
  | (.error e, s) => E e s
  | (.stop, s) => S s

variable {p : Program L σ ε α} {k : α → Program L σ ε β} {faults : L → Outcome} {s : σ}
  {V V' : α → σ → Prop} {W : β → σ → Prop} {E E' : ε → σ → Prop} {S S' : σ → Prop}

theorem Ends.mono (h : Ends p faults s V E S) (hV : ∀ a s, V a s → V' a s) (hE : ∀ e s, E e s → E' e s)
    (hS : ∀ s, S s → S' s) : Ends p faults s V' E' S' := by
  unfold Ends at h ⊢
  split at h
  · exact hV _ _ h
  · exact hE _ _ h
  · exact hS _ h

theorem Ends.pure {a : α} (h : V a s) : Ends (Pure.pure a : Program L σ ε α) faults s V E S := h

theorem Ends.throw {e : ε} (h : E e s) : Ends (Program.throw e : Program L σ ε α) faults s V E S := h

theorem Ends.bind (h : Ends p faults s (fun a s => Ends (k a) faults s W E S) E S) :
    Ends (p >>= k) faults s W E S := by
  unfold Ends at h ⊢
  change match Program.bind p k faults s with
    | (.value a, s) => W a s
    | (.error e, s) => E e s
    | (.stop, s) => S s
  unfold Program.bind
  split at h
  · exact h
  · exact h
  · exact h

theorem Ends.look {io : ε} {label : L} {f : σ → Except ε α}
    (hok : ∀ a, f s = .ok a → faults label = .done → V a s) (hbad : ∀ e, f s = .error e → E e s)
    (hE : ∀ n, faults label = .failed n → E io s) (hS : ∀ n, faults label = .stopped n → S s) :
    Ends (Program.look io label f) faults s V E S := by
  unfold Ends Program.look
  cases hlabel : faults label with
  | done =>
    cases hf : f s with
    | ok a => exact hok a hf hlabel
    | error e => exact hbad e hf
  | failed n => exact hE n hlabel
  | stopped n => exact hS n hlabel

theorem Ends.gradual {io : ε} {label : L} {part : ℕ → σ → σ} {effect : σ → σ} {V : PUnit → σ → Prop}
    (hdone : faults label = .done → V ⟨⟩ (effect s)) (hE : ∀ n, faults label = .failed n → E io (part n s))
    (hS : ∀ n, faults label = .stopped n → S (part n s)) :
    Ends (Program.gradual io label part effect) faults s V E S := by
  unfold Ends Program.gradual
  cases hf : faults label with
  | done => exact hdone hf
  | failed n => exact hE n hf
  | stopped n => exact hS n hf

theorem Ends.atomic {io : ε} {label : L} {effect : σ → σ} {V : PUnit → σ → Prop}
    (hdone : faults label = .done → V ⟨⟩ (effect s))
    (hE : faults label = .failed 0 → E io s) (hE' : ∀ n, faults label = .failed (n + 1) → E io (effect s))
    (hS : faults label = .stopped 0 → S s) (hS' : ∀ n, faults label = .stopped (n + 1) → S (effect s)) :
    Ends (Program.atomic io label effect) faults s V E S := by
  refine Ends.gradual hdone (fun n hn => ?_) (fun n hn => ?_)
  · cases n with
    | zero => exact hE hn
    | succ n => exact hE' n hn
  · cases n with
    | zero => exact hS hn
    | succ n => exact hS' n hn

theorem Ends.look_done {io : ε} {label : L} {f : σ → Except ε α} {a : α} (hlabel : faults label = .done)
    (hf : f s = .ok a) (hV : V a s) : Ends (Program.look io label f) faults s V E S := by
  unfold Ends Program.look
  rw [hlabel, hf]
  exact hV

theorem Ends.gradual_done {io : ε} {label : L} {part : ℕ → σ → σ} {effect : σ → σ} {V : PUnit → σ → Prop}
    (hlabel : faults label = .done) (hV : V ⟨⟩ (effect s)) :
    Ends (Program.gradual io label part effect) faults s V E S := by
  unfold Ends Program.gradual
  rw [hlabel]
  exact hV

theorem Ends.gradual_stopped {io : ε} {label : L} {part : ℕ → σ → σ} {effect : σ → σ} {V : PUnit → σ → Prop} {n : ℕ}
    (hlabel : faults label = .stopped n) (hS : S (part n s)) :
    Ends (Program.gradual io label part effect) faults s V E S := by
  unfold Ends Program.gradual
  rw [hlabel]
  exact hS

theorem Ends.rescue {handler : ε → Program L σ ε α}
    (h : Ends p faults s V (fun e s => Ends (handler e) faults s V E S) S) :
    Ends (p.rescue handler) faults s V E S := by
  unfold Ends at h ⊢
  unfold Program.rescue
  split at h
  · next heq => rw [heq]; exact h
  · next heq => rw [heq]; exact h
  · next heq => rw [heq]; exact h

theorem Ends.ignore {p : Program L σ ε PUnit} {V : PUnit → σ → Prop}
    (h : Ends p faults s V (fun _ s => V ⟨⟩ s) S) : Ends p.ignore faults s V E S :=
  Ends.rescue (h.mono (fun _ _ hv => hv) (fun _ _ hv => hv) fun _ hs => hs)

theorem Ends.relabel {f : M → L} {p : Program M σ ε α} (h : Ends p (faults ∘ f) s V E S) :
    Ends (p.relabel f) faults s V E S := h

/-- A loop over a list, with an invariant about what is still to come. -/
theorem Ends.forM {ι : Type u} {l : List ι} {body : ι → Program L σ ε PUnit} {I : List ι → σ → Prop}
    (hs : I l s)
    (hstep : ∀ i rest s, I (i :: rest) s → Ends (body i) faults s (fun _ s => I rest s) E S) :
    Ends (l.forM body) faults s (fun _ s => I [] s) E S := by
  induction l generalizing s with
  | nil => exact hs
  | cons i l ih => exact Ends.bind ((hstep i l s hs).mono (fun _ _ hI => ih hI) (fun _ _ h => h) fun _ h => h)

/-! ## Programs that stay within a preorder -/

/-- Wherever it ends, the program has gone up the order. -/
def Within (R : σ → σ → Prop) (p : Program L σ ε α) : Prop :=
  ∀ faults s, Ends p faults s (fun _ => R s) (fun _ => R s) (R s)

section
variable {R R' : σ → σ → Prop}

theorem Within.mono (h : Within R p) (hR : ∀ s s', R s s' → R' s s') : Within R' p :=
  fun faults s => (h faults s).mono (fun _ => hR s) (fun _ => hR s) (hR s)

theorem Within.final (h : Within R p) (faults : L → Outcome) (s : σ) : R s (p faults s).2 := by
  have := h faults s
  unfold Ends at this
  split at this <;> next heq => rw [heq]; exact this

theorem Within.and (h : Within R p) (h' : Within R' p) : Within (fun s s' => R s s' ∧ R' s s') p := by
  intro faults s
  have hs := h faults s
  have hs' := h' faults s
  unfold Ends at hs hs' ⊢
  split at hs <;> next heq => rw [heq] at hs'; exact ⟨hs, hs'⟩

theorem Within.relabel {f : M → L} {p : Program M σ ε α} (h : Within R p) : Within R (p.relabel f) :=
  fun faults s => h (faults ∘ f) s

theorem Within.gradual {io : ε} {label : L} {part : ℕ → σ → σ} {effect : σ → σ} (hpart : ∀ n s, R s (part n s))
    (heffect : ∀ s, R s (effect s)) : Within R (Program.gradual io label part effect) := fun _ s =>
  Ends.gradual (fun _ => heffect s) (fun n _ => hpart n s) fun n _ => hpart n s

variable [IsPreorder σ R]

theorem Within.pure (a : α) : Within R (Pure.pure a : Program L σ ε α) := fun _ s => Std.Refl.refl (r := R) s

theorem Within.throw (e : ε) : Within R (Program.throw e : Program L σ ε α) := fun _ s => Std.Refl.refl (r := R) s

theorem Within.look (io : ε) (label : L) (f : σ → Except ε α) : Within R (Program.look io label f) := fun _ s =>
  have hs := Std.Refl.refl (r := R) s
  Ends.look (fun _ _ _ => hs) (fun _ _ => hs) (fun _ _ => hs) fun _ _ => hs

theorem Within.bind (h : Within R p) (hk : ∀ a, Within R (k a)) : Within R (p >>= k) := by
  intro faults s
  refine Ends.bind ((h faults s).mono (fun a s' hs' => ?_) (fun _ _ h => h) fun _ h => h)
  have htrans : ∀ s'', R s' s'' → R s s'' := fun s'' hs'' => IsTrans.trans _ _ _ hs' hs''
  exact (hk a faults s').mono (fun _ => htrans) (fun _ => htrans) htrans

theorem Within.atomic {io : ε} {label : L} {effect : σ → σ} (heffect : ∀ s, R s (effect s)) :
    Within R (Program.atomic io label effect) := by
  refine Within.gradual (fun n s => ?_) heffect
  split
  · exact Std.Refl.refl (r := R) s
  · exact heffect s

theorem Within.rescue {handler : ε → Program L σ ε α} (h : Within R p) (hhandler : ∀ e, Within R (handler e)) :
    Within R (p.rescue handler) := by
  intro faults s
  refine Ends.rescue ((h faults s).mono (fun _ _ h => h) (fun e s' hs' => ?_) fun _ h => h)
  have htrans : ∀ s'', R s' s'' → R s s'' := fun s'' hs'' => IsTrans.trans _ _ _ hs' hs''
  exact (hhandler e faults s').mono (fun _ => htrans) (fun _ => htrans) htrans

theorem Within.ignore {p : Program L σ ε PUnit} (h : Within R p) : Within R p.ignore :=
  Within.rescue h fun _ => Within.pure _

theorem Within.forM {ι : Type u} {l : List ι} {body : ι → Program L σ ε PUnit} (h : ∀ i ∈ l, Within R (body i)) :
    Within R (l.forM body) := by
  induction l with
  | nil => exact Within.pure _
  | cons i l ih =>
    exact Within.bind (h i List.mem_cons_self) fun _ => ih fun j hj => h j (List.mem_cons_of_mem i hj)

end

/-! ## Straight runs -/

/-- From `s`, the program performs the steps of a list. If all of them are done it ends in a value with `V`;
otherwise it ends before, with `I`. -/
def Runs (p : Program L σ ε α) (faults : L → Outcome) (s : σ) (steps : List L) (V : α → σ → Prop) (I : σ → Prop) :
    Prop :=
  Ends p faults s (fun a s => V a s ∧ ∀ step ∈ steps, faults step = .done)
    (fun _ s => I s ∧ ∃ step ∈ steps, faults step ≠ .done) (fun s => I s ∧ ∃ step ∈ steps, faults step ≠ .done)

variable {steps steps' : List L} {I : σ → Prop}

theorem Runs.mono {J : σ → Prop} (h : Runs p faults s steps V I) (hV : ∀ a s, V a s → V' a s)
    (hI : ∀ s, I s → J s) : Runs p faults s steps V' J :=
  Ends.mono h (fun a s hv => ⟨hV a s hv.1, hv.2⟩) (fun _ s h => ⟨hI s h.1, h.2⟩) fun s h => ⟨hI s h.1, h.2⟩

theorem Runs.pure {a : α} (h : V a s) : Runs (Pure.pure a : Program L σ ε α) faults s [] V I :=
  ⟨h, fun _ hstep => absurd hstep List.not_mem_nil⟩

theorem Runs.bind (h : Runs p faults s steps (fun a s => Runs (k a) faults s steps' W I) I) :
    Runs (p >>= k) faults s (steps ++ steps') W I := by
  refine Ends.bind (Ends.mono h ?_ ?_ ?_)
  · rintro a s ⟨hk, hdone⟩
    refine Ends.mono hk ?_ ?_ ?_
    · rintro b s ⟨hW, hdone'⟩
      refine ⟨hW, fun step hstep => ?_⟩
      rcases List.mem_append.mp hstep with hmem | hmem
      · exact hdone step hmem
      · exact hdone' step hmem
    · rintro _ s ⟨hI, step, hmem, hf⟩
      exact ⟨hI, step, List.mem_append_right steps hmem, hf⟩
    · rintro s ⟨hI, step, hmem, hf⟩
      exact ⟨hI, step, List.mem_append_right steps hmem, hf⟩
  · rintro _ s ⟨hI, step, hmem, hf⟩
    exact ⟨hI, step, List.mem_append_left steps' hmem, hf⟩
  · rintro s ⟨hI, step, hmem, hf⟩
    exact ⟨hI, step, List.mem_append_left steps' hmem, hf⟩

theorem Runs.relabel {f : M → L} {p : Program M σ ε α} {steps : List M}
    (h : Runs p (faults ∘ f) s steps V I) : Runs (p.relabel f) faults s (steps.map f) V I := by
  refine Ends.relabel (Ends.mono h ?_ ?_ ?_)
  · rintro a s ⟨hV, hdone⟩
    refine ⟨hV, fun step hstep => ?_⟩
    obtain ⟨step, hmem, rfl⟩ := List.mem_map.mp hstep
    exact hdone step hmem
  · rintro _ s ⟨hI, step, hmem, hf⟩
    exact ⟨hI, f step, List.mem_map_of_mem hmem, hf⟩
  · rintro s ⟨hI, step, hmem, hf⟩
    exact ⟨hI, f step, List.mem_map_of_mem hmem, hf⟩

theorem not_done_of_failed {label : L} {n : ℕ} (h : faults label = .failed n) :
    ∃ step ∈ [label], faults step ≠ .done :=
  ⟨label, List.mem_singleton_self label, by rw [h]; exact Outcome.noConfusion⟩

theorem not_done_of_stopped {label : L} {n : ℕ} (h : faults label = .stopped n) :
    ∃ step ∈ [label], faults step ≠ .done :=
  ⟨label, List.mem_singleton_self label, by rw [h]; exact Outcome.noConfusion⟩

theorem Runs.gradual {io : ε} {label : L} {part : ℕ → σ → σ} {effect : σ → σ} {V : PUnit → σ → Prop}
    (hpart : ∀ n, I (part n s)) (hV : V ⟨⟩ (effect s)) :
    Runs (Program.gradual io label part effect) faults s [label] V I :=
  Ends.gradual (fun hf => ⟨hV, fun _ hstep => List.mem_singleton.mp hstep ▸ hf⟩)
    (fun n hf => ⟨hpart n, not_done_of_failed hf⟩) fun n hf => ⟨hpart n, not_done_of_stopped hf⟩

theorem Runs.atomic {io : ε} {label : L} {effect : σ → σ} {V : PUnit → σ → Prop} (hI : I s) (hI' : I (effect s))
    (hV : V ⟨⟩ (effect s)) : Runs (Program.atomic io label effect) faults s [label] V I := by
  refine Runs.gradual (fun n => ?_) hV
  split
  · exact hI
  · exact hI'

/-- A look that sees what the state is known to show. -/
theorem Runs.look {io : ε} {label : L} {f : σ → Except ε α} {a : α} (hI : I s) (hf : f s = .ok a) (hV : V a s) :
    Runs (Program.look io label f) faults s [label] V I := by
  refine Ends.look (fun b hb hlabel => ?_) (fun e he => ?_) (fun n hn => ⟨hI, not_done_of_failed hn⟩)
    fun n hn => ⟨hI, not_done_of_stopped hn⟩
  · rw [hf] at hb
    cases hb
    exact ⟨hV, fun _ hstep => List.mem_singleton.mp hstep ▸ hlabel⟩
  · rw [hf] at he
    cases he

/-- A loop that removes what the names of a list stand for, one name at a time. -/
theorem Runs.removeAll {ι : Type u} {io : ε} {label : ι → L} {remove : ι → σ → σ} {G : ι → σ → Prop}
    (hkeep : ∀ i s, I s → I (remove i s)) (hgone : ∀ i s, I s → G i (remove i s))
    (hstay : ∀ i j s, G i s → G i (remove j s)) (names : List ι) (hs : I s) :
    Runs (names.forM fun i => Program.atomic io (label i) (remove i)) faults s (names.map label)
      (fun _ s => I s ∧ ∀ i ∈ names, G i s) I := by
  suffices h : ∀ (past : List ι) (s : σ), I s → (∀ i ∈ past, G i s) →
      Runs (names.forM fun i => Program.atomic io (label i) (remove i)) faults s (names.map label)
        (fun _ s => I s ∧ ∀ i ∈ past ++ names, G i s) I by
    exact h [] s hs fun _ hi => absurd hi List.not_mem_nil
  induction names with
  | nil =>
    intro past s hs hpast
    exact Runs.pure ⟨hs, fun i hi => hpast i (by simpa using hi)⟩
  | cons name names ih =>
    intro past s hs hpast
    refine Runs.bind (Runs.atomic hs (hkeep name s hs) ?_)
    refine (ih (past ++ [name]) (remove name s) (hkeep name s hs) fun i hi => ?_).mono ?_ fun _ h => h
    · rcases List.mem_append.mp hi with hmem | hmem
      · exact hstay i name s (hpast i hmem)
      · rw [List.mem_singleton.mp hmem]
        exact hgone name s hs
    · rintro _ s ⟨hI, hall⟩
      exact ⟨hI, fun i hi => hall i (by simpa using hi)⟩

/-- Nothing fails. -/
def smooth : L → Outcome := fun _ => .done

theorem Runs.smooth (h : Runs p smooth s steps V I) : ∃ a s', p Program.smooth s = (.value a, s') ∧ V a s' := by
  unfold Runs Ends at h
  split at h
  · next heq => exact ⟨_, _, heq, h.1⟩
  · obtain ⟨-, step, -, hf⟩ := h
    exact absurd rfl hf
  · obtain ⟨-, step, -, hf⟩ := h
    exact absurd rfl hf

/-! ## Runs in which nothing fails -/

/-- If nothing fails the program ends in a value, with `V`. -/
def Yields (p : Program L σ ε α) (s : σ) (V : α → σ → Prop) : Prop :=
  ∃ a s', p Program.smooth s = (.value a, s') ∧ V a s'

theorem Yields.mono (h : Yields p s V) (hV : ∀ a s, V a s → V' a s) : Yields p s V' := by
  obtain ⟨a, s', heq, h⟩ := h
  exact ⟨a, s', heq, hV a s' h⟩

theorem Yields.pure {a : α} (h : V a s) : Yields (Pure.pure a : Program L σ ε α) s V := ⟨a, s, rfl, h⟩

theorem Yields.bind (h : Yields p s fun a s => Yields (k a) s W) : Yields (p >>= k) s W := by
  obtain ⟨a, s', heq, b, s'', heq', h⟩ := h
  refine ⟨b, s'', ?_, h⟩
  change Program.bind p k Program.smooth s = _
  unfold Program.bind
  rw [heq]
  exact heq'

theorem Yields.look {io : ε} {label : L} {f : σ → Except ε α} {a : α} (hf : f s = .ok a) (hV : V a s) :
    Yields (Program.look io label f) s V := by
  refine ⟨a, s, ?_, hV⟩
  unfold Program.look
  rw [hf]
  rfl

theorem Yields.gradual {io : ε} {label : L} {part : ℕ → σ → σ} {effect : σ → σ} {V : PUnit → σ → Prop}
    (hV : V ⟨⟩ (effect s)) : Yields (Program.gradual io label part effect) s V := ⟨⟨⟩, effect s, rfl, hV⟩

theorem Yields.atomic {io : ε} {label : L} {effect : σ → σ} {V : PUnit → σ → Prop} (hV : V ⟨⟩ (effect s)) :
    Yields (Program.atomic io label effect) s V := Yields.gradual hV

theorem Yields.relabel {f : M → L} {p : Program M σ ε α} (h : Yields p s V) : Yields (p.relabel f) s V := h

theorem Yields.forM {ι : Type u} {l : List ι} {body : ι → Program L σ ε PUnit} {I : List ι → σ → Prop} (hs : I l s)
    (hstep : ∀ i rest s, i ∈ l → I (i :: rest) s → Yields (body i) s fun _ s => I rest s) :
    Yields (l.forM body) s fun _ s => I [] s := by
  induction l generalizing s with
  | nil => exact Yields.pure hs
  | cons i l ih =>
    refine Yields.bind ((hstep i l s List.mem_cons_self hs).mono fun _ s hI => ih hI ?_)
    exact fun j rest s hj hI => hstep j rest s (List.mem_cons_of_mem i hj) hI

theorem Yields.within {R : σ → σ → Prop} (h : Yields p s V) (hp : Within R p) :
    Yields p s fun a s' => V a s' ∧ R s s' := by
  obtain ⟨a, s', heq, h⟩ := h
  have hR := hp.final Program.smooth s
  rw [heq] at hR
  exact ⟨a, s', heq, h, hR⟩

/-- A run that ends in a value is one in which nothing failed. -/
def Plain (p : Program L σ ε α) : Prop :=
  ∀ faults s a s', p faults s = (.value a, s') → p Program.smooth s = (.value a, s')

theorem Plain.pure (a : α) : Plain (Pure.pure a : Program L σ ε α) := fun _ _ _ _ h => h

theorem Plain.throw (e : ε) : Plain (Program.throw e : Program L σ ε α) := fun _ _ _ _ h => h

theorem Plain.look (io : ε) (label : L) (f : σ → Except ε α) : Plain (Program.look io label f) := by
  intro faults s a s' h
  unfold Program.look at h ⊢
  split at h
  · exact h
  · cases h
  · cases h

theorem Plain.gradual (io : ε) (label : L) (part : ℕ → σ → σ) (effect : σ → σ) :
    Plain (Program.gradual io label part effect) := by
  intro faults s a s' h
  unfold Program.gradual at h ⊢
  split at h
  · exact h
  · cases h
  · cases h

theorem Plain.atomic (io : ε) (label : L) (effect : σ → σ) : Plain (Program.atomic io label effect) :=
  Plain.gradual io label _ effect

theorem Plain.bind (hp : Plain p) (hk : ∀ a, Plain (k a)) : Plain (p >>= k) := by
  intro faults s b s' h
  change Program.bind p k faults s = _ at h
  change Program.bind p k Program.smooth s = _
  unfold Program.bind at h ⊢
  split at h
  · next a s'' heq =>
    rw [hp faults s a s'' heq]
    exact hk a faults s'' b s' h
  · cases h
  · cases h

theorem Plain.relabel {f : M → L} {p : Program M σ ε α} (hp : Plain p) : Plain (p.relabel f) :=
  fun faults s a s' h => hp (faults ∘ f) s a s' h

theorem Plain.forM {ι : Type u} {l : List ι} {body : ι → Program L σ ε PUnit} (h : ∀ i, Plain (body i)) :
    Plain (l.forM body) := by
  induction l with
  | nil => exact Plain.pure _
  | cons i l ih => exact Plain.bind (h i) fun _ => ih

/-- What nothing failing yields, a value comes with, whatever else may fail. -/
theorem Yields.ends (h : Yields p s V) (hp : Plain p) (hE : ∀ e s', p faults s = (.error e, s') → E e s')
    (hS : ∀ s', p faults s = (.stop, s') → S s') : Ends p faults s V E S := by
  obtain ⟨a, s', heq, h⟩ := h
  unfold Ends
  split
  · next b s'' hvalue =>
    have := hp faults s b s'' hvalue
    rw [heq] at this
    cases this
    exact h
  · next e s'' herror => exact hE e s'' herror
  · next s'' hstop => exact hS s'' hstop

theorem Yields.ends_within {R : σ → σ → Prop} (h : Yields p s V) (hp : Plain p) (hR : Within R p) :
    Ends p faults s V (fun _ s' => R s s') fun s' => R s s' := by
  refine h.ends hp (fun e s' heq => ?_) fun s' heq => ?_
  · have := hR.final faults s
    rwa [heq] at this
  · have := hR.final faults s
    rwa [heq] at this

theorem Yields.ends_smooth (h : Yields p s V) : Ends p Program.smooth s V E S := by
  obtain ⟨a, s', heq, h⟩ := h
  unfold Ends
  rw [heq]
  exact h

theorem Yields.of_bind (h : Yields (p >>= k) s W) : Yields p s fun a s => Yields (k a) s W := by
  obtain ⟨b, s', heq, hW⟩ := h
  change Program.bind p k Program.smooth s = _ at heq
  unfold Program.bind at heq
  split at heq
  · next a s'' hp => exact ⟨a, s'', hp, b, s', heq, hW⟩
  · cases heq
  · cases heq

/-- A program that starts with a look yields only if the look succeeds. -/
theorem Yields.of_look {io : ε} {label : L} {f : σ → Except ε α} (h : Yields (Program.look io label f >>= k) s W) :
    ∃ a, f s = .ok a ∧ Yields (k a) s W := by
  obtain ⟨a, s', heq, h⟩ := h.of_bind
  unfold Program.look at heq
  cases hf : f s with
  | ok b =>
    rw [hf] at heq
    cases heq
    exact ⟨a, rfl, h⟩
  | error e =>
    rw [hf] at heq
    cases heq

end Program
end Fault
