import LpStudio.Lib.Fault

/-! # Calls to a component
A call asks a component that answers and may change its state. A fault before the call leaves the state as it was, a
fault after it loses only the answer.
-/
namespace Fault.Program

universe u
variable {L σ ε α β : Type u}

/-- A call, with the error that a fault at it is reported as. -/
def call (io : ε) (label : L) (f : σ → Except ε α × σ) : Program L σ ε α := fun faults s =>
  match faults label with
  | .done => match f s with
    | (.ok a, s) => (.value a, s)
    | (.error e, s) => (.error e, s)
  | .failed n => (.error io, if n = 0 then s else (f s).2)
  | .stopped n => (.stop, if n = 0 then s else (f s).2)

/-- A result that is already there. -/
def ofExcept : Except ε α → Program L σ ε α
  | .ok a => Program.pure a
  | .error e => throw e

/-- A place where only a fault can happen. -/
def failpoint (io : ε) (label : L) : Program L σ ε PUnit := look io label fun _ => .ok ⟨⟩

/-- The error of a program as a value. -/
def attempt (p : Program L σ ε α) : Program L σ ε (Except ε α) := fun faults s =>
  match p faults s with
  | (.value a, s) => (.value (.ok a), s)
  | (.error e, s) => (.value (.error e), s)
  | (.stop, s) => (.stop, s)

variable {p : Program L σ ε α} {faults : L → Outcome} {s : σ} {V : α → σ → Prop} {E : ε → σ → Prop} {S : σ → Prop}

/-- What every end of a call has in common is shown once for the state before and once for the state after it. -/
theorem Ends.call {io : ε} {label : L} {f : σ → Except ε α × σ}
    (hok : ∀ a s', f s = (.ok a, s') → faults label = .done → V a s')
    (herror : ∀ e s', f s = (.error e, s') → faults label = .done → E e s')
    (hE : E io s) (hE' : E io (f s).2) (hS : S s) (hS' : S (f s).2) : Ends (call io label f) faults s V E S := by
  unfold Ends Program.call
  cases hlabel : faults label with
  | done =>
    cases hf : f s with
    | mk answer s' =>
      cases answer with
      | ok a => exact hok a s' hf hlabel
      | error e => exact herror e s' hf hlabel
  | failed n =>
    dsimp only
    split
    · exact hE
    · exact hE'
  | stopped n =>
    dsimp only
    split
    · exact hS
    · exact hS'

theorem Ends.ofExcept {result : Except ε α} (hok : ∀ a, result = .ok a → V a s) (herror : ∀ e, result = .error e → E e s) :
    Ends (ofExcept result : Program L σ ε α) faults s V E S := by
  cases result with
  | ok a => exact hok a rfl
  | error e => exact herror e rfl

theorem Ends.failpoint {io : ε} {label : L} {V : PUnit → σ → Prop} (hV : V ⟨⟩ s) (hE : E io s) (hS : S s) :
    Ends (failpoint io label) faults s V E S :=
  Ends.look (fun _ h _ => by cases h; exact hV) (fun _ h => by cases h) (fun _ _ => hE) fun _ _ => hS

theorem Ends.attempt {V : Except ε α → σ → Prop} (h : Ends p faults s (fun a => V (.ok a)) (fun e => V (.error e)) S) :
    Ends p.attempt faults s V E S := by
  unfold Ends at h ⊢
  unfold Program.attempt
  cases hrun : p faults s with
  | mk exit s' =>
    rw [hrun] at h
    cases exit with
    | value a => exact h
    | error e => exact h
    | stop => exact h

/-! ## Going up a preorder -/

/-- From `s`, the program goes up the order wherever it ends, in a value with `V` or in an error with `E`. -/
def Climbs (R : σ → σ → Prop) (p : Program L σ ε α) (faults : L → Outcome) (s : σ) (V : α → σ → Prop)
    (E : ε → σ → Prop) : Prop :=
  Ends p faults s (fun a s' => R s s' ∧ V a s') (fun e s' => R s s' ∧ E e s') (R s)

section
variable {R : σ → σ → Prop} {k : α → Program L σ ε β} {W : β → σ → Prop} {V' : α → σ → Prop} {E' : ε → σ → Prop}

theorem Climbs.mono (h : Climbs R p faults s V E) (hV : ∀ a s', R s s' → V a s' → V' a s')
    (hE : ∀ e s', R s s' → E e s' → E' e s') : Climbs R p faults s V' E' :=
  Ends.mono h (fun a s' h => ⟨h.1, hV a s' h.1 h.2⟩) (fun e s' h => ⟨h.1, hE e s' h.1 h.2⟩) fun _ h => h

theorem Climbs.final (h : Climbs R p faults s V E) : R s (p faults s).2 := by
  unfold Climbs Ends at h
  cases hrun : p faults s with
  | mk exit s' =>
    rw [hrun] at h
    cases exit with
    | value a => exact h.1
    | error e => exact h.1
    | stop => exact h

theorem Climbs.value {a : α} (h : Climbs R p faults s V E) (hvalue : (p faults s).1 = .value a) : V a (p faults s).2 := by
  unfold Climbs Ends at h
  cases hrun : p faults s with
  | mk exit s' =>
    rw [hrun] at h hvalue
    cases hvalue
    exact h.2

theorem Climbs.relabel {M : Type u} {f : M → L} {p : Program M σ ε α} (h : Climbs R p (faults ∘ f) s V E) :
    Climbs R (p.relabel f) faults s V E := h

theorem Climbs.attempt {V : Except ε α → σ → Prop}
    (h : Climbs R p faults s (fun a => V (.ok a)) (fun e => V (.error e))) :
    Climbs R p.attempt faults s V E := Ends.attempt h

variable [IsPreorder σ R]

theorem Climbs.pure {a : α} (h : V a s) : Climbs R (Pure.pure a : Program L σ ε α) faults s V E :=
  Ends.pure ⟨Std.Refl.refl (r := R) s, h⟩

theorem Climbs.throw {e : ε} (h : E e s) : Climbs R (Program.throw e : Program L σ ε α) faults s V E :=
  Ends.throw ⟨Std.Refl.refl (r := R) s, h⟩

theorem Climbs.ofExcept {result : Except ε α} (hok : ∀ a, result = .ok a → V a s)
    (herror : ∀ e, result = .error e → E e s) : Climbs R (ofExcept result : Program L σ ε α) faults s V E :=
  Ends.ofExcept (fun a h => ⟨Std.Refl.refl (r := R) s, hok a h⟩) fun e h => ⟨Std.Refl.refl (r := R) s, herror e h⟩

/-- The error of a fault at the look, or one of its own. -/
theorem Climbs.look {io : ε} {label : L} {f : σ → Except ε α} (hok : ∀ a, f s = .ok a → faults label = .done → V a s)
    (herror : ∀ e, f s = .error e → E e s) (hE : faults label ≠ .done → E io s) :
    Climbs R (look io label f) faults s V E := by
  have hs := Std.Refl.refl (r := R) s
  refine Ends.look (fun a h hlabel => ⟨hs, hok a h hlabel⟩) (fun e h => ⟨hs, herror e h⟩) (fun n hn => ⟨hs, hE ?_⟩)
    fun _ _ => hs
  rw [hn]
  exact Outcome.noConfusion

theorem Climbs.failpoint {io : ε} {label : L} {V : PUnit → σ → Prop} (hV : faults label = .done → V ⟨⟩ s)
    (hE : faults label ≠ .done → E io s) : Climbs R (failpoint io label) faults s V E :=
  Climbs.look (fun _ h hlabel => by cases h; exact hV hlabel) (fun _ h => by cases h) hE

theorem Climbs.call {io : ε} {label : L} {f : σ → Except ε α × σ} (hR : R s (f s).2)
    (hok : ∀ a s', f s = (.ok a, s') → R s s' → V a s') (herror : ∀ e s', f s = (.error e, s') → R s s' → E e s')
    (hE : E io s) (hE' : E io (f s).2) : Climbs R (call io label f) faults s V E := by
  have hs := Std.Refl.refl (r := R) s
  refine Ends.call (fun a s' h _ => ?_) (fun e s' h _ => ?_) ⟨hs, hE⟩ ⟨hR, hE'⟩ hs hR
  · rw [h] at hR
    exact ⟨hR, hok a s' h hR⟩
  · rw [h] at hR
    exact ⟨hR, herror e s' h hR⟩

theorem Climbs.bind (h : Climbs R p faults s V E) (hk : ∀ a s', R s s' → V a s' → Climbs R (k a) faults s' W E) :
    Climbs R (p >>= k) faults s W E := by
  refine Ends.bind (Ends.mono h (fun a s' hs' => ?_) (fun _ _ h => h) fun _ h => h)
  have htrans : ∀ s'', R s' s'' → R s s'' := fun s'' hs'' => IsTrans.trans _ _ _ hs'.1 hs''
  exact Ends.mono (hk a s' hs'.1 hs'.2) (fun _ s'' h => ⟨htrans s'' h.1, h.2⟩) (fun _ s'' h => ⟨htrans s'' h.1, h.2⟩)
    htrans

end

end Fault.Program
