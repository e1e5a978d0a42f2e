import LpStudio.Lib.Calls
import LpStudio.Lib.Publishing

/-! # What a reply says of the state
A program replies with a value or an error. Errors of one kind say nothing about the state; any other error promises
that the state is still related to the one before.
-/
namespace Fault.Program

universe u
variable {L σ ε δ α β : Type u}

/-- Where the error of a sequence comes from. -/
theorem bind_error {x : Except ε α} {f : α → Except ε β} {e : ε} (h : (x >>= f) = .error e) :
    x = .error e ∨ ∃ a, x = .ok a ∧ f a = .error e := by
  cases x with
  | error e' => exact .inl (congrArg Except.error (Except.error.inj h))
  | ok a => exact .inr ⟨a, rfl, h⟩

/-- A part of a program at which no fault can happen. -/
def act (f : σ → Except ε α × σ) : Program L σ ε α := fun _ s =>
  match f s with
  | (.ok a, s) => (.value a, s)
  | (.error e, s) => (.error e, s)

def read (f : σ → Except ε α) : Program L σ ε α := act fun s => (f s, s)

def change (effect : σ → σ) : Program L σ ε PUnit := act fun s => (.ok ⟨⟩, effect s)

/-- `map_err` -/
def mapError (f : ε → δ) (p : Program L σ ε α) : Program L σ δ α := fun faults s =>
  match p faults s with
  | (.value a, s) => (.value a, s)
  | (.error e, s) => (.error (f e), s)
  | (.stop, s) => (.stop, s)

section
variable {p : Program L σ ε α} {k : α → Program L σ ε β} {faults : L → Outcome} {s : σ} {V : α → σ → Prop}
  {S : σ → Prop}

theorem Ends.act {E : ε → σ → Prop} {f : σ → Except ε α × σ} (hok : ∀ a s', f s = (.ok a, s') → V a s')
    (herror : ∀ e s', f s = (.error e, s') → E e s') : Ends (act f) faults s V E S := by
  unfold Ends Program.act
  cases hf : f s with
  | mk answer s' =>
    cases answer with
    | ok a => exact hok a s' hf
    | error e => exact herror e s' hf

theorem Ends.read {E : ε → σ → Prop} {f : σ → Except ε α} (hok : ∀ a, f s = .ok a → V a s)
    (herror : ∀ e, f s = .error e → E e s) : Ends (read f) faults s V E S := by
  refine Ends.act (fun a s' h => ?_) fun e s' h => ?_
  · obtain ⟨hf, rfl⟩ := Prod.mk.inj h
    exact hok a hf
  · obtain ⟨hf, rfl⟩ := Prod.mk.inj h
    exact herror e hf

theorem Ends.change {E : ε → σ → Prop} {V : PUnit → σ → Prop} {effect : σ → σ} (h : V ⟨⟩ (effect s)) :
    Ends (change effect) faults s V E S := by
  refine Ends.act (fun a s' heq => ?_) fun e s' heq => ?_
  · cases heq
    exact h
  · cases heq

/-- A look reports the error, because a fault hits it or because of what it reads. -/
def Fails (io : ε) (label : L) (f : σ → Except ε α) (faults : L → Outcome) (s : σ) (e : ε) : Prop :=
  (∃ n, faults label = .failed n ∧ io = e) ∨ faults label = .done ∧ f s = .error e

theorem Fails.run {io e : ε} {label : L} {f : σ → Except ε α} (h : Fails io label f faults s e) :
    look io label f faults s = (.error e, s) := by
  unfold look
  rcases h with ⟨n, hn, rfl⟩ | ⟨hdone, hf⟩
  · rw [hn]
  · rw [hdone, hf]

theorem Ends.look_fails {E : ε → σ → Prop} {io : ε} {label : L} {f : σ → Except ε α}
    (hok : ∀ a, faults label = .done → f s = .ok a → V a s) (hfails : ∀ e, Fails io label f faults s e → E e s)
    (hS : S s) : Ends (Program.look io label f) faults s V E S := by
  unfold Ends Program.look
  cases hlabel : faults label with
  | done =>
    cases hf : f s with
    | ok a => exact hok a hlabel hf
    | error e => exact hfails e (.inr ⟨hlabel, hf⟩)
  | failed n => exact hfails io (.inl ⟨n, hlabel, rfl⟩)
  | stopped n => exact hS

theorem Ends.mapError {E : δ → σ → Prop} {f : ε → δ} (h : Ends p faults s V (fun e => E (f e)) S) :
    Ends (p.mapError f) faults s V E S := by
  unfold Ends at h ⊢
  unfold Program.mapError
  cases heq : p faults s with
  | mk answer s' =>
    rw [heq] at h
    cases answer with
    | value a => exact h
    | error e => exact h
    | stop => exact h

theorem Within.mapError {R : σ → σ → Prop} (h : Within R p) (f : ε → δ) : Within R (p.mapError f) := fun faults s =>
  Ends.mapError (h faults s)

/-- A component that the relation does not look at. -/
theorem Within.on_other {τ : Type u} {R : σ → σ → Prop} {get : σ → τ} {set : τ → σ → σ} (h : ∀ s t, R s (set t s))
    (p : Program L τ ε α) : Within R (p.on get set) := fun _ s =>
  Ends.on (ends_trivial.mono (fun _ t _ => h s t) (fun _ t _ => h s t) fun t _ => h s t)

theorem Within.act {R : σ → σ → Prop} {f : σ → Except ε α × σ} (h : ∀ s, R s (f s).2) :
    Within R (act f : Program L σ ε α) := by
  intro faults s
  have hs := h s
  refine Ends.act (fun a s' heq => ?_) fun e s' heq => ?_
  · rwa [heq] at hs
  · rwa [heq] at hs

theorem Within.read {R : σ → σ → Prop} [IsPreorder σ R] (f : σ → Except ε α) : Within R (read f : Program L σ ε α) :=
  Within.act fun s => Std.Refl.refl (r := R) s

theorem Within.change {R : σ → σ → Prop} {effect : σ → σ} (h : ∀ s, R s (effect s)) :
    Within R (change effect : Program L σ ε PUnit) := Within.act h

theorem Within.ofExcept {R : σ → σ → Prop} [IsPreorder σ R] (result : Except ε α) :
    Within R (ofExcept result : Program L σ ε α) := fun _ s =>
  have hs := Std.Refl.refl (r := R) s
  Ends.ofExcept (fun _ _ => hs) fun _ _ => hs

theorem Within.failpoint {R : σ → σ → Prop} [IsPreorder σ R] (io : ε) (label : L) :
    Within R (failpoint io label : Program L σ ε PUnit) := Within.look io label _

end

theorem Within.ofExcept_bind {R : σ → σ → Prop} [IsPreorder σ R] {result : Except ε α}
    (hk : ∀ a, result = .ok a → Within R (k a)) : Within R (Program.ofExcept result >>= k) := fun faults s =>
  have hs := Std.Refl.refl (r := R) s
  Ends.bind (Ends.ofExcept (fun a h => hk a h faults s) fun _ _ => hs)

theorem Within.call {R : σ → σ → Prop} [IsPreorder σ R] {io : ε} {label : L} {f : σ → Except ε α × σ}
    (h : ∀ s, R s (f s).2) : Within R (call io label f) := by
  intro faults s
  have hs := Std.Refl.refl (r := R) s
  have hcall := h s
  refine Ends.call (fun a s' heq _ => ?_) (fun e s' heq _ => ?_) hs hcall hs hcall
  · rwa [heq] at hcall
  · rwa [heq] at hcall

theorem Within.attempt {R : σ → σ → Prop} (h : Within R p) : Within R p.attempt := fun faults s =>
  Ends.attempt (h faults s)

theorem Ends.final (h : Ends p faults s (fun _ => S) (fun _ => S) S) : S (p faults s).2 := by
  unfold Ends at h
  split at h
  · next heq =>
    rw [heq]
    exact h
  · next heq =>
    rw [heq]
    exact h
  · next heq =>
    rw [heq]
    exact h

/-- However a program within the relation ends. -/
theorem Within.ends {R : σ → σ → Prop} (h : Within R p) (hS : ∀ s', R s s' → S s') :
    Ends p faults s (fun _ => S) (fun _ => S) S :=
  (h faults s).mono (fun _ => hS) (fun _ => hS) hS

/-- What keeps to the relation climbs it, and says no more. -/
theorem Within.climbs {R : σ → σ → Prop} (h : Within R p) (faults : L → Outcome) (s : σ) :
    Climbs R p faults s (fun _ _ => True) fun _ _ => True :=
  (h faults s).mono (fun _ _ h => ⟨h, trivial⟩) (fun _ _ h => ⟨h, trivial⟩) fun _ h => h

theorem Within.publishing {R : σ → σ → Prop} [IsPreorder σ R] {io : ε} {build cleanup : Program L σ ε PUnit}
    {rename sync : L} {publish : σ → σ} (hbuild : Within R build) (hpublish : ∀ s, R s (publish s))
    (hcleanup : Within R cleanup) : Within R (publishing io build rename sync publish cleanup) := by
  refine Within.rescue (Within.bind hbuild fun _ => ?_) fun e => ?_
  · exact Within.bind (Within.atomic hpublish) fun _ => Within.atomic fun s => Std.Refl.refl (r := R) s
  · exact Within.bind (Within.ignore hcleanup) fun _ => Within.throw e

/-! ## Errors that admit a change -/

/-- Every error of the program is of the kind. -/
def Admits (loud : ε → Prop) (p : Program L σ ε α) : Prop :=
  ∀ faults s, Ends p faults s (fun _ _ => True) (fun e _ => loud e) fun _ => True

/-- After an error that is not of the kind, the state is related to the one before. -/
def Candid (R : σ → σ → Prop) (loud : ε → Prop) (p : Program L σ ε α) : Prop :=
  ∀ faults s, Ends p faults s (fun _ _ => True) (fun e s' => loud e ∨ R s s') fun _ => True

section
variable {loud : ε → Prop} {p : Program L σ ε α} {k : α → Program L σ ε β}

theorem Admits.pure (a : α) : Admits loud (Pure.pure a : Program L σ ε α) := fun _ _ => trivial

theorem Admits.bind (hp : Admits loud p) (hk : ∀ a, Admits loud (k a)) : Admits loud (p >>= k) := fun faults s =>
  Ends.bind ((hp faults s).mono (fun a s' _ => hk a faults s') (fun _ _ h => h) fun _ h => h)

theorem Admits.throw {e : ε} (h : loud e) : Admits loud (Program.throw e : Program L σ ε α) := fun _ _ => h

theorem Admits.ofExcept {result : Except ε α} (h : ∀ e, result = .error e → loud e) :
    Admits loud (ofExcept result : Program L σ ε α) := fun _ _ => Ends.ofExcept (fun _ _ => trivial) h

theorem Admits.look {io : ε} {label : L} {f : σ → Except ε α} (hio : loud io) (hf : ∀ s e, f s = .error e → loud e) :
    Admits loud (Program.look io label f) := fun _ s =>
  Ends.look (fun _ _ _ => trivial) (hf s) (fun _ _ => hio) fun _ _ => trivial

theorem Admits.gradual {io : ε} {label : L} {part : ℕ → σ → σ} {effect : σ → σ} (hio : loud io) :
    Admits loud (Program.gradual io label part effect) := fun _ _ =>
  Ends.gradual (fun _ => trivial) (fun _ _ => hio) fun _ _ => trivial

theorem Admits.atomic {io : ε} {label : L} {effect : σ → σ} (hio : loud io) :
    Admits loud (Program.atomic io label effect) := Admits.gradual hio

theorem Admits.change {effect : σ → σ} : Admits loud (change effect : Program L σ ε PUnit) := fun _ _ =>
  Ends.change trivial

theorem Admits.mapError {f : δ → ε} {p : Program L σ δ α} (h : Admits (fun e => loud (f e)) p) :
    Admits loud (p.mapError f) := fun faults s => Ends.mapError (h faults s)

theorem Admits.on {τ : Type u} {get : σ → τ} {set : τ → σ → σ} {p : Program L τ ε α} (h : Admits loud p) :
    Admits loud (p.on get set) := fun faults s => Ends.on (h faults (get s))

theorem Admits.relabel {M : Type u} {f : M → L} {p : Program M σ ε α} (h : Admits loud p) :
    Admits loud (p.relabel f) := fun faults s => h (faults ∘ f) s

theorem Admits.rescue {handler : ε → Program L σ ε α} (h : ∀ e, loud e → Admits loud (handler e)) (hp : Admits loud p) :
    Admits loud (p.rescue handler) := fun faults s =>
  Ends.rescue ((hp faults s).mono (fun _ _ h => h) (fun e s' he => h e he faults s') fun _ h => h)

/-- A handler that replaces every error. -/
theorem Admits.rescue_all {handler : ε → Program L σ ε α} (h : ∀ e, Admits loud (handler e)) (p : Program L σ ε α) :
    Admits loud (p.rescue handler) := fun faults _ =>
  Ends.rescue (ends_trivial.mono (fun _ _ h => h) (fun e s' _ => h e faults s') fun _ h => h)

theorem Admits.failpoint {io : ε} {label : L} (hio : loud io) :
    Admits loud (failpoint io label : Program L σ ε PUnit) :=
  Admits.look hio fun _ _ h => by cases h

theorem Admits.forM {ι : Type u} {l : List ι} {body : ι → Program L σ ε PUnit} (h : ∀ i ∈ l, Admits loud (body i)) :
    Admits loud (l.forM body) := by
  induction l with
  | nil => exact Admits.pure _
  | cons i l ih => exact Admits.bind (h i List.mem_cons_self) fun _ => ih fun j hj => h j (List.mem_cons_of_mem i hj)

variable {R : σ → σ → Prop}

theorem Within.candid (h : Within R p) : Candid R loud p := fun faults s =>
  (h faults s).mono (fun _ _ _ => trivial) (fun _ _ hR => .inr hR) fun _ _ => trivial

theorem Admits.candid (h : Admits loud p) : Candid R loud p := fun faults s =>
  (h faults s).mono (fun _ _ _ => trivial) (fun _ _ he => .inl he) fun _ _ => trivial

theorem Candid.weaken {loud' : ε → Prop} (h : Candid R loud p) (hloud : ∀ e, loud e → loud' e) : Candid R loud' p :=
  fun faults s => (h faults s).mono (fun _ _ h => h) (fun e _ h => h.imp_left (hloud e)) fun _ h => h

/-- What comes before keeps to the relation. -/
theorem Candid.bind [IsPreorder σ R] (hp : Within R p) (hk : ∀ a, Candid R loud (k a)) : Candid R loud (p >>= k) := by
  intro faults s
  refine Ends.bind ((hp faults s).mono (fun a s' hs' => ?_) (fun _ _ hR => .inr hR) fun _ _ => trivial)
  exact (hk a faults s').mono (fun _ _ _ => trivial) (fun _ _ h => h.imp_right (IsTrans.trans _ _ _ hs')) fun _ h => h

theorem Candid.ofExcept_bind [IsPreorder σ R] {result : Except ε α} (hk : ∀ a, result = .ok a → Candid R loud (k a)) :
    Candid R loud (ofExcept result >>= k) := fun faults s =>
  Ends.bind (Ends.ofExcept (fun a h => hk a h faults s) fun _ _ => .inr (Std.Refl.refl (r := R) s))

/-- What comes after has only errors that admit a change. -/
theorem Candid.bind_admits (hp : Candid R loud p) (hk : ∀ a, Admits loud (k a)) : Candid R loud (p >>= k) := by
  intro faults s
  refine Ends.bind ((hp faults s).mono (fun a s' _ => ?_) (fun _ _ h => h) fun _ h => h)
  exact (hk a faults s').mono (fun _ _ h => h) (fun _ _ he => .inl he) fun _ h => h

theorem Candid.mapError {f : δ → ε} {p : Program L σ δ α} (h : Candid R (fun e => loud (f e)) p) :
    Candid R loud (p.mapError f) := fun faults s => Ends.mapError (h faults s)

theorem Candid.relabel {M : Type u} {f : M → L} {p : Program M σ ε α} (h : Candid R loud p) :
    Candid R loud (p.relabel f) := fun faults s => h (faults ∘ f) s

theorem Candid.on {τ : Type u} {R' : τ → τ → Prop} {get : σ → τ} {set : τ → σ → σ} {p : Program L τ ε α}
    (h : Candid R' loud p) (hR : ∀ s t, R' (get s) t → R s (set t s)) : Candid R loud (p.on get set) := fun faults s =>
  Ends.on ((h faults (get s)).mono (fun _ _ h => h) (fun _ t h => h.imp_right (hR s t)) fun _ h => h)

end
end Fault.Program
