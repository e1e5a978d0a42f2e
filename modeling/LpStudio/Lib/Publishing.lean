import LpStudio.Lib.Fault

/-! # Publication by one step
Something is built out of sight and then published by one atomic step, which one more step makes durable. After an
error what was built is cleaned up, under the name that it had before the publication.
-/
namespace Fault
namespace Program

universe u
variable {L M σ τ ε α β γ : Type u}

instance : LawfulMonad (Program L σ ε) := by
  refine LawfulMonad.mk' _ (fun p => ?_) (fun _ _ => rfl) fun p k l => ?_
  · funext faults s
    change Program.bind p _ faults s = p faults s
    unfold Program.bind
    cases hp : p faults s with
    | mk exit t =>
      cases exit with
      | value a => rfl
      | error e => rfl
      | stop => rfl
  · funext faults s
    change Program.bind (Program.bind p k) l faults s = Program.bind p (fun a => Program.bind (k a) l) faults s
    unfold Program.bind
    cases hp : p faults s with
    | mk exit t =>
      cases exit with
      | value a => rfl
      | error e => rfl
      | stop => rfl

/-- An invariant as a preorder. -/
instance (I : σ → Prop) : IsPreorder σ fun s t => I s → I t where
  refl _ h := h
  trans _ _ _ h h' := h' ∘ h

/-! ## Components of the state -/

/-- The program on a component of the state. -/
def on (get : σ → τ) (set : τ → σ → σ) (p : Program L τ ε α) : Program L σ ε α := fun faults s =>
  ((p faults (get s)).1, set (p faults (get s)).2 s)

section
variable {get : σ → τ} {set : τ → σ → σ} {p : Program L τ ε α} {faults : L → Outcome} {s : σ} {V : α → σ → Prop}
  {E : ε → σ → Prop} {S : σ → Prop}

theorem Ends.on (h : Ends p faults (get s) (fun a t => V a (set t s)) (fun e t => E e (set t s)) fun t => S (set t s)) :
    Ends (p.on get set) faults s V E S := by
  unfold Ends at h ⊢
  unfold Program.on
  split at h <;> next heq => rw [heq]; exact h

theorem Within.on {R : τ → τ → Prop} {R' : σ → σ → Prop} (h : Within R p)
    (hR : ∀ s t, R (get s) t → R' s (set t s)) : Within R' (p.on get set) := fun faults s =>
  Ends.on ((h faults (get s)).mono (fun _ t => hR s t) (fun _ t => hR s t) fun t => hR s t)

theorem Yields.on (h : Yields p (get s) fun a t => V a (set t s)) : Yields (p.on get set) s V := by
  obtain ⟨a, t, heq, h⟩ := h
  refine ⟨a, set t s, ?_, h⟩
  unfold Program.on
  rw [heq]

end

theorem Yields.of_on {get : σ → τ} {set : τ → σ → σ} {p : Program L τ ε α} {s : σ}
    (h : Yields (p.on get set) s fun _ _ => True) : Yields p (get s) fun _ _ => True := by
  obtain ⟨a, s', heq, -⟩ := h
  have hvalue : (p Program.smooth (get s)).1 = .value a := congrArg Prod.fst heq
  exact ⟨a, (p Program.smooth (get s)).2, Prod.ext hvalue rfl, trivial⟩

/-! ## One step that fails -/

/-- The step fails, after so much progress; everything else is done. -/
def failing [DecidableEq L] (step : L) (n : ℕ) : L → Outcome := fun label => if label = step then .failed n else .done

/-! ## Steps that a program does not have -/

/-- What becomes of the steps with the labels does not matter to the program. -/
def Avoids (labels : L → Prop) (p : Program L σ ε α) : Prop :=
  ∀ faults faults' s, (∀ label, ¬ labels label → faults label = faults' label) → p faults s = p faults' s

section
variable {labels : L → Prop} {p : Program L σ ε α} {k : α → Program L σ ε β}

theorem Avoids.pure (a : α) : Avoids labels (Pure.pure a : Program L σ ε α) := fun _ _ _ _ => rfl

theorem Avoids.throw (e : ε) : Avoids labels (Program.throw e : Program L σ ε α) := fun _ _ _ _ => rfl

theorem Avoids.bind (hp : Avoids labels p) (hk : ∀ a, Avoids labels (k a)) : Avoids labels (p >>= k) := by
  intro faults faults' s h
  change Program.bind p k faults s = Program.bind p k faults' s
  unfold Program.bind
  rw [hp faults faults' s h]
  split
  · exact hk _ _ _ _ h
  · rfl
  · rfl

theorem Avoids.look {io : ε} {label : L} {f : σ → Except ε α} (hlabel : ¬ labels label) :
    Avoids labels (Program.look io label f) := by
  intro faults faults' s h
  unfold Program.look
  rw [h label hlabel]

theorem Avoids.gradual {io : ε} {label : L} {part : ℕ → σ → σ} {effect : σ → σ} (hlabel : ¬ labels label) :
    Avoids labels (Program.gradual io label part effect) := by
  intro faults faults' s h
  unfold Program.gradual
  rw [h label hlabel]

theorem Avoids.atomic {io : ε} {label : L} {effect : σ → σ} (hlabel : ¬ labels label) :
    Avoids labels (Program.atomic io label effect) := Avoids.gradual hlabel

theorem Avoids.relabel {f : M → L} (p : Program M σ ε α) (hf : ∀ label, ¬ labels (f label)) :
    Avoids labels (p.relabel f) := by
  intro faults faults' s h
  have heq : faults ∘ f = faults' ∘ f := funext fun label => h (f label) (hf label)
  unfold Program.relabel
  rw [heq]

theorem Avoids.on {get : σ → τ} {set : τ → σ → σ} {p : Program L τ ε α} (hp : Avoids labels p) :
    Avoids labels (p.on get set) := by
  intro faults faults' s h
  unfold Program.on
  rw [hp faults faults' (get s) h]

theorem Avoids.forM {ι : Type u} {l : List ι} {body : ι → Program L σ ε PUnit} (h : ∀ i, Avoids labels (body i)) :
    Avoids labels (l.forM body) := by
  induction l with
  | nil => exact Avoids.pure _
  | cons i l ih => exact Avoids.bind (h i) fun _ => ih

theorem Avoids.ignore {p : Program L σ ε PUnit} (hp : Avoids labels p) : Avoids labels p.ignore := by
  intro faults faults' s h
  unfold Program.ignore Program.rescue
  rw [hp faults faults' s h]
  rfl

/-- Without the steps that it avoids, a program that yields something comes with it also where those steps fail. -/
theorem Yields.ends_avoids {faults : L → Outcome} {s : σ} {V : α → σ → Prop} {E : ε → σ → Prop} {S : σ → Prop}
    (h : Yields p s V) (hp : Avoids labels p) (hfaults : ∀ label, ¬ labels label → faults label = .done) :
    Ends p faults s V E S := by
  obtain ⟨a, s', heq, h⟩ := h
  rw [← hp faults Program.smooth s hfaults] at heq
  unfold Ends
  rw [heq]
  exact h

end

/-! ## Runs in which nothing fails -/

section
variable {p : Program L σ ε α} {k : α → Program L σ ε β} {faults : L → Outcome} {s : σ} {V V' : α → σ → Prop}
  {W : β → σ → Prop} {E : ε → σ → Prop} {S : σ → Prop}

theorem ends_trivial : Ends p faults s (fun _ _ => True) (fun _ _ => True) fun _ => True := by
  unfold Ends
  split <;> trivial

theorem ends_value {a : α} {t : σ} (h : Ends p faults s V E S) (hrun : p faults s = (.value a, t)) : V a t := by
  unfold Ends at h
  rw [hrun] at h
  exact h

theorem Yields.and_ends (h : Yields p s V) (h' : Ends p Program.smooth s V' E S) :
    Yields p s fun a s => V a s ∧ V' a s := by
  obtain ⟨a, s', heq, h⟩ := h
  unfold Ends at h'
  rw [heq] at h'
  exact ⟨a, s', heq, h, h'⟩

theorem Yields.of_gradual {io : ε} {label : L} {part : ℕ → σ → σ} {effect : σ → σ} {k : PUnit → Program L σ ε β}
    (h : Yields (Program.gradual io label part effect >>= k) s W) : Yields (k ⟨⟩) (effect s) W := by
  obtain ⟨a, s', heq, h⟩ := h.of_bind
  cases heq
  exact h

end

/-! ## Publication -/

/-- The building, the step that publishes, the step that makes it durable; after an error the clean-up. -/
def publishing (io : ε) (build : Program L σ ε PUnit) (rename sync : L) (publish : σ → σ)
    (cleanup : Program L σ ε PUnit) : Program L σ ε PUnit :=
  (do
    build
    .atomic io rename publish
    .atomic io sync id).rescue fun e => do
      cleanup.ignore
      .throw e

/-- The outcomes after which there is an error although the publishing step was done. -/
def Late (rename sync : L) (faults : L → Outcome) : Prop :=
  (∃ n, faults rename = .failed (n + 1)) ∨ ∃ n, faults sync = .failed n

section
variable [DecidableEq L] [DecidableEq M] {rename sync step : L} {n : ℕ}

theorem Late.step_eq (h : Late rename sync (failing step n)) : step = rename ∨ step = sync := by
  have hstep : ∀ {label m}, failing step n label = .failed m → step = label := by
    intro label m hm
    unfold failing at hm
    split at hm
    · exact Eq.symm ‹_›
    · cases hm
  rcases h with ⟨m, hm⟩ | ⟨m, hm⟩
  · exact .inl (hstep hm)
  · exact .inr (hstep hm)

/-- Where the one failing step makes a late error, everything but the last two steps is done. -/
theorem Late.done (h : Late rename sync (failing step n)) {label : L} (hlabel : ¬ (label = rename ∨ label = sync)) :
    failing step n label = .done := by
  refine if_neg fun heq => hlabel ?_
  rw [heq]
  exact h.step_eq

theorem Late.reached (h : Late rename sync (failing step n)) (hne : rename ≠ sync) :
    failing step n rename = .done ∨ ∃ m, failing step n rename = .failed (m + 1) := by
  rcases h with hfailed | ⟨m, hm⟩
  · exact .inr hfailed
  · refine .inl (if_neg fun heq => ?_)
    have hsync : sync = step := by
      by_contra hne'
      rw [failing, if_neg hne'] at hm
      cases hm
    exact hne (heq.trans hsync.symm)

end

section
variable {io : ε} {build cleanup : Program L σ ε PUnit} {rename sync : L} {publish : σ → σ} {faults : L → Outcome} {s : σ}
  {Built Before Seen : σ → Prop}

/-- Nothing fails after the building. -/
theorem publishing_smooth {a : PUnit} {t : σ} (h : build Program.smooth s = (.value a, t)) :
    publishing io build rename sync publish cleanup Program.smooth s = (.value ⟨⟩, publish t) := by
  change Program.rescue (Program.bind build _) _ Program.smooth s = _
  unfold Program.rescue Program.bind
  rw [h]
  rfl

/-- A publication that succeeds has built what it publishes. -/
theorem Yields.of_publishing {V : PUnit → σ → Prop} (h : Yields (publishing io build rename sync publish cleanup) s V) :
    Yields build s fun _ _ => True := by
  have hbuild : Ends build Program.smooth s (fun _ _ => Yields build s fun _ _ => True) (fun _ _ => True) fun _ => True := by
    unfold Ends
    split
    · next a t heq => exact ⟨a, t, heq, trivial⟩
    · trivial
    · trivial
  have hall : Ends (publishing io build rename sync publish cleanup) Program.smooth s
      (fun _ _ => Yields build s fun _ _ => True) (fun _ _ => True) fun _ => True := by
    refine Ends.rescue (Ends.bind (hbuild.mono (fun _ _ h => ?_) (fun e _ _ => ?_) fun _ h => h))
    · exact Ends.bind (Ends.gradual_done rfl (Ends.gradual_done rfl h))
    · exact Ends.bind (Ends.ignore (ends_trivial.mono (fun _ _ _ => Ends.throw trivial) (fun _ _ _ => Ends.throw trivial)
        fun _ _ => trivial))
  obtain ⟨a, t, -, -, h⟩ := h.and_ends hall
  exact h

/-- A publication that comes to a value has published what was built: after every error there is an error. -/
theorem publishing_value (hbuild : Ends build faults s (fun _ => Built) (fun _ _ => True) fun _ => True)
    (hpublish : ∀ s, Built s → Seen (publish s)) :
    Ends (publishing io build rename sync publish cleanup) faults s (fun _ => Seen) (fun _ _ => True) fun _ => True := by
  have hhandle : ∀ e s, Ends (do
      cleanup.ignore
      .throw e : Program L σ ε PUnit) faults s (fun _ => Seen) (fun _ _ => True) fun _ => True := fun e s =>
    Ends.bind (Ends.ignore (ends_trivial.mono (fun _ _ _ => Ends.throw trivial) (fun _ _ _ => Ends.throw trivial)
      fun _ _ => trivial))
  unfold publishing
  refine Ends.rescue (Ends.bind (hbuild.mono (fun _ s hs => ?_) (fun e s _ => hhandle e s) fun _ h => h))
  refine Ends.bind (Ends.atomic (fun _ => ?_) (fun _ => hhandle io s) (fun _ _ => hhandle io _) (fun _ => trivial)
    fun _ _ => trivial)
  exact Ends.atomic (fun _ => hpublish s hs) (fun _ => hhandle io _) (fun _ _ => hhandle io _) (fun _ => trivial)
    fun _ _ => trivial

/-- An error that is not late finds what was built out of sight, and nothing else. -/
theorem publishing_before (hlate : ¬ Late rename sync faults)
    (hbuild : Ends build faults s (fun _ => Built) (fun _ => Built) fun _ => True)
    (hclean : ∀ s, Built s → Ends cleanup faults s (fun _ => Before) (fun _ => Before) fun _ => True) :
    Ends (publishing io build rename sync publish cleanup) faults s (fun _ _ => True) (fun _ => Before) fun _ => True := by
  have hhandle : ∀ e s, Built s → Ends (do
      cleanup.ignore
      .throw e : Program L σ ε PUnit) faults s (fun _ _ => True) (fun _ => Before) fun _ => True := fun e s hs =>
    Ends.bind (Ends.ignore ((hclean s hs).mono (fun _ _ h => Ends.throw h) (fun _ _ h => Ends.throw h) fun _ h => h))
  unfold publishing
  refine Ends.rescue (Ends.bind (hbuild.mono (fun _ s hs => ?_) (fun e s hs => hhandle e s hs) fun _ h => h))
  refine Ends.bind (Ends.atomic (fun _ => Ends.gradual (fun _ => trivial) (fun n hn => ?_) fun _ _ => trivial)
    (fun _ => hhandle io s hs) (fun n hn => ?_) (fun _ => trivial) fun _ _ => trivial)
  · exact absurd (.inr ⟨n, hn⟩) hlate
  · exact absurd (.inl ⟨n, hn⟩) hlate

/-- A late error leaves what was published, which the clean-up does not find. -/
theorem publishing_late (hlate : Late rename sync faults)
    (hrename : faults rename = .done ∨ ∃ n, faults rename = .failed (n + 1))
    (hbuild : Ends build faults s (fun _ => Built) (fun _ _ => False) fun _ => False)
    (hpublish : ∀ s, Built s → Seen (publish s))
    (hclean : ∀ s, Seen s → Ends cleanup faults s (fun _ => Seen) (fun _ => Seen) fun _ => False) :
    Ends (publishing io build rename sync publish cleanup) faults s (fun _ _ => False) (fun _ => Seen) fun _ => False := by
  have hhandle : ∀ s, Seen s → Ends (do
      cleanup.ignore
      .throw io : Program L σ ε PUnit) faults s (fun _ _ => False) (fun _ => Seen) fun _ => False := fun s hs =>
    Ends.bind (Ends.ignore ((hclean s hs).mono (fun _ _ h => Ends.throw h) (fun _ _ h => Ends.throw h) fun _ h => h))
  unfold publishing
  refine Ends.rescue (Ends.bind (hbuild.mono (fun _ s hs => ?_) (fun _ _ h => h.elim) fun _ h => h))
  rcases hrename with hdone | ⟨n, hfailed⟩
  · obtain ⟨n, hsync⟩ := hlate.resolve_left fun ⟨n, hn⟩ => by rw [hdone] at hn; cases hn
    refine Ends.bind (Ends.gradual_done hdone ?_)
    unfold Ends Program.atomic Program.gradual
    rw [hsync]
    refine hhandle _ ?_
    change Seen (if n = 0 then publish s else publish s)
    split
    · exact hpublish s hs
    · exact hpublish s hs
  · refine Ends.bind ?_
    unfold Ends Program.atomic Program.gradual
    rw [hfailed]
    exact hhandle _ (hpublish s hs)

/-! ## Calls that would fail anyway -/

/-- What becomes of the steps with the labels, while the others are done, matters only where nothing failing would
come to a value. -/
def Settles (labels : L → Prop) (p : Program L σ ε α) : Prop :=
  ∀ faults s, (∀ label, ¬ labels label → faults label = .done) →
    p faults s = p Program.smooth s ∨ Yields p s fun _ _ => True

variable {labels : L → Prop}

theorem Avoids.settles {p : Program L σ ε α} (hp : Avoids labels p) : Settles labels p :=
  fun faults s h => .inl (hp faults Program.smooth s h)

theorem Settles.bind {p : Program L σ ε α} {k : α → Program L σ ε β} (hp : Avoids labels p)
    (hk : ∀ a, Settles labels (k a)) : Settles labels (p >>= k) := by
  intro faults s h
  have heq := hp faults Program.smooth s h
  cases hend : p Program.smooth s with
  | mk exit t =>
    rw [hend] at heq
    cases exit with
    | value a =>
      rcases hk a faults t h with hsame | hyields
      · left
        change Program.bind p k faults s = Program.bind p k Program.smooth s
        unfold Program.bind
        rw [heq, hend]
        exact hsame
      · exact .inr (Yields.bind ⟨a, t, hend, hyields⟩)
    | error e =>
      left
      change Program.bind p k faults s = Program.bind p k Program.smooth s
      unfold Program.bind
      rw [heq, hend]
    | stop =>
      left
      change Program.bind p k faults s = Program.bind p k Program.smooth s
      unfold Program.bind
      rw [heq, hend]

theorem Settles.publishing (hbuild : Avoids labels build) (hclean : Avoids labels cleanup) :
    Settles labels (publishing io build rename sync publish cleanup) := by
  intro faults s h
  have heq := hbuild faults Program.smooth s h
  cases hend : build Program.smooth s with
  | mk exit t =>
    rw [hend] at heq
    cases exit with
    | value a =>
      exact .inr ⟨⟨⟩, publish t, publishing_smooth hend, trivial⟩
    | error e =>
      left
      change Program.rescue (Program.bind build _) _ faults s = Program.rescue (Program.bind build _) _ Program.smooth s
      unfold Program.rescue Program.bind
      rw [heq, hend]
      change Program.bind (cleanup.ignore) _ faults t = Program.bind (cleanup.ignore) _ Program.smooth t
      unfold Program.bind Program.ignore Program.rescue
      rw [hclean faults Program.smooth t h]
      rfl
    | stop =>
      left
      change Program.rescue (Program.bind build _) _ faults s = Program.rescue (Program.bind build _) _ Program.smooth s
      unfold Program.rescue Program.bind
      rw [heq, hend]

end
end Program
end Fault
