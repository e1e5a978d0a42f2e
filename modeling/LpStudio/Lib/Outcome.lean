import Mathlib

/-! # Fallible computations
What it means for a sequence of checks to succeed.
-/
namespace Outcome

universe u v
variable {ε : Type u} {α β : Type v}

theorem bind_ok {x : Except ε α} {f : α → Except ε β} {b : β} :
    x >>= f = .ok b ↔ ∃ a, x = .ok a ∧ f a = .ok b := by
  cases x with
  | error e => simp [bind, Except.bind]
  | ok a => simp [bind, Except.bind]

/-- The next step of a check. -/
theorem check_ok {x : Except ε PUnit.{v + 1}} {f : PUnit.{v + 1} → Except ε β} {b : β} :
    x >>= f = .ok b ↔ x = .ok ⟨⟩ ∧ f ⟨⟩ = .ok b := by
  cases x with
  | error e => simp [bind, Except.bind]
  | ok a => simp [bind, Except.bind]

theorem map_ok {x : Except ε α} {f : α → β} {b : β} :
    x.map f = .ok b ↔ ∃ a, x = .ok a ∧ f a = b := by
  cases x with
  | error e => simp [Except.map]
  | ok a => simp [Except.map]

theorem pure_ok {a b : α} : (pure a : Except ε α) = .ok b ↔ a = b := by
  simp [pure, Except.pure]

theorem exists_of_any {x : Except ε α} {p : α → Bool} (h : x.toOption.any p = true) :
    ∃ a, x = .ok a ∧ p a = true := by
  cases x with
  | error e => cases h
  | ok a => exact ⟨a, rfl, h⟩

theorem mapM_ok {f : α → Except ε β} {l : List α} {r : List β} :
    l.mapM f = .ok r ↔ List.Forall₂ (fun a b => f a = .ok b) l r := by
  induction l generalizing r with
  | nil =>
    simp only [List.mapM_nil, pure_ok, List.forall₂_nil_left_iff]
    exact eq_comm
  | cons a as ih =>
    simp only [List.mapM_cons, bind_ok, pure_ok, List.forall₂_cons_left_iff, ih]
    constructor
    · rintro ⟨b, hb, bs, hbs, rfl⟩
      exact ⟨b, bs, hb, hbs, rfl⟩
    · rintro ⟨b, bs, hb, hbs, rfl⟩
      exact ⟨b, hb, bs, hbs, rfl⟩

theorem exists_of_mapM {f : α → Except ε β} {l : List α} {r : List β} (hr : l.mapM f = .ok r) {a : α} (ha : a ∈ l) :
    ∃ b ∈ r, f a = .ok b := by
  rw [mapM_ok] at hr
  induction hr with
  | nil => exact absurd ha List.not_mem_nil
  | cons hb _ ih =>
    rcases List.mem_cons.mp ha with rfl | ha
    · exact ⟨_, List.mem_cons_self, hb⟩
    · obtain ⟨b, hmem, hb⟩ := ih ha
      exact ⟨b, List.mem_cons_of_mem _ hmem, hb⟩

/-- Another function that succeeds on the elements of the list, with what `h` makes of the results. -/
theorem mapM_map {γ : Type v} {f : α → Except ε β} {g : α → Except ε γ} {h : β → γ} {l : List α} {r : List β}
    (hr : l.mapM f = .ok r) (hg : ∀ a ∈ l, ∀ b, f a = .ok b → g a = .ok (h b)) : l.mapM g = .ok (r.map h) := by
  rw [mapM_ok] at hr ⊢
  induction l generalizing r with
  | nil =>
    cases hr
    exact .nil
  | cons a l ih =>
    obtain ⟨b, bs, hb, hbs, rfl⟩ := List.forall₂_cons_left_iff.mp hr
    exact .cons (hg a List.mem_cons_self b hb) (ih hbs fun c hc => hg c (List.mem_cons_of_mem a hc))

theorem mapM_imp {f g : α → Except ε β} {l : List α} {r : List β} (hr : l.mapM f = .ok r)
    (h : ∀ a ∈ l, ∀ b, f a = .ok b → g a = .ok b) : l.mapM g = .ok r := by
  have := mapM_map (h := id) hr h
  rwa [List.map_id] at this

/-- A test of the elements that is a test of the results. -/
theorem mapM_filter {f : α → Except ε β} {p : α → Bool} {q : β → Bool} {l : List α} {r : List β}
    (hr : l.mapM f = .ok r) (h : ∀ a ∈ l, ∀ b, f a = .ok b → p a = q b) : (l.filter p).mapM f = .ok (r.filter q) := by
  rw [mapM_ok] at hr ⊢
  induction l generalizing r with
  | nil =>
    cases hr
    exact .nil
  | cons a l ih =>
    obtain ⟨b, bs, hb, hbs, rfl⟩ := List.forall₂_cons_left_iff.mp hr
    have hrest := ih hbs fun c hc => h c (List.mem_cons_of_mem a hc)
    rw [List.filter_cons, List.filter_cons, h a List.mem_cons_self b hb]
    split
    · exact .cons hb hrest
    · exact hrest

theorem forM_ok {f : α → Except ε PUnit} {l : List α} :
    l.forM f = .ok ⟨⟩ ↔ ∀ a ∈ l, f a = .ok ⟨⟩ := by
  induction l with
  | nil => simp [pure, Except.pure]
  | cons a as ih =>
    have hcons : (a :: as).forM f = f a >>= fun _ => as.forM f := rfl
    rw [hcons, bind_ok, List.forall_mem_cons, ← ih]
    constructor
    · rintro ⟨⟨⟩, ha, has⟩
      exact ⟨ha, has⟩
    · rintro ⟨ha, has⟩
      exact ⟨⟨⟩, ha, has⟩

/-- A loop keeps an invariant that each of its turns keeps. -/
theorem foldlM_inv {σ : Type v} {step : σ → α → Except ε σ} {P : σ → Prop} {l : List α}
    (hstep : ∀ s, ∀ a ∈ l, ∀ t, P s → step s a = .ok t → P t) {s t : σ} (hs : P s)
    (h : l.foldlM step s = .ok t) : P t := by
  induction l generalizing s with
  | nil =>
    obtain rfl := pure_ok.mp h
    exact hs
  | cons a as ih =>
    rw [List.foldlM_cons, bind_ok] at h
    obtain ⟨u, hu, h⟩ := h
    exact ih (fun s b hb => hstep s b (List.mem_cons_of_mem _ hb)) (hstep s a List.mem_cons_self u hs hu) h

/-- What the turns of a loop append to one of the lists it builds. -/
theorem foldlM_append {σ γ : Type v} {step : σ → α → Except ε σ} {get : σ → List γ} {added : α → List γ} {l : List α}
    (hstep : ∀ s, ∀ a ∈ l, ∀ t, step s a = .ok t → get t = get s ++ added a) {s t : σ}
    (h : l.foldlM step s = .ok t) : get t = get s ++ l.flatMap added := by
  induction l generalizing s with
  | nil =>
    obtain rfl := pure_ok.mp h
    exact (List.append_nil _).symm
  | cons a as ih =>
    rw [List.foldlM_cons, bind_ok] at h
    obtain ⟨u, hu, h⟩ := h
    have hrest := ih (fun s b hb => hstep s b (List.mem_cons_of_mem a hb)) h
    rw [hrest, hstep s a List.mem_cons_self u hu, List.flatMap_cons, List.append_assoc]

/-- A loop of loops. -/
theorem foldlM_flatMap_ok {σ γ : Type v} {visit : σ → γ → Except ε σ} {turn : σ → α → Except ε σ}
    {parts : α → List γ} {l : List α}
    (hturn : ∀ a ∈ l, ∀ s t, turn s a = .ok t ↔ (parts a).foldlM visit s = .ok t) {s t : σ} :
    l.foldlM turn s = .ok t ↔ (l.flatMap parts).foldlM visit s = .ok t := by
  induction l generalizing s with
  | nil => rfl
  | cons a l ih =>
    rw [List.foldlM_cons, bind_ok, List.flatMap_cons, List.foldlM_append, bind_ok]
    refine exists_congr fun u => and_congr (hturn a List.mem_cons_self s u) ?_
    exact ih fun other hother => hturn other (List.mem_cons_of_mem _ hother)

theorem foldlM_congr {σ : Type v} {f g : σ → α → Except ε σ} {l : List α} (h : ∀ s, ∀ a ∈ l, f s a = g s a) (s : σ) :
    l.foldlM f s = l.foldlM g s := by
  induction l generalizing s with
  | nil => rfl
  | cons a l ih =>
    rw [List.foldlM_cons, List.foldlM_cons, h s a List.mem_cons_self]
    exact congrArg _ (funext fun t => ih (fun s b hb => h s b (List.mem_cons_of_mem a hb)) t)

theorem foldlM_turn {σ : Type v} {step : σ → α → Except ε σ} {l : List α} {s t : σ}
    (h : l.foldlM step s = .ok t) : ∀ a ∈ l, ∃ u v, step u a = .ok v := by
  induction l generalizing s with
  | nil => exact fun a ha => absurd ha List.not_mem_nil
  | cons a as ih =>
    rw [List.foldlM_cons, bind_ok] at h
    obtain ⟨u, hu, h⟩ := h
    exact List.forall_mem_cons.mpr ⟨⟨s, u, hu⟩, ih h⟩

/-- A loop whose turns fail on their items alone, as long as a counter stays below `bound`, succeeds
if and only if every item is good. -/
theorem foldlM_ok_iff {σ : Type v} {step : σ → α → Except ε σ} {good : α → Prop} {count : σ → ℕ}
    {weight : α → ℕ} {bound : ℕ} {l : List α}
    (hstep : ∀ s, ∀ a ∈ l, count s + weight a < bound → ((∃ t, step s a = .ok t) ↔ good a))
    (hcount : ∀ s a t, step s a = .ok t → count t ≤ count s + weight a) {s : σ}
    (hbound : count s + (l.map weight).sum < bound) :
    ((∃ t, l.foldlM step s = .ok t) ↔ ∀ a ∈ l, good a) := by
  induction l generalizing s with
  | nil => simp [pure, Except.pure]
  | cons a as ih =>
    rw [List.map_cons, List.sum_cons] at hbound
    have hrest := fun s b hb => hstep s b (List.mem_cons_of_mem a hb)
    simp only [List.foldlM_cons, bind_ok, List.forall_mem_cons]
    constructor
    · rintro ⟨t, u, hu, ht⟩
      have hle := hcount s a u hu
      exact ⟨(hstep s a List.mem_cons_self (by omega)).mp ⟨u, hu⟩, (ih hrest (by omega)).mp ⟨t, ht⟩⟩
    · rintro ⟨ha, has⟩
      obtain ⟨u, hu⟩ := (hstep s a List.mem_cons_self (by omega)).mpr ha
      have hle := hcount s a u hu
      obtain ⟨t, ht⟩ := (ih hrest (s := u) (by omega)).mpr has
      exact ⟨t, u, hu, ht⟩

theorem foldlM_count {σ : Type v} {step : σ → α → Except ε σ} {count : σ → ℕ} {weight : α → ℕ}
    (hcount : ∀ s a t, step s a = .ok t → count t ≤ count s + weight a) {l : List α} {s t : σ}
    (h : l.foldlM step s = .ok t) : count t ≤ count s + (l.map weight).sum := by
  induction l generalizing s with
  | nil =>
    obtain rfl := pure_ok.mp h
    exact Nat.le_add_right _ _
  | cons a as ih =>
    rw [List.foldlM_cons, bind_ok] at h
    obtain ⟨u, hu, h⟩ := h
    have hle := hcount s a u hu
    have := ih h
    rw [List.map_cons, List.sum_cons]
    omega

/-- A loop whose turns can be swapped succeeds in any order, with one outcome. -/
theorem foldlM_perm {σ : Type v} {step : σ → α → Except ε σ} {R : α → α → Prop}
    (hsymm : ∀ a b, R a b → R b a)
    (hswap : ∀ s a b t, R a b → [a, b].foldlM step s = .ok t → [b, a].foldlM step s = .ok t) {l l' : List α}
    (hperm : l.Perm l') (hR : l.Pairwise R) {s t : σ} (h : l.foldlM step s = .ok t) : l'.foldlM step s = .ok t := by
  induction hperm generalizing s with
  | nil => exact h
  | cons a _ ih =>
    rw [List.foldlM_cons, bind_ok] at h ⊢
    obtain ⟨u, hu, h⟩ := h
    exact ⟨u, hu, ih (List.pairwise_cons.mp hR).2 h⟩
  | swap a b l =>
    have hpair := (List.pairwise_cons.mp hR).1 a List.mem_cons_self
    change ([b, a] ++ l).foldlM step s = .ok t at h
    change ([a, b] ++ l).foldlM step s = .ok t
    rw [List.foldlM_append, bind_ok] at h ⊢
    obtain ⟨u, hu, h⟩ := h
    exact ⟨u, hswap s b a u hpair hu, h⟩
  | trans first _ ih₁ ih₂ => exact ih₂ ((first.pairwise_iff fun h => hsymm _ _ h).mp hR) (ih₁ hR h)

end Outcome
