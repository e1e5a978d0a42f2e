import Mathlib

/-! # Occurrence numbers
Each item of a list gets the number of its occurrence among the items with its key. The set of numbered
items says, key by key, which sequence of values began the list.
-/
namespace Occurrence

variable {κ α β : Type*} [DecidableEq κ]

/-- The next occurrence number of `key`, after the keys `seen`. -/
def next (seen : List κ) (key : κ) : ℕ := seen.count key + 1

/-- Every item with its occurrence number, from 1. -/
def number (seen : List κ) : List (κ × α) → List (κ × ℕ × α)
  | [] => []
  | (key, a) :: items => (key, next seen key, a) :: number (key :: seen) items

/-- The values under one key, in order. -/
def select (key : κ) (items : List (κ × α)) : List α :=
  (items.filter (·.1 = key)).map Prod.snd

theorem select_cons_self (key : κ) (a : α) (items : List (κ × α)) :
    select key ((key, a) :: items) = a :: select key items := by
  simp [select]

theorem select_cons_ne {key key' : κ} (h : key' ≠ key) (a : α) (items : List (κ × α)) :
    select key ((key', a) :: items) = select key items := by
  simp [select, h]

theorem mem_number {seen : List κ} {items : List (κ × α)} {key : κ} {n : ℕ} {a : α} :
    (key, n, a) ∈ number seen items ↔
      ∃ i, n = seen.count key + 1 + i ∧ (select key items)[i]? = some a := by
  induction items generalizing seen with
  | nil => simp [number, select]
  | cons item items ih =>
    obtain ⟨key', a'⟩ := item
    simp only [number, List.mem_cons, Prod.mk.injEq, ih]
    by_cases hkey : key' = key
    · subst hkey
      rw [select_cons_self, List.count_cons_self]
      constructor
      · rintro (⟨-, rfl, rfl⟩ | ⟨i, rfl, hi⟩)
        · exact ⟨0, rfl, rfl⟩
        · exact ⟨i + 1, by omega, hi⟩
      · rintro ⟨i, rfl, hi⟩
        cases i with
        | zero => exact .inl ⟨rfl, rfl, by simpa using hi.symm⟩
        | succ i => exact .inr ⟨i, by omega, hi⟩
    · rw [select_cons_ne hkey, List.count_cons_of_ne hkey]
      constructor
      · rintro (⟨rfl, -⟩ | h)
        · exact absurd rfl hkey
        · exact h
      · exact .inr

theorem mem_of_mem_number {seen : List κ} {items : List (κ × α)} {key : κ} {n : ℕ} {a : α}
    (h : (key, n, a) ∈ number seen items) : (key, a) ∈ items := by
  induction items generalizing seen with
  | nil => cases h
  | cons item items ih =>
    rcases List.mem_cons.mp h with h | h
    · cases h; exact List.mem_cons_self
    · exact List.mem_cons_of_mem _ (ih h)

/-- If every numbered item of one list is one of another, then under every key the values of the first
list are a prefix of those of the second. -/
theorem select_prefix {xs ys : List (κ × α)} (h : ∀ x ∈ number [] xs, x ∈ number [] ys) (key : κ) :
    select key xs <+: select key ys := by
  rw [List.prefix_iff_getElem?]
  intro i hi
  have hx : (key, 1 + i, (select key xs)[i]) ∈ number [] xs :=
    mem_number.mpr ⟨i, by simp, List.getElem?_eq_getElem hi⟩
  obtain ⟨j, hj, hy⟩ := mem_number.mp (h _ hx)
  obtain rfl : j = i := by simpa using hj.symm
  exact hy

theorem select_append (key : κ) (xs ys : List (κ × α)) :
    select key (xs ++ ys) = select key xs ++ select key ys := by
  simp [select]

theorem select_eq_nil {key : κ} {items : List (κ × α)} (h : ∀ item ∈ items, item.1 ≠ key) :
    select key items = [] := by
  simp only [select, List.map_eq_nil_iff, List.filter_eq_nil_iff, decide_eq_true_eq]
  exact h

/-- A prefix under one map is a prefix under another that the first determines. -/
theorem prefix_view {γ : Type*} {f : α → β} {g : α → γ} {xs ys : List α}
    (hfg : ∀ x ∈ xs, ∀ y ∈ ys, f x = f y → g x = g y) (h : xs.map f <+: ys.map f) :
    xs.map g <+: ys.map g := by
  induction xs generalizing ys with
  | nil => exact List.nil_prefix
  | cons x xs ih => cases ys with
    | nil => simp at h
    | cons y ys =>
      simp only [List.map_cons, List.cons_prefix_cons] at h ⊢
      exact ⟨hfg x (by simp) y (by simp) h.1,
        ih (fun a ha b hb => hfg a (by simp [ha]) b (by simp [hb])) h.2⟩

theorem prefix_of_map {f : α → β} {xs ys : List α} (hf : ∀ x ∈ xs, ∀ y ∈ ys, f x = f y → x = y)
    (h : xs.map f <+: ys.map f) : xs <+: ys := by
  have hid := prefix_view (g := id) hf h
  rwa [List.map_id, List.map_id] at hid

/-- Rows are compared by a print under a key; each has a view whose first part gives the key. Where equal
prints mean equal views, a prefix of prints under every key is a prefix of views. -/
theorem select_view_prefix {ρ γ δ : Type*} [DecidableEq δ] {key : ρ → κ} {print : ρ → α} {view : ρ → δ × γ}
    {f : δ → κ} {xs ys : List ρ} (hkeyx : ∀ x ∈ xs, key x = f (view x).1)
    (hkeyy : ∀ y ∈ ys, key y = f (view y).1)
    (hprint : ∀ x ∈ xs, ∀ y ∈ ys, key x = key y → print x = print y → view x = view y)
    (h : ∀ k, ((xs.filter (key · = k)).map print) <+: ((ys.filter (key · = k)).map print)) (d : δ) :
    select d (xs.map view) <+: select d (ys.map view) := by
  have hview : (xs.filter (key · = f d)).map view <+: (ys.filter (key · = f d)).map view := by
    refine prefix_view ?_ (h (f d))
    intro x hx y hy
    obtain ⟨hx, hxk⟩ := List.mem_filter.mp hx
    obtain ⟨hy, hyk⟩ := List.mem_filter.mp hy
    exact hprint x hx y hy ((of_decide_eq_true hxk).trans (of_decide_eq_true hyk).symm)
  have hsub : ∀ zs : List ρ, (∀ z ∈ zs, key z = f (view z).1) →
      select d (zs.map view) = select d ((zs.filter (key · = f d)).map view) := by
    intro zs hz
    simp only [select, List.filter_map, List.filter_filter]
    refine congrArg (fun l => (List.map view l).map Prod.snd) (List.filter_congr fun z hmem => ?_)
    have hkey := hz z hmem
    by_cases hd : (view z).1 = d
    · simp [hkey, hd]
    · simp [hd]
  rw [hsub xs hkeyx, hsub ys hkeyy]
  obtain ⟨rest, hrest⟩ := hview
  rw [← hrest, select_append]
  exact List.prefix_append _ _

end Occurrence
