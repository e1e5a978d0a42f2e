import Mathlib

/-! # The order of paths
A path is a list of names. Paths have two orders: name by name, as a walk through a tree meets them, and as the
strings that result when the names are joined with a separator. The two differ exactly on crossing paths.
-/
namespace PathOrder

variable {α : Type}

/-! ## Lexicographic comparison -/

section
variable [Ord α]

theorem compare_cons (x y : α) (xs ys : List α) :
    compare (x :: xs) (y :: ys) = (compare x y).then (compare xs ys) := List.compareLex_cons_cons

theorem compare_append [Std.ReflOrd α] (p a b : List α) : compare (p ++ a) (p ++ b) = compare a b := by
  induction p with
  | nil => rfl
  | cons x p ih =>
    have hx : compare x x = .eq := Std.ReflCmp.compare_self
    rw [List.cons_append, List.cons_append, compare_cons, hx, ih]
    rfl

theorem compare_prefix [Std.ReflOrd α] (p s : List α) (c : α) : compare p (p ++ c :: s) = .lt := by
  have h := compare_append p [] (c :: s)
  rw [List.append_nil] at h
  rw [h]
  rfl

theorem compare_diverge [Std.ReflOrd α] {x y : α} (h : compare x y = .lt) (p s t : List α) :
    compare (p ++ x :: s) (p ++ y :: t) = .lt := by
  rw [compare_append, compare_cons, h]
  rfl

/-- A smaller list is a proper prefix, or is smaller at the first place where the two differ. -/
theorem cases_of_compare_lt [Std.LawfulEqOrd α] {a b : List α} (h : compare a b = .lt) :
    (∃ c s, b = a ++ c :: s) ∨
      ∃ p x s y t, a = p ++ x :: s ∧ b = p ++ y :: t ∧ compare x y = .lt := by
  induction a generalizing b with
  | nil =>
    cases b with
    | nil => cases h
    | cons c s => exact .inl ⟨c, s, rfl⟩
  | cons x a ih =>
    cases b with
    | nil => cases h
    | cons y b =>
      rw [compare_cons] at h
      cases hxy : compare x y with
      | lt => exact .inr ⟨[], x, a, y, b, rfl, rfl, hxy⟩
      | gt =>
        rw [hxy] at h
        cases h
      | eq =>
        rw [hxy] at h
        obtain rfl := Std.LawfulEqCmp.eq_of_compare hxy
        rcases ih h with ⟨c, s, rfl⟩ | ⟨p, x', s, y', t, rfl, rfl, hlt⟩
        · exact .inl ⟨c, s, rfl⟩
        · exact .inr ⟨x :: p, x', s, y', t, rfl, rfl, hlt⟩

end

/-! ## Joined paths -/

variable (sep : α)

/-- The names with the separator between them. -/
def join (path : List (List α)) : List α := [sep].intercalate path

theorem join_singleton (name : List α) : join sep [name] = name := by simp [join]

theorem join_cons_cons (name next : List α) (path : List (List α)) :
    join sep (name :: next :: path) = name ++ sep :: join sep (next :: path) := by
  simp [join, List.intercalate, List.intersperse]

theorem join_concat {p : List (List α)} (h : p ≠ []) (name : List α) :
    join sep (p ++ [name]) = join sep p ++ sep :: name := by
  induction p with
  | nil => exact absurd rfl h
  | cons first p ih =>
    cases p with
    | nil => rw [List.singleton_append, join_cons_cons, join_singleton, join_singleton]
    | cons second p =>
      rw [List.cons_append, List.cons_append, join_cons_cons, ← List.cons_append, ih (List.cons_ne_nil _ _),
        join_cons_cons, List.append_assoc, List.cons_append]

theorem join_append (p : List (List α)) (name : List α) (path : List (List α)) :
    join sep (p ++ name :: path) = p.flatMap (· ++ [sep]) ++ join sep (name :: path) := by
  induction p with
  | nil => rfl
  | cons first p ih =>
    have hcons : join sep (first :: (p ++ name :: path)) = first ++ sep :: join sep (p ++ name :: path) := by
      cases p with
      | nil => exact join_cons_cons sep first name path
      | cons second p => exact join_cons_cons sep first second (p ++ name :: path)
    rw [List.cons_append, hcons, ih, List.flatMap_cons, List.append_assoc, List.append_assoc]
    rfl

/-- What follows the first name. -/
theorem join_cons (name : List α) (path : List (List α)) : ∃ rest, join sep (name :: path) = name ++ rest ∧
    (path ≠ [] → ∃ more, rest = sep :: more) ∧ (path = [] → rest = []) := by
  cases path with
  | nil => exact ⟨[], by rw [join_singleton, List.append_nil], fun h => absurd rfl h, fun _ => rfl⟩
  | cons next path => exact ⟨_, join_cons_cons sep name next path, fun _ => ⟨_, rfl⟩, nofun⟩

variable [Ord α]

/-- Below `p` lies a path of a name `d` that goes on, beside a path of a name that continues `d` with a character
before the separator. -/
def Crossing (p q : List (List α)) : Prop :=
  ∃ r d c s x xs ys, p = r ++ d :: x :: xs ∧ q = r ++ (d ++ c :: s) :: ys ∧ compare c sep = .lt

theorem join_gt_of_crossing [Std.ReflOrd α] {p q : List (List α)} (h : Crossing sep p q) :
    compare (join sep q) (join sep p) = .lt := by
  obtain ⟨r, d, c, s, x, xs, ys, rfl, rfl, hc⟩ := h
  obtain ⟨rest, hrest, -, -⟩ := join_cons sep (d ++ c :: s) ys
  rw [join_append, join_append, compare_append, hrest, join_cons_cons, List.append_assoc]
  exact compare_diverge hc d (s ++ rest) (join sep (x :: xs))

/-- Where no paths cross, the joined paths are in the order of the paths. -/
theorem join_lt [Std.LawfulEqOrd α] [Std.OrientedOrd α] {p q : List (List α)} (hq : ∀ name ∈ q, name ≠ [] ∧ sep ∉ name)
    (h : compare p q = .lt) (hcross : ¬Crossing sep p q) : compare (join sep p) (join sep q) = .lt := by
  rcases cases_of_compare_lt h with ⟨name, path, rfl⟩ | ⟨r, d, xs, e, ys, rfl, rfl, hde⟩
  · -- a path and one below it
    cases hp : p with
    | nil =>
      obtain ⟨hname, -⟩ := hq name (List.mem_append_right _ List.mem_cons_self)
      obtain ⟨rest, hrest, -, -⟩ := join_cons sep name path
      obtain ⟨c, s, rfl⟩ := List.exists_cons_of_ne_nil hname
      rw [List.nil_append, hrest]
      rfl
    | cons first p =>
      obtain ⟨init, last, hlast⟩ := List.eq_nil_or_concat (first :: p) |>.resolve_left (List.cons_ne_nil _ _)
      rw [hlast, List.concat_eq_append, List.append_assoc, List.singleton_append, join_append, join_append, compare_append,
        join_singleton, join_cons_cons]
      exact compare_prefix _ _ _
  · obtain ⟨rest, hrest, hmore, hnone⟩ := join_cons sep d xs
    obtain ⟨rest', hrest', -, -⟩ := join_cons sep e ys
    rw [join_append, join_append, compare_append, hrest, hrest']
    rcases cases_of_compare_lt hde with ⟨c, s, rfl⟩ | ⟨u, a, s, b, t, rfl, rfl, hab⟩
    · rw [List.append_assoc, List.cons_append]
      cases xs with
      | nil =>
        rw [hnone rfl, List.append_nil]
        exact compare_prefix _ _ _
      | cons x xs =>
        obtain ⟨more, rfl⟩ := hmore (List.cons_ne_nil _ _)
        refine compare_diverge ?_ d more (s ++ rest')
        -- the separator stands in no name, and no paths cross
        have hne : c ≠ sep := by
          rintro rfl
          exact (hq _ (List.mem_append_right _ List.mem_cons_self)).2
            (List.mem_append_right _ List.mem_cons_self)
        cases hc : compare sep c with
        | lt => rfl
        | eq => exact absurd (Std.LawfulEqCmp.eq_of_compare hc).symm hne
        | gt => exact absurd ⟨r, d, c, s, x, xs, ys, rfl, rfl, Std.OrientedCmp.lt_of_gt hc⟩ hcross
    · rw [List.append_assoc, List.append_assoc]
      exact compare_diverge hab u (s ++ rest) (t ++ rest')

theorem join_lt_iff [Std.LawfulEqOrd α] [Std.TransOrd α] {p q : List (List α)}
    (hq : ∀ name ∈ q, name ≠ [] ∧ sep ∉ name) (h : compare p q = .lt) :
    compare (join sep p) (join sep q) = .lt ↔ ¬Crossing sep p q := by
  constructor
  · intro hlt hcross
    rw [Std.OrientedCmp.gt_of_lt (join_gt_of_crossing sep hcross)] at hlt
    cases hlt
  · exact join_lt sep hq h

end PathOrder
