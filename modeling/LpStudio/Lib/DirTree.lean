import LpStudio.Lib.Outcome
import LpStudio.Lib.PathOrder

/-! # Directory trees
The directories and files below a root, by their paths, and the walk that meets each of them.
-/
namespace DirTree
open Outcome

inductive Node (γ : Type) where
  | dir
  | file (content : γ)
  deriving DecidableEq, Repr

variable {ν γ : Type} [Ord ν] [Std.TransOrd ν]

/-- The root has the empty path, and is no entry. -/
structure Tree (ν γ : Type) [Ord ν] [Std.TransOrd ν] where
  entries : Std.ExtTreeMap (List ν) (Node γ) compare
  root : ¬[] ∈ entries
  parent : ∀ path name, path ++ [name] ∈ entries → path = [] ∨ entries[path]? = some .dir

namespace Tree
variable (t : Tree ν γ)

def isDir (path : List ν) : Prop := path = [] ∨ t.entries[path]? = some .dir

instance [DecidableEq ν] [DecidableEq γ] (path : List ν) : Decidable (t.isDir path) :=
  inferInstanceAs (Decidable (_ ∨ _))

/-- An entry stands below directories only. -/
theorem prefix_mem {path rest : List ν} (hpath : path ≠ []) (h : path ++ rest ∈ t.entries) : path ∈ t.entries := by
  induction rest using List.reverseRecOn with
  | nil => rwa [List.append_nil] at h
  | append_singleton rest name ih =>
    rw [← List.append_assoc] at h
    rcases t.parent _ _ h with hnil | hdir
    · exact absurd (List.append_eq_nil_iff.mp hnil).1 hpath
    · exact ih (Std.ExtTreeMap.mem_iff_isSome_getElem?.mpr (by rw [hdir]; rfl))

theorem isDir_of_child {path : List ν} {name : ν} (h : path ++ [name] ∈ t.entries) : t.isDir path := t.parent path name h

variable [Std.LawfulEqOrd ν] [DecidableEq ν]

/-- The names in a directory, in their order. -/
def children (directory : List ν) : List ν :=
  t.entries.keys.filterMap fun path => if path.dropLast = directory then path.getLast? else none

theorem mem_children {directory : List ν} {name : ν} :
    name ∈ t.children directory ↔ directory ++ [name] ∈ t.entries := by
  rw [children, List.mem_filterMap]
  constructor
  · rintro ⟨path, hpath, h⟩
    split at h
    · rename_i hdirectory
      rw [← hdirectory, List.dropLast_append_getLast? name h]
      exact Std.ExtTreeMap.mem_keys.mp hpath
    · cases h
  · intro h
    exact ⟨directory ++ [name], Std.ExtTreeMap.mem_keys.mpr h, by rw [List.dropLast_concat, if_pos rfl, List.getLast?_concat]⟩

theorem children_sorted (directory : List ν) : (t.children directory).Pairwise fun a b => compare a b = .lt := by
  refine List.Pairwise.filterMap _ ?_ Std.ExtTreeMap.ordered_keys
  intro a b hab x hx y hy
  split at hx
  · split at hy
    · rename_i ha hb
      rw [← List.dropLast_append_getLast? x hx, ← List.dropLast_append_getLast? y hy, ha, hb,
        PathOrder.compare_append, PathOrder.compare_cons] at hab
      cases hxy : compare x y with
      | lt => rfl
      | _ =>
        rw [hxy] at hab
        cases hab
    · cases hy
  · cases hx

theorem children_of_not_isDir {path : List ν} (h : ¬t.isDir path) : t.children path = [] := by
  rw [List.eq_nil_iff_forall_not_mem]
  exact fun name hname => h (t.isDir_of_child ((t.mem_children).mp hname))

/-! ## The entries below a directory -/

/-- The paths below a directory, down to a depth, in the order of a walk. -/
def below : ℕ → List ν → List (List ν)
  | 0, _ => []
  | depth + 1, directory => (t.children directory).flatMap fun name =>
      (directory ++ [name]) :: below depth (directory ++ [name])

theorem mem_below {depth : ℕ} {directory path : List ν} :
    path ∈ t.below depth directory ↔
      path ∈ t.entries ∧ ∃ rest, path = directory ++ rest ∧ rest ≠ [] ∧ rest.length ≤ depth := by
  induction depth generalizing directory with
  | zero =>
    refine iff_of_false List.not_mem_nil ?_
    rintro ⟨-, rest, -, hne, hlength⟩
    exact hne (List.length_eq_zero_iff.mp (Nat.le_zero.mp hlength))
  | succ depth ih =>
    rw [below, List.mem_flatMap]
    constructor
    · rintro ⟨name, hname, hpath⟩
      rcases List.mem_cons.mp hpath with rfl | hpath
      · exact ⟨(t.mem_children).mp hname, [name], rfl, List.cons_ne_nil _ _, by simp⟩
      · obtain ⟨hmem, rest, rfl, -, hlength⟩ := ih.mp hpath
        exact ⟨hmem, name :: rest, by simp, List.cons_ne_nil _ _, by simpa using hlength⟩
    · rintro ⟨hmem, rest, rfl, hne, hlength⟩
      obtain ⟨name, rest, rfl⟩ := List.exists_cons_of_ne_nil hne
      have hsplit : directory ++ name :: rest = directory ++ [name] ++ rest := by simp
      refine ⟨name, (t.mem_children).mpr ?_, ?_⟩
      · rw [hsplit] at hmem
        exact t.prefix_mem (by simp) hmem
      · rw [List.mem_cons]
        cases rest with
        | nil => exact .inl rfl
        | cons next rest =>
          exact .inr (ih.mpr ⟨hmem, next :: rest, hsplit, List.cons_ne_nil _ _, by simpa using hlength⟩)

theorem below_sorted (depth : ℕ) (directory : List ν) :
    (t.below depth directory).Pairwise fun a b => compare a b = .lt := by
  induction depth generalizing directory with
  | zero => exact .nil
  | succ depth ih =>
    rw [below, List.pairwise_flatMap]
    constructor
    · intro name _
      refine List.pairwise_cons.mpr ⟨fun path hpath => ?_, ih _⟩
      obtain ⟨-, rest, rfl, hne, -⟩ := (t.mem_below).mp hpath
      obtain ⟨next, rest, rfl⟩ := List.exists_cons_of_ne_nil hne
      exact PathOrder.compare_prefix _ _ _
    · refine (t.children_sorted directory).imp fun {first second} hlt a ha b hb => ?_
      have hstarts : ∀ name, ∀ path ∈ (directory ++ [name]) :: t.below depth (directory ++ [name]),
          ∃ rest, path = directory ++ name :: rest := by
        intro name path hpath
        rcases List.mem_cons.mp hpath with rfl | hpath
        · exact ⟨[], rfl⟩
        · obtain ⟨-, rest, rfl, -⟩ := (t.mem_below).mp hpath
          exact ⟨rest, by simp⟩
      obtain ⟨rest, rfl⟩ := hstarts first a ha
      obtain ⟨rest', rfl⟩ := hstarts second b hb
      exact PathOrder.compare_diverge hlt _ _ _

/-- The walk of a tree that is not too deep meets the entries in their order. -/
theorem below_eq_keys {depth : ℕ} (hdepth : ∀ path ∈ t.entries, path.length ≤ depth) :
    t.below depth [] = t.entries.keys := by
  have hnodup : (t.below depth []).Nodup := by
    refine (t.below_sorted depth []).imp fun {a b} hlt heq => ?_
    have hself : compare b b = .eq := Std.ReflCmp.compare_self
    rw [heq, hself] at hlt
    cases hlt
  refine List.Perm.eq_of_pairwise ?_ (t.below_sorted depth []) Std.ExtTreeMap.ordered_keys
    ((List.perm_ext_iff_of_nodup hnodup Std.ExtTreeMap.nodup_keys).mpr fun path => ?_)
  · intro a b _ _ hab hba
    rw [Std.OrientedCmp.gt_of_lt hab] at hba
    cases hba
  · rw [t.mem_below, Std.ExtTreeMap.mem_keys]
    constructor
    · exact fun h => h.1
    · intro h
      refine ⟨h, path, rfl, ?_, hdepth path h⟩
      rintro rfl
      exact t.root h

theorem below_of_not_isDir {path : List ν} (h : ¬t.isDir path) (depth : ℕ) : t.below depth path = [] := by
  cases depth with
  | zero => rfl
  | succ depth => rw [below, t.children_of_not_isDir h, List.flatMap_nil]

/-! ## The walk -/

section
variable {ε σ : Type} [DecidableEq γ] (visit : σ → List ν → Except ε σ) (tooDeep : ε)

/-- A walk visits the entries of a directory in their order, and after each directory what lies below it. -/
def walk : ℕ → List ν → σ → Except ε σ
  | 0, _, _ => .error tooDeep
  | depth + 1, directory, state => (t.children directory).foldlM (fun state name => do
      let state ← visit state (directory ++ [name])
      if t.isDir (directory ++ [name]) then walk depth (directory ++ [name]) state else return state) state

variable {visit} {maxDepth : ℕ}

/-- A walk whose visits reject what lies deeper than `maxDepth` is one loop over the entries. -/
theorem walk_ok_iff (hvisit : ∀ state path next, visit state path = .ok next → path.length ≤ maxDepth) {depth : ℕ}
    {directory : List ν} (hdepth : directory.length + depth = maxDepth) {state final : σ} :
    t.walk visit tooDeep (depth + 1) directory state = .ok final ↔
      (t.below (depth + 1) directory).foldlM visit state = .ok final := by
  induction depth generalizing directory state final with
  | zero =>
    rw [walk, below]
    refine foldlM_flatMap_ok fun name _ s u => ?_
    -- no entry below a directory of the greatest depth is accepted
    have hnone : ∀ next, visit s (directory ++ [name]) ≠ .ok next := by
      intro next h
      have := hvisit _ _ _ h
      rw [List.length_append, List.length_singleton] at this
      omega
    rw [bind_ok, List.foldlM_cons, bind_ok]
    constructor
    · rintro ⟨next, h, -⟩
      exact absurd h (hnone next)
    · rintro ⟨next, h, -⟩
      exact absurd h (hnone next)
  | succ depth ih =>
    rw [walk, below]
    refine foldlM_flatMap_ok fun name _ s u => ?_
    rw [bind_ok, List.foldlM_cons, bind_ok]
    refine exists_congr fun next => and_congr_right fun _ => ?_
    split
    · refine ih ?_
      rw [List.length_append, List.length_singleton]
      omega
    · rename_i hdir
      rw [t.below_of_not_isDir hdir]
      exact Iff.rfl

/-- The walk of a whole tree. -/
theorem walk_root_ok_iff (hvisit : ∀ state path next, visit state path = .ok next → path.length ≤ maxDepth)
    {state final : σ} :
    t.walk visit tooDeep (maxDepth + 1) [] state = .ok final ↔ t.entries.keys.foldlM visit state = .ok final := by
  rw [t.walk_ok_iff tooDeep hvisit (by simp)]
  have hshallow : (∀ path ∈ t.entries, path.length ≤ maxDepth + 1) → t.below (maxDepth + 1) [] = t.entries.keys :=
    t.below_eq_keys
  constructor
  · intro h
    rw [← hshallow]
    · exact h
    · intro path hpath
      by_contra hlong
      have hne : path.take (maxDepth + 1) ≠ [] := by
        rw [ne_eq, List.take_eq_nil_iff, not_or]
        refine ⟨Nat.succ_ne_zero _, ?_⟩
        rintro rfl
        exact hlong (Nat.zero_le _)
      have hlength : (path.take (maxDepth + 1)).length = maxDepth + 1 := by
        rw [List.length_take]
        omega
      have hmem : path.take (maxDepth + 1) ∈ t.below (maxDepth + 1) [] := by
        have hsplit : path.take (maxDepth + 1) ++ path.drop (maxDepth + 1) ∈ t.entries := by
          rwa [List.take_append_drop]
        exact (t.mem_below).mpr ⟨t.prefix_mem hne hsplit, _, rfl, hne, hlength.le⟩
      obtain ⟨s, u, hturn⟩ := foldlM_turn h _ hmem
      have := hvisit _ _ _ hturn
      omega
  · intro h
    rw [hshallow]
    · exact h
    · intro path hpath
      obtain ⟨s, u, hturn⟩ := foldlM_turn h _ (Std.ExtTreeMap.mem_keys.mpr hpath)
      exact Nat.le_succ_of_le (hvisit _ _ _ hturn)

end

/-! ## New entries -/

/-- A path that no entry has yet, in a directory. -/
def Free (path : List ν) : Prop := path ≠ [] ∧ t.isDir path.dropLast ∧ path ∉ t.entries

instance [DecidableEq γ] (path : List ν) : Decidable (t.Free path) := inferInstanceAs (Decidable (_ ∧ _))

omit [DecidableEq ν] in
theorem getElem?_insert_iff {path q : List ν} {node n : Node γ} :
    (t.entries.insert path node)[q]? = some n ↔ q = path ∧ n = node ∨ q ≠ path ∧ t.entries[q]? = some n := by
  rw [Std.ExtTreeMap.getElem?_insert]
  split
  · rename_i h
    have heq := Std.LawfulEqCmp.eq_of_compare h
    rw [Option.some.injEq, ← heq]
    constructor
    · exact fun h => .inl ⟨rfl, h.symm⟩
    · rintro (⟨-, h⟩ | ⟨h, -⟩)
      · exact h.symm
      · exact absurd rfl h
  · rename_i h
    have hne : q ≠ path := fun heq => h (heq ▸ Std.ReflCmp.compare_self)
    constructor
    · exact fun h => .inr ⟨hne, h⟩
    · rintro (⟨heq, -⟩ | ⟨-, h⟩)
      · exact absurd heq hne
      · exact h

/-- `mkdir`, or the creation of a new file. -/
def add (path : List ν) (node : Node γ) (h : t.Free path) : Tree ν γ where
  entries := t.entries.insert path node
  root := by
    rw [Std.ExtTreeMap.mem_insert, not_or]
    exact ⟨fun heq => h.1 (Std.LawfulEqCmp.eq_of_compare heq), t.root⟩
  parent := by
    have hkeep : ∀ directory, t.isDir directory → directory = [] ∨ (t.entries.insert path node)[directory]? = some .dir := by
      rintro directory (hnil | hdir)
      · exact .inl hnil
      · refine .inr (t.getElem?_insert_iff.mpr (.inr ⟨?_, hdir⟩))
        rintro rfl
        exact h.2.2 (Std.ExtTreeMap.mem_iff_isSome_getElem?.mpr (by rw [hdir]; rfl))
    intro directory name hmem
    rcases Std.ExtTreeMap.mem_insert.mp hmem with heq | hmem
    · have heq := Std.LawfulEqCmp.eq_of_compare heq
      have hdirectory := h.2.1
      rw [heq, List.dropLast_concat] at hdirectory
      exact hkeep directory hdirectory
    · exact hkeep directory (t.parent directory name hmem)

/-- The tree with a new entry, or nothing where the path is not free. -/
def create [DecidableEq γ] (path : List ν) (node : Node γ) : Option (Tree ν γ) :=
  if h : t.Free path then some (t.add path node h) else none

omit [DecidableEq ν] in
/-- New entries that come after their directories are created one after another. -/
theorem createAll [DecidableEq ν] [DecidableEq γ] {news : List (List ν × Node γ)} {t : Tree ν γ}
    (hnew : ∀ new ∈ news, new.1 ≠ [] ∧ new.1 ∉ t.entries) (hnodup : (news.map Prod.fst).Nodup)
    (hparent : ∀ before new after, news = before ++ new :: after →
      t.isDir new.1.dropLast ∨ (new.1.dropLast, Node.dir) ∈ before) :
    ∃ final : Tree ν γ, news.foldlM (fun t new => t.create new.1 new.2) t = some final ∧
      ∀ path node, final.entries[path]? = some node ↔ (path, node) ∈ news ∨ t.entries[path]? = some node := by
  induction news generalizing t with
  | nil => exact ⟨t, rfl, fun path node => by simp⟩
  | cons new news ih =>
    rw [List.map_cons, List.nodup_cons] at hnodup
    have hdir : t.isDir new.1.dropLast := (hparent [] new news rfl).resolve_right List.not_mem_nil
    have hfree : t.Free new.1 := ⟨(hnew new List.mem_cons_self).1, hdir, (hnew new List.mem_cons_self).2⟩
    have hentry : ∀ path node, (t.add new.1 new.2 hfree).entries[path]? = some node ↔
        path = new.1 ∧ node = new.2 ∨ path ≠ new.1 ∧ t.entries[path]? = some node :=
      fun path node => t.getElem?_insert_iff
    have hrest : ∀ other ∈ news, other.1 ≠ [] ∧ other.1 ∉ (t.add new.1 new.2 hfree).entries := by
      intro other hother
      obtain ⟨hne, hnot⟩ := hnew other (List.mem_cons_of_mem _ hother)
      refine ⟨hne, fun hmem => ?_⟩
      rcases Std.ExtTreeMap.mem_insert.mp hmem with heq | hmem
      · exact hnodup.1 (Std.LawfulEqCmp.eq_of_compare heq ▸ List.mem_map_of_mem hother)
      · exact hnot hmem
    have hparents : ∀ before other after, news = before ++ other :: after →
        (t.add new.1 new.2 hfree).isDir other.1.dropLast ∨ (other.1.dropLast, Node.dir) ∈ before := by
      intro before other after hsplit
      rcases hparent (new :: before) other after (by rw [hsplit]; rfl) with hnil | hmem
      · rcases hnil with hnil | hdir
        · exact .inl (.inl hnil)
        · refine .inl (.inr ((hentry _ _).mpr (.inr ⟨?_, hdir⟩)))
          rintro heq
          rw [heq] at hdir
          exact hfree.2.2 (Std.ExtTreeMap.mem_iff_isSome_getElem?.mpr (by rw [hdir]; rfl))
      · rcases List.mem_cons.mp hmem with heq | hmem
        · exact .inl (.inr ((hentry _ _).mpr (.inl ⟨congrArg Prod.fst heq, congrArg Prod.snd heq⟩)))
        · exact .inr hmem
    obtain ⟨final, hfinal, hentries⟩ := ih hrest hnodup.2 hparents
    refine ⟨final, ?_, fun path node => ?_⟩
    · rw [List.foldlM_cons, create, dif_pos hfree]
      exact hfinal
    · rw [hentries, hentry, List.mem_cons, Prod.ext_iff]
      constructor
      · rintro (hmem | h | ⟨-, h⟩)
        · exact .inl (.inr hmem)
        · exact .inl (.inl h)
        · exact .inr h
      · rintro ((h | hmem) | h)
        · exact .inr (.inl h)
        · exact .inl hmem
        · by_cases hpath : path = new.1
          · rw [hpath] at h
            exact absurd (Std.ExtTreeMap.mem_iff_isSome_getElem?.mpr (by rw [h]; rfl)) hfree.2.2
          · exact .inr (.inr ⟨hpath, h⟩)

end Tree
end DirTree
