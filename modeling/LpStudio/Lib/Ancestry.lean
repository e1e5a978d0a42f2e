import Mathlib

/-! # Ancestries
Commits that name their parents. The ancestry of a head is the chain of its single parents down to a commit without
any, and a search from the head along the parents finds exactly the commits of the chain.
-/
namespace Ancestry

variable {ι : Type}

/-! ## Chains -/

inductive Chain (parents : ι → Option (List ι)) : ι → List ι → Prop where
  | root {head : ι} (h : parents head = some []) : Chain parents head [head]
  | child {head parent : ι} {chain : List ι} (h : parents head = some [parent]) (hchain : Chain parents parent chain) :
      Chain parents head (head :: chain)

section
variable {parents parents' : ι → Option (List ι)} {head commit candidate : ι} {chain chain' : List ι}

theorem Chain.head_mem (h : Chain parents head chain) : head ∈ chain := by
  cases h with
  | root _ => exact List.mem_singleton_self head
  | child _ _ => exact List.mem_cons_self

theorem Chain.unique (h : Chain parents head chain) (h' : Chain parents head chain') : chain = chain' := by
  induction h generalizing chain' with
  | root hroot =>
    cases h' with
    | root _ => rfl
    | child hchild _ =>
      rw [hroot] at hchild
      cases hchild
  | child hchild _ ih =>
    cases h' with
    | root hroot =>
      rw [hchild] at hroot
      cases hroot
    | child hchild' hchain' =>
      rw [hchild] at hchild'
      cases hchild'
      rw [ih hchain']

/-- A store that grows keeps its chains. -/
theorem Chain.mono (h : Chain parents head chain)
    (hparents : ∀ commit ps, parents commit = some ps → parents' commit = some ps) : Chain parents' head chain := by
  induction h with
  | root hroot => exact .root (hparents _ _ hroot)
  | child hchild _ ih => exact .child (hparents _ _ hchild) ih

theorem Chain.lower (h : Chain parents head chain) (hmem : commit ∈ chain) :
    ∃ lower, Chain parents commit lower ∧ lower <:+ chain := by
  induction h with
  | root hroot =>
    obtain rfl := List.mem_singleton.mp hmem
    exact ⟨_, .root hroot, List.suffix_refl _⟩
  | child hchild hchain ih =>
    rcases List.mem_cons.mp hmem with rfl | hmem
    · exact ⟨_, .child hchild hchain, List.suffix_refl _⟩
    · obtain ⟨lower, hlower, hsuffix⟩ := ih hmem
      exact ⟨lower, hlower, hsuffix.trans (List.suffix_cons _ _)⟩

/-- The parents of a commit of a chain are in the chain. -/
theorem Chain.parents_mem {ps : List ι} {parent : ι} (h : Chain parents head chain) (hmem : commit ∈ chain)
    (hps : parents commit = some ps) (hparent : parent ∈ ps) : parent ∈ chain := by
  obtain ⟨lower, hlower, hsuffix⟩ := h.lower hmem
  cases hlower with
  | root hroot =>
    rw [hps] at hroot
    cases hroot
    cases hparent
  | child hchild hchain =>
    rw [hps] at hchild
    cases hchild
    obtain rfl := List.mem_singleton.mp hparent
    exact hsuffix.subset (List.mem_cons_of_mem _ hchain.head_mem)

/-- Nothing is its own ancestor: the chain below a commit would be as long as the chain from it. -/
theorem Chain.not_mem_of_child (h : Chain parents head chain) (hcandidate : parents candidate = some [head]) :
    candidate ∉ chain := by
  intro hmem
  obtain ⟨lower, hlower, hsuffix⟩ := h.lower hmem
  have hlong : lower = candidate :: chain := hlower.unique (.child hcandidate h)
  have hlength := hsuffix.length_le
  rw [hlong, List.length_cons] at hlength
  omega

end

/-- A commit of the ancestry of a head. -/
def Descends (parents : ι → Option (List ι)) (head commit : ι) : Prop :=
  ∃ chain, Chain parents head chain ∧ commit ∈ chain

section
variable {parents parents' : ι → Option (List ι)} {head commit candidate : ι} {chain : List ι}

theorem Chain.descends_iff (h : Chain parents head chain) : Descends parents head commit ↔ commit ∈ chain := by
  constructor
  · rintro ⟨chain', hchain', hmem⟩
    rwa [h.unique hchain']
  · intro hmem
    exact ⟨chain, h, hmem⟩

theorem Descends.mono (h : Descends parents head commit)
    (hparents : ∀ commit ps, parents commit = some ps → parents' commit = some ps) : Descends parents' head commit := by
  obtain ⟨chain, hchain, hmem⟩ := h
  exact ⟨chain, hchain.mono hparents, hmem⟩

/-- The ancestry of a commit on top of a head. -/
theorem descends_child (hchain : Chain parents head chain) (hcandidate : parents candidate = some [head]) :
    Descends parents candidate commit ↔ commit = candidate ∨ Descends parents head commit := by
  rw [(Chain.child hcandidate hchain).descends_iff, hchain.descends_iff, List.mem_cons]

end

/-! ## The search -/

/-- A search from the pending commits. A commit with `early` is found before it counts; one that `visit` answers with
`none` is found, and otherwise its parents are pending. At most so many commits are visited. -/
def search {ε : Type} [DecidableEq ι] (early : ι → Bool) (visit : ι → Except ε (Option (List ι))) (tooMany : ε) :
    ℕ → List ι → List ι → Except ε Bool
  | 0, pending, visited =>
    match pending.dropWhile (· ∈ visited) with
    | [] => .ok false
    | commit :: _ => if early commit then .ok true else .error tooMany
  | budget + 1, pending, visited =>
    match pending.dropWhile (· ∈ visited) with
    | [] => .ok false
    | commit :: rest =>
      if early commit then .ok true else
        match visit commit with
        | .error e => .error e
        | .ok none => .ok true
        | .ok (some parents) => search early visit tooMany budget (parents.reverse ++ rest) (commit :: visited)

section
variable {ε : Type} [DecidableEq ι] {parents : ι → Option (List ι)} {head candidate : ι} {chain visited : List ι}
  {early : ι → Bool} {visit : ι → Except ε (Option (List ι))} {tooMany : ε}

theorem search_nil (budget : ℕ) : search early visit tooMany budget [] visited = .ok false := by
  cases budget with
  | zero => rfl
  | succ budget => rfl

theorem search_zero (hfresh : head ∉ visited) :
    search early visit tooMany 0 [head] visited = if early head then .ok true else .error tooMany := by
  have hpending : [head].dropWhile (· ∈ visited) = [head] := List.dropWhile_cons_of_neg (by simpa using hfresh)
  unfold search
  rw [hpending]

theorem search_succ (budget : ℕ) (hfresh : head ∉ visited) :
    search early visit tooMany (budget + 1) [head] visited =
      if early head then .ok true else
        match visit head with
        | .error e => .error e
        | .ok none => .ok true
        | .ok (some parents) => search early visit tooMany budget (parents.reverse ++ []) (head :: visited) := by
  have hpending : [head].dropWhile (· ∈ visited) = [head] := List.dropWhile_cons_of_neg (by simpa using hfresh)
  rw [search, hpending]

/-- The search for one commit answers whether it is in the chain. -/
theorem search_chain {budget : ℕ} {found : Bool} (hchain : Chain parents head chain)
    (hvisit : ∀ commit answer, visit commit = .ok answer → ∃ ps, answer = some ps ∧ parents commit = some ps)
    (hfresh : ∀ commit ∈ chain, commit ∉ visited)
    (h : search (fun commit => commit = candidate) visit tooMany budget [head] visited = .ok found) :
    found = true ↔ candidate ∈ chain := by
  induction hchain generalizing budget visited with
  | @root head hroot =>
    have hhead := hfresh head (List.mem_singleton_self head)
    rw [List.mem_singleton]
    cases budget with
    | zero =>
      rw [search_zero hhead] at h
      split at h
      · next heq =>
        cases h
        exact iff_of_true rfl (of_decide_eq_true heq).symm
      · cases h
    | succ budget =>
      rw [search_succ budget hhead] at h
      split at h
      · next heq =>
        cases h
        exact iff_of_true rfl (of_decide_eq_true heq).symm
      · next hne =>
        split at h
        · cases h
        · next hanswer =>
          obtain ⟨ps, hps, -⟩ := hvisit _ _ hanswer
          cases hps
        · next ps hanswer =>
          obtain ⟨ps, hps, hparents⟩ := hvisit _ _ hanswer
          cases hps
          rw [hroot] at hparents
          cases hparents
          rw [List.reverse_nil, List.nil_append, search_nil] at h
          cases h
          exact iff_of_false Bool.false_ne_true fun heq => hne (decide_eq_true heq.symm)
  | @child head parent chain hchild hchain ih =>
    have hhead := hfresh head List.mem_cons_self
    rw [List.mem_cons]
    cases budget with
    | zero =>
      rw [search_zero hhead] at h
      split at h
      · next heq =>
        cases h
        exact iff_of_true rfl (.inl (of_decide_eq_true heq).symm)
      · cases h
    | succ budget =>
      rw [search_succ budget hhead] at h
      split at h
      · next heq =>
        cases h
        exact iff_of_true rfl (.inl (of_decide_eq_true heq).symm)
      · next hne =>
        split at h
        · cases h
        · next hanswer =>
          obtain ⟨ps, hps, -⟩ := hvisit _ _ hanswer
          cases hps
        · next ps hanswer =>
          obtain ⟨ps, hps, hparents⟩ := hvisit _ _ hanswer
          cases hps
          rw [hchild] at hparents
          cases hparents
          rw [List.reverse_singleton, List.append_nil] at h
          have hbelow : ∀ commit ∈ chain, commit ∉ head :: visited := by
            intro commit hmem hvisited
            rcases List.mem_cons.mp hvisited with rfl | hvisited
            · exact hchain.not_mem_of_child hchild hmem
            · exact hfresh commit (List.mem_cons_of_mem head hmem) hvisited
          rw [ih hbelow h]
          constructor
          · exact .inr
          · rintro (heq | hmem)
            · exact absurd (decide_eq_true heq.symm) hne
            · exact hmem

/-- What a search finds can be reached. -/
theorem search_found {Reach : ι → Prop} {budget : ℕ} {pending : List ι} (hpending : ∀ commit ∈ pending, Reach commit)
    (hvisit : ∀ commit ps, Reach commit → visit commit = .ok (some ps) → ∀ parent ∈ ps, Reach parent)
    (h : search early visit tooMany budget pending visited = .ok true) :
    ∃ commit, Reach commit ∧ (early commit = true ∨ visit commit = .ok none) := by
  induction budget generalizing pending visited with
  | zero =>
    unfold search at h
    split at h
    · cases h
    · next commit rest heq =>
      split at h
      · next hearly =>
        have hmem : commit ∈ pending := (List.dropWhile_suffix _).mem (heq ▸ List.mem_cons_self)
        exact ⟨commit, hpending commit hmem, .inl hearly⟩
      · cases h
  | succ budget ih =>
    unfold search at h
    split at h
    · cases h
    · next commit rest heq =>
      have hreach : ∀ other ∈ commit :: rest, Reach other :=
        fun other hother => hpending other ((List.dropWhile_suffix _).mem (heq ▸ hother))
      have hcommit := hreach commit List.mem_cons_self
      split at h
      · next hearly => exact ⟨commit, hcommit, .inl hearly⟩
      · split at h
        · cases h
        · next hnone => exact ⟨commit, hcommit, .inr hnone⟩
        · next ps hps =>
          refine ih (fun other hother => ?_) h
          rcases List.mem_append.mp hother with hother | hother
          · exact hvisit commit ps hcommit hps other (List.mem_reverse.mp hother)
          · exact hreach other (List.mem_cons_of_mem _ hother)

end
end Ancestry
