import LpStudio.ChangeSet.Permutation
import LpStudio.Lib.Walks

/-! # Rename cycles
`contains_rename_cycle` walks from every source along the renames. The walk ends, and it answers `true` exactly on a
cycle; what the map of the edges drops, the claims of the operations cover.
-/
namespace LpStudio.ChangeSet
open Str Paths Walks

/-- The rename from a folded path. -/
def renamed (edges : Edges) (path : Text) : Option Text := edges[path]?

section
variable {edges : Edges} {visited : List Text} {start cursor : Text} {answer : Bool} {n fuel : ℕ}

/-! ## The walk -/

theorem revisits_of_finishes (h : Finishes (renamed edges) n visited cursor answer) (hfuel : n < fuel) :
    revisits edges fuel visited cursor = answer := by
  induction h generalizing fuel with
  | stop hnext =>
    obtain ⟨fuel, rfl⟩ := Nat.exists_eq_succ_of_ne_zero (Nat.ne_of_gt hfuel)
    rw [renamed] at hnext
    simp only [revisits, hnext]
  | again hnext hmem =>
    obtain ⟨fuel, rfl⟩ := Nat.exists_eq_succ_of_ne_zero (Nat.ne_of_gt hfuel)
    rw [renamed] at hnext
    simp only [revisits, hnext, if_pos hmem]
  | turn hnext hfresh _ ih =>
    obtain ⟨fuel, rfl⟩ := Nat.exists_eq_succ_of_ne_zero (Nat.ne_zero_of_lt hfuel)
    rw [renamed] at hnext
    simp only [revisits, hnext, if_neg hfresh]
    exact ih (Nat.lt_of_succ_lt_succ hfuel)

/-- The inner loop ends: it follows every edge once at most before its last look. -/
theorem revisits_finishes (edges : Edges) (start : Text) :
    ∃ n ≤ edges.size, Finishes (renamed edges) n [] start (revisits edges (edges.size + 1) [] start) := by
  have hplaces : ∀ a b, renamed edges a = some b → a ∈ edges.keys := by
    intro a b h
    rw [Std.ExtTreeMap.mem_keys, Std.ExtTreeMap.mem_iff_isSome_getElem?]
    exact Option.isSome_of_eq_some h
  obtain ⟨n, answer, hn, hfinishes⟩ : ∃ n answer, n + ([] : List Text).length ≤ edges.keys.length ∧
      Finishes (renamed edges) n [] start answer := finishes hplaces List.nodup_nil (List.nil_subset _)
  rw [List.length_nil, Nat.add_zero, Std.ExtTreeMap.length_keys] at hn
  refine ⟨n, hn, ?_⟩
  rw [revisits_of_finishes hfinishes (Nat.lt_succ_of_le hn)]
  exact hfinishes

theorem containsRenameCycle_iff (edges : Edges) :
    containsRenameCycle edges = true ↔ ∃ path, Relation.TransGen (Leads (renamed edges)) path path := by
  have hkeys : ∀ {a b}, Leads (renamed edges) a b → a ∈ edges.keys := by
    intro a b h
    rw [Std.ExtTreeMap.mem_keys, Std.ExtTreeMap.mem_iff_isSome_getElem?]
    exact Option.isSome_of_eq_some h
  rw [containsRenameCycle, List.any_eq_true]
  constructor
  · rintro ⟨start, -, hrevisits⟩
    obtain ⟨n, -, hfinishes⟩ := revisits_finishes edges start
    obtain ⟨path, -, hcycle⟩ := hfinishes.reaches_cycle.mp hrevisits
    exact ⟨path, hcycle⟩
  · rintro ⟨path, hcycle⟩
    obtain ⟨target, hstep, -⟩ := Relation.TransGen.head'_iff.mp hcycle
    obtain ⟨n, -, hfinishes⟩ := revisits_finishes edges path
    exact ⟨path, hkeys hstep, hfinishes.reaches_cycle.mpr ⟨path, .refl, hcycle⟩⟩

end

/-! ## The edges of a list of operations -/

section
variable {K : Crates} {edges : Edges} {operations : List ChangeOperationV1} {source target expectedSha256 : Text}

theorem foldl_addEdge_other (h : ∀ operation ∈ operations, ∀ path ∈ operationClaims operation, foldedPath K path ≠ source) :
    (operations.foldl (addEdge K) edges)[source]? = edges[source]? := by
  induction operations generalizing edges with
  | nil => rfl
  | cons operation operations ih =>
    obtain ⟨hfirst, hothers⟩ := List.forall_mem_cons.mp h
    rw [List.foldl_cons, ih hothers]
    cases operation with
    | rename other _ _ =>
      rw [addEdge, Std.ExtTreeMap.getElem?_insert, if_neg]
      rw [Std.LawfulEqCmp.compare_eq_iff_eq]
      exact hfirst other List.mem_cons_self
    | _ => rfl

/-- Where the operations claim different paths, no edge is dropped. -/
theorem foldl_addEdge_rename (hapart : operations.Pairwise (Apart K))
    (hmem : ChangeOperationV1.rename source target expectedSha256 ∈ operations) :
    (operations.foldl (addEdge K) edges)[foldedPath K source]? = some (foldedPath K target) := by
  induction operations generalizing edges with
  | nil => cases hmem
  | cons operation operations ih =>
    obtain ⟨hfirst, hothers⟩ := List.pairwise_cons.mp hapart
    rw [List.foldl_cons]
    rcases List.mem_cons.mp hmem with rfl | hmem
    · rw [foldl_addEdge_other, addEdge, Std.ExtTreeMap.getElem?_insert_self]
      intro other hother path hpath heq
      exact hfirst other hother source List.mem_cons_self path hpath heq.symm
    · exact ih hothers hmem

/-- The target of a rename is the source of none, its own included. -/
theorem rename_target_ne_source (h : validateOperationGraph K operations = .ok ())
    {source' target' expectedSha256' : Text}
    (hmem : ChangeOperationV1.rename source target expectedSha256 ∈ operations)
    (hmem' : ChangeOperationV1.rename source' target' expectedSha256' ∈ operations) :
    foldedPath K target ≠ foldedPath K source' := by
  obtain ⟨hacyclic, hapart⟩ := validateOperationGraph_ok.mp h
  intro heq
  by_cases hsame : ChangeOperationV1.rename source target expectedSha256 = .rename source' target' expectedSha256'
  · -- a rename that only changes case is a cycle of its own
    cases hsame
    have hedge : (operations.foldl (addEdge K) ∅)[foldedPath K source]? = some (foldedPath K target) :=
      foldl_addEdge_rename hapart hmem
    rw [heq] at hedge
    rw [(containsRenameCycle_iff _).mpr ⟨_, .single hedge⟩] at hacyclic
    cases hacyclic
  · have : Std.Symm (Apart K) := ⟨fun _ _ => Apart.symm⟩
    exact hapart.forall hmem hmem' hsame target (List.mem_cons_of_mem _ List.mem_cons_self) source' List.mem_cons_self heq

end

/-- The detection ends and is exact, and no accepted ChangeSet renames to a path that it renames. -/
theorem containsRenameCycle_exact :
    (∀ edges : Edges,
      (∀ start, ∃ n ≤ edges.size, Finishes (renamed edges) n [] start (revisits edges (edges.size + 1) [] start)) ∧
      (containsRenameCycle edges = true ↔ ∃ path, Relation.TransGen (Leads (renamed edges)) path path)) ∧
    ∀ (G : Gate) (raw base : Text) (accepted : Files) (result : AppliedChangeSet),
      parseAndApplyChangeSet G raw base accepted = .ok result →
      ∀ source target expectedSha256 source' target' expectedSha256',
        ChangeOperationV1.rename source target expectedSha256 ∈ result.changeSet.operations →
        ChangeOperationV1.rename source' target' expectedSha256' ∈ result.changeSet.operations →
        foldedPath G.crates target ≠ foldedPath G.crates source' := by
  refine ⟨fun edges => ⟨revisits_finishes edges, containsRenameCycle_iff edges⟩, ?_⟩
  intro G raw base accepted result haccept source target expectedSha256 source' target' expectedSha256' hmem hmem'
  exact rename_target_ne_source (parseAndApply_passes haccept).graph hmem hmem'

theorem containsRenameCycle_exact_styled : ∃ result,
    parseAndApplyChangeSet styledGate [] "rev_0".toList styledSite = .ok result ∧
      foldedPath sampleCrates "c.css".toList ≠ foldedPath sampleCrates "a.css".toList := by
  obtain ⟨result, haccept⟩ := styledGate_accepts
  have hraw := (parseAndApply_passes haccept).protocol
  have hmem : ChangeOperationV1.rename "a.css".toList "c.css".toList (sampleCrates.sha256 (encode "i{}".toList)) ∈
      result.changeSet.operations := by
    rw [← Option.some.inj hraw]
    exact List.mem_cons_self
  exact ⟨result, haccept, containsRenameCycle_exact.2 styledGate [] "rev_0".toList styledSite result haccept
    _ _ _ _ _ _ hmem hmem⟩

end LpStudio.ChangeSet
