import Mathlib

/-! # Walks along single successors
A walk from a start follows the successor of each place and notes the places it has left. It ends at a place without a
successor, or when it is about to leave a place once more: the second exactly if the chain from its start runs into a
cycle.
-/
namespace Walks

variable {ι : Type*}

/-- One step of the chain. -/
def Leads (next : ι → Option ι) (a b : ι) : Prop := next a = some b

/-- The walk at `cursor` ends after `n` more steps, and the answer is whether it met a place again. -/
inductive Finishes (next : ι → Option ι) : ℕ → List ι → ι → Bool → Prop where
  | stop {visited cursor} (h : next cursor = none) : Finishes next 0 visited cursor false
  | again {visited cursor target} (h : next cursor = some target) (hmem : cursor ∈ visited) :
      Finishes next 0 visited cursor true
  | turn {n visited cursor target answer} (h : next cursor = some target) (hfresh : cursor ∉ visited)
      (hrest : Finishes next n (cursor :: visited) target answer) : Finishes next (n + 1) visited cursor answer

section
variable {next : ι → Option ι} {a b c start cursor : ι} {visited places : List ι} {answer : Bool} {n : ℕ}

theorem leads_rightUnique : Relator.RightUnique (Leads next) := by
  intro a b c hb hc
  exact Option.some.inj (Eq.trans (Eq.symm hb) hc)

/-! ## Cycles -/

/-- Every place that a cycle leads to is on a cycle. -/
theorem cycle_carries (hcycle : Relation.TransGen (Leads next) a a) (h : Relation.ReflTransGen (Leads next) a b) :
    Relation.TransGen (Leads next) b b := by
  induction h with
  | refl => exact hcycle
  | tail _ hstep ih =>
    obtain ⟨c, hfirst, hback⟩ := Relation.TransGen.head'_iff.mp ih
    obtain rfl := leads_rightUnique hfirst hstep
    exact .tail' hback hstep

/-- A chain into a cycle has no end. -/
theorem cycle_endless (hcycle : Relation.TransGen (Leads next) a a) (hstart : Relation.ReflTransGen (Leads next) start a)
    (hend : Relation.ReflTransGen (Leads next) start b) : next b ≠ none := by
  intro hnone
  have hon : Relation.TransGen (Leads next) b b := by
    rcases Relation.ReflTransGen.total_of_right_unique leads_rightUnique hstart hend with h | h
    · exact cycle_carries hcycle h
    · rcases h.cases_head with rfl | ⟨c, hstep, -⟩
      · exact hcycle
      · cases hnone.symm.trans hstep
  obtain ⟨c, hstep, -⟩ := Relation.TransGen.head'_iff.mp hon
  cases hnone.symm.trans hstep

/-! ## The walk -/

/-- A walk over finitely many places ends, having left each of them once at most. -/
theorem finishes (hplaces : ∀ a b, next a = some b → a ∈ places) (hnodup : visited.Nodup) (hvisited : visited ⊆ places) :
    ∃ n answer, n + visited.length ≤ places.length ∧ Finishes next n visited cursor answer := by
  induction hleft : places.length - visited.length using Nat.strong_induction_on generalizing visited cursor with
  | _ left ih =>
  subst hleft
  have hle : visited.length ≤ places.length := (hnodup.subperm hvisited).length_le
  cases hnext : next cursor with
  | none => exact ⟨0, false, by omega, .stop hnext⟩
  | some target =>
    by_cases hmem : cursor ∈ visited
    · exact ⟨0, true, by omega, .again hnext hmem⟩
    · have hnodup' : (cursor :: visited).Nodup := List.nodup_cons.mpr ⟨hmem, hnodup⟩
      have hvisited' : cursor :: visited ⊆ places := List.cons_subset.mpr ⟨hplaces cursor target hnext, hvisited⟩
      have hle' : (cursor :: visited).length ≤ places.length := (hnodup'.subperm hvisited').length_le
      rw [List.length_cons] at hle'
      obtain ⟨n, answer, hn, hrest⟩ := ih _ (by rw [List.length_cons]; omega) hnodup' hvisited' rfl
      rw [List.length_cons] at hn
      exact ⟨n + 1, answer, by omega, .turn hnext hmem hrest⟩

/-- What a walk answers, when every place it has left leads to the one where it is. -/
theorem Finishes.answer_iff (h : Finishes next n visited cursor answer)
    (hvisited : ∀ a ∈ visited, Relation.TransGen (Leads next) a cursor) :
    answer = true ↔ ∃ a, Relation.ReflTransGen (Leads next) cursor a ∧ Relation.TransGen (Leads next) a a := by
  induction h with
  | stop hnone =>
    refine iff_of_false Bool.false_ne_true ?_
    rintro ⟨a, hreach, hcycle⟩
    exact cycle_endless hcycle hreach .refl hnone
  | @again _ cursor _ _ hmem => exact iff_of_true rfl ⟨cursor, .refl, hvisited cursor hmem⟩
  | @turn _ _ cursor target _ hnext _ _ ih =>
    have hstep : Leads next cursor target := hnext
    rw [ih (List.forall_mem_cons.mpr ⟨.single hstep, fun a ha => (hvisited a ha).tail hstep⟩)]
    constructor
    · rintro ⟨a, hreach, hcycle⟩
      exact ⟨a, .head hstep hreach, hcycle⟩
    · rintro ⟨a, hreach, hcycle⟩
      -- the cycle is reached from the next place too: from there on it is never left
      rcases hreach.cases_head with rfl | ⟨b, hstep', hreach⟩
      · exact ⟨target, .refl, cycle_carries hcycle (.single hstep)⟩
      · obtain rfl := leads_rightUnique hstep hstep'
        exact ⟨a, hreach, hcycle⟩

theorem Finishes.reaches_cycle (h : Finishes next n [] start answer) :
    answer = true ↔ ∃ a, Relation.ReflTransGen (Leads next) start a ∧ Relation.TransGen (Leads next) a a :=
  h.answer_iff fun _ hmem => absurd hmem List.not_mem_nil

end
end Walks
