import Mathlib

/-! # Totals over a map
The values of a map in the order of their keys, and the sum of a weight of them, which a new key adds to and the removal of
a key does not raise.
-/
namespace Totals

universe u v
variable {α : Type u} {β : Type v} {cmp : α → α → Ordering} [Std.TransCmp cmp] [Std.LawfulEqCmp cmp]
  {m : Std.ExtTreeMap α β cmp} {k : α} {v : β} {w : β → ℕ}

def values (m : Std.ExtTreeMap α β cmp) : List β := m.toList.map (·.2)

def total (w : β → ℕ) (m : Std.ExtTreeMap α β cmp) : ℕ := ((values m).map w).sum

theorem mem_values : v ∈ values m ↔ ∃ k : α, m[k]? = some v := by
  unfold values
  constructor
  · intro h
    obtain ⟨⟨k, v⟩, hmem, rfl⟩ := List.mem_map.mp h
    exact ⟨k, Std.ExtTreeMap.mem_toList_iff_getElem?_eq_some.mp hmem⟩
  · rintro ⟨k, h⟩
    exact List.mem_map.mpr ⟨(k, v), Std.ExtTreeMap.mem_toList_iff_getElem?_eq_some.mpr h, rfl⟩

omit [Std.LawfulEqCmp cmp] in
theorem length_values : (values m).length = m.size := by
  rw [values, List.length_map, Std.ExtTreeMap.length_toList]

theorem nodup_toList (m : Std.ExtTreeMap α β cmp) : m.toList.Nodup :=
  Std.ExtTreeMap.distinct_keys_toList.imp fun {a b} hne heq => hne (by rw [heq]; exact Std.ReflCmp.compare_self)

/-- A new key stands somewhere among the others. -/
theorem toList_insert (h : k ∉ m) : (m.insert k v).toList.Perm ((k, v) :: m.toList) := by
  have habsent : (k, v) ∉ m.toList := fun hmem => h (Std.ExtTreeMap.mem_iff_isSome_getElem?.mpr
    (Option.isSome_of_eq_some (Std.ExtTreeMap.mem_toList_iff_getElem?_eq_some.mp hmem)))
  refine (List.perm_ext_iff_of_nodup (nodup_toList _) (List.nodup_cons.mpr ⟨habsent, nodup_toList m⟩)).mpr ?_
  rintro ⟨k', v'⟩
  rw [List.mem_cons, Std.ExtTreeMap.mem_toList_iff_getElem?_eq_some, Std.ExtTreeMap.mem_toList_iff_getElem?_eq_some,
    Std.ExtTreeMap.getElem?_insert]
  by_cases hk : cmp k k' = .eq
  · obtain rfl := Std.LawfulEqCmp.eq_of_compare hk
    rw [if_pos hk, Std.ExtTreeMap.getElem?_eq_none h]
    simp [eq_comm]
  · have hne : k' ≠ k := fun heq => hk (by rw [heq]; exact Std.ReflCmp.compare_self)
    rw [if_neg hk]
    simp [hne]

theorem total_insert (h : k ∉ m) : total w (m.insert k v) = w v + total w m := by
  have hperm := ((toList_insert (v := v) h).map (·.2)).map w
  exact hperm.sum_eq.trans List.sum_cons

/-- What is there already changes nothing. -/
theorem insert_same (h : m[k]? = some v) : m.insert k v = m := by
  refine Std.ExtTreeMap.ext_getElem? fun k' => ?_
  rw [Std.ExtTreeMap.getElem?_insert]
  split
  · rw [← Std.LawfulEqCmp.eq_of_compare ‹cmp k k' = .eq›, h]
  · rfl

theorem insert_erase (h : m[k]? = some v) : (m.erase k).insert k v = m := by
  refine Std.ExtTreeMap.ext_getElem? fun k' => ?_
  rw [Std.ExtTreeMap.getElem?_insert, Std.ExtTreeMap.getElem?_erase]
  split
  · rw [← Std.LawfulEqCmp.eq_of_compare ‹cmp k k' = .eq›, h]
  · rfl

theorem total_erase_le : total w (m.erase k) ≤ total w m := by
  cases h : m[k]? with
  | none =>
    have hsame : m.erase k = m := by
      refine Std.ExtTreeMap.ext_getElem? fun k' => ?_
      rw [Std.ExtTreeMap.getElem?_erase]
      split
      · rw [← Std.LawfulEqCmp.eq_of_compare ‹cmp k k' = .eq›, h]
      · rfl
    exact Nat.le_of_eq (congrArg (total w) hsame)
  | some v =>
    have habsent : k ∉ m.erase k := by simp
    have hsum := total_insert (w := w) (v := v) habsent
    rw [insert_erase h] at hsum
    omega

end Totals
