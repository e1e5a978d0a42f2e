import LpStudio.Lib.Json

/-! # JSON with numbers of another kind
Objects whose fields may hold numbers that a printer of its own writes, as that of floating-point numbers. What is written
tells the printed numbers apart.
-/
open Str

inductive NumberTree (ν : Type) where
  | plain (value : Json)
  | number (value : ν)
  | obj (fields : List (Text × NumberTree ν))

namespace NumberTree

variable {ν μ : Type}

mutual
def render (print : ν → Text) : NumberTree ν → Text
  | plain value => value.render
  | number value => print value
  | obj fields => '\x7b' :: (renderFields print fields ++ ['\x7d'])

def renderFields (print : ν → Text) : List (Text × NumberTree ν) → Text
  | [] => []
  | [(name, value)] => Json.quote name ++ ':' :: render print value
  | (name, value) :: fields => Json.quote name ++ ':' :: render print value ++ ',' :: renderFields print fields
end

mutual
def map (f : ν → μ) : NumberTree ν → NumberTree μ
  | plain value => plain value
  | number value => number (f value)
  | obj fields => obj (mapFields f fields)

def mapFields (f : ν → μ) : List (Text × NumberTree ν) → List (Text × NumberTree μ)
  | [] => []
  | (name, value) :: fields => (name, map f value) :: mapFields f fields
end

mutual
/-- The numbers, in the order in which they are written. -/
def numbers : NumberTree ν → List ν
  | plain _ => []
  | number value => [value]
  | obj fields => numbersOfFields fields

def numbersOfFields : List (Text × NumberTree ν) → List ν
  | [] => []
  | (_, value) :: fields => numbers value ++ numbersOfFields fields
end

theorem mapFields_append (f : ν → μ) (fields fields' : List (Text × NumberTree ν)) :
    mapFields f (fields ++ fields') = mapFields f fields ++ mapFields f fields' := by
  induction fields with
  | nil => rfl
  | cons field fields ih => rw [List.cons_append, mapFields, mapFields, ih, List.cons_append]

theorem numbersOfFields_append (fields fields' : List (Text × NumberTree ν)) :
    numbersOfFields (fields ++ fields') = numbersOfFields fields ++ numbersOfFields fields' := by
  induction fields with
  | nil => rfl
  | cons field fields ih =>
    rw [List.cons_append, numbersOfFields, numbersOfFields, ih, List.append_assoc]

theorem renderFields_cons_cons (print : ν → Text) (name : Text) (value : NumberTree ν) (field : Text × NumberTree ν)
    (fields : List (Text × NumberTree ν)) : renderFields print ((name, value) :: field :: fields) =
      Json.quote name ++ ':' :: render print value ++ ',' :: renderFields print (field :: fields) := by
  rw [renderFields]
  exact List.cons_ne_nil field fields

mutual
theorem render_map (print : μ → Text) (f : ν → μ) (t : NumberTree ν) :
    render print (map f t) = render (fun value => print (f value)) t := by
  match t with
  | plain value => rw [map, render, render]
  | number value => rw [map, render, render]
  | obj fields => rw [map, render, render, renderFields_map print f fields]

theorem renderFields_map (print : μ → Text) (f : ν → μ) (fields : List (Text × NumberTree ν)) :
    renderFields print (mapFields f fields) = renderFields (fun value => print (f value)) fields := by
  match fields with
  | [] => rw [mapFields, renderFields, renderFields]
  | [(name, value)] => rw [mapFields, mapFields, renderFields, renderFields, render_map print f value]
  | (name, value) :: field :: fields =>
    have ih := renderFields_map print f (field :: fields)
    rw [mapFields] at ih
    rw [mapFields, mapFields, renderFields_cons_cons, renderFields_cons_cons, render_map print f value, ih]
end

/-! ## Reading the numbers back -/

/-- What ends a number. -/
def ends (c : Char) : Bool := c == ',' || c == '\x7d'

/-- No number is written with a character that ends one. -/
def Plain (print : ν → Text) : Prop := ∀ value, ∀ c ∈ print value, ends c = false

def Stops (rest : Text) : Prop := ∀ c ∈ rest.head?, ends c = true

theorem stops_cons {c : Char} {rest : Text} (h : ends c = true) : Stops (c :: rest) := by
  intro d hd
  obtain rfl := Option.some.inj hd
  exact h

theorem token_append_inj {u v r s : Text} (hu : ∀ c ∈ u, ends c = false) (hv : ∀ c ∈ v, ends c = false)
    (hr : Stops r) (hs : Stops s) (h : u ++ r = v ++ s) : u = v ∧ r = s := by
  have hcut : ∀ {t rest : Text}, (∀ c ∈ t, ends c = false) → Stops rest →
      (t ++ rest).takeWhile (fun c => !ends c) = t ∧ (t ++ rest).dropWhile (fun c => !ends c) = rest :=
    fun ht hrest => takeWhile_append_stop (fun c hc => by simp [ht c hc]) fun c hc => by simp [hrest c hc]
  obtain ⟨hu, hr⟩ := hcut hu hr
  obtain ⟨hv, hs⟩ := hcut hv hs
  rw [h] at hu hr
  exact ⟨hu.symm.trans hv, hr.symm.trans hs⟩

theorem renderFields_cons (print : ν → Text) (name : Text) (value : NumberTree ν) (fields : List (Text × NumberTree ν))
    (rest : Text) : renderFields print ((name, value) :: fields) ++ '\x7d' :: rest =
      Json.quote name ++ ':' :: (render print value ++
        if fields = [] then '\x7d' :: rest else ',' :: (renderFields print fields ++ '\x7d' :: rest)) := by
  cases fields with
  | nil => simp [renderFields]
  | cons next fields => simp [renderFields]

variable {print print' : ν → Text}

mutual
/-- The same tree, written with two printers: the numbers tell. -/
theorem render_append_inj (hprint : Plain print) (hprint' : Plain print') (t : NumberTree ν) {r s : Text} (hr : Stops r)
    (hs : Stops s) (h : render print t ++ r = render print' t ++ s) :
    (∀ value ∈ numbers t, print value = print' value) ∧ r = s := by
  match t with
  | plain value =>
    rw [render, render] at h
    exact ⟨fun value hvalue => absurd hvalue List.not_mem_nil, List.append_cancel_left h⟩
  | number value =>
    rw [render, render] at h
    obtain ⟨hsame, hrest⟩ := token_append_inj (hprint value) (hprint' value) hr hs h
    refine ⟨fun other hother => ?_, hrest⟩
    rw [List.mem_singleton.mp hother]
    exact hsame
  | obj fields =>
    rw [render, render, List.cons_append, List.cons_append, List.append_assoc, List.append_assoc] at h
    exact renderFields_append_inj hprint hprint' fields (List.cons.inj h).2

theorem renderFields_append_inj (hprint : Plain print) (hprint' : Plain print') (fields : List (Text × NumberTree ν))
    {r s : Text} (h : renderFields print fields ++ '\x7d' :: r = renderFields print' fields ++ '\x7d' :: s) :
    (∀ value ∈ numbersOfFields fields, print value = print' value) ∧ r = s := by
  match fields with
  | [] =>
    rw [renderFields, renderFields] at h
    exact ⟨fun value hvalue => absurd hvalue List.not_mem_nil, (List.cons.inj h).2⟩
  | (name, value) :: fields =>
    rw [renderFields_cons, renderFields_cons] at h
    have h := (List.cons.inj (List.append_cancel_left h)).2
    by_cases hlast : fields = []
    · rw [if_pos hlast, if_pos hlast] at h
      obtain ⟨hvalue, hrest⟩ := render_append_inj hprint hprint' value (stops_cons rfl) (stops_cons rfl) h
      refine ⟨?_, (List.cons.inj hrest).2⟩
      rw [hlast, numbersOfFields, numbersOfFields, List.append_nil]
      exact hvalue
    · rw [if_neg hlast, if_neg hlast] at h
      obtain ⟨hvalue, hrest⟩ := render_append_inj hprint hprint' value (stops_cons rfl) (stops_cons rfl) h
      obtain ⟨hvalues, hrest⟩ := renderFields_append_inj hprint hprint' fields (List.cons.inj hrest).2
      refine ⟨fun other hother => ?_, hrest⟩
      rw [numbersOfFields] at hother
      rcases List.mem_append.mp hother with hother | hother
      · exact hvalue other hother
      · exact hvalues other hother
end

mutual
theorem render_congr (t : NumberTree ν) (h : ∀ value ∈ numbers t, print value = print' value) :
    render print t = render print' t := by
  match t with
  | plain value => rw [render, render]
  | number value =>
    rw [render, render]
    exact h value (List.mem_singleton_self value)
  | obj fields => rw [render, render, renderFields_congr fields h]

theorem renderFields_congr (fields : List (Text × NumberTree ν))
    (h : ∀ value ∈ numbersOfFields fields, print value = print' value) :
    renderFields print fields = renderFields print' fields := by
  match fields with
  | [] => rw [renderFields, renderFields]
  | [(name, value)] =>
    rw [renderFields, renderFields, render_congr value fun other hother => h other (List.mem_append_left _ hother)]
  | (name, value) :: field :: fields =>
    rw [renderFields_cons_cons, renderFields_cons_cons,
      render_congr value fun other hother => h other (List.mem_append_left _ hother),
      renderFields_congr (field :: fields) fun other hother => h other (List.mem_append_right _ hother)]
end

theorem render_eq_iff (hprint : Plain print) (hprint' : Plain print') (t : NumberTree ν) :
    render print t = render print' t ↔ ∀ value ∈ numbers t, print value = print' value := by
  refine ⟨fun h => ?_, render_congr t⟩
  have hnil : Stops [] := fun c hc => by cases hc
  exact (render_append_inj hprint hprint' t hnil hnil (by rw [h])).1

end NumberTree
