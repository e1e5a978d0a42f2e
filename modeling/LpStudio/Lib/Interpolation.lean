import Mathlib

/-! # Interpolated texts
A writer fixes some parts of a text and escapes what it is given into the others. A reader goes over the text with a
state and reports what it recognises on the way. Where it passes over whatever was escaped, it reads the skeleton of the
text, and two texts of one skeleton read the same.
-/
namespace Interpolation

variable {α β σ ε : Type*}

inductive Piece (α β : Type*) where
  | fixed (t : List α)
  | given (value : List β)

def Piece.text (escape : List β → List α) : Piece α β → List α
  | .fixed t => t
  | .given value => escape value

/-- The part that is fixed. -/
def Piece.part : Piece α β → Option (List α)
  | .fixed t => some t
  | .given _ => none

def text (escape : List β → List α) (l : List (Piece α β)) : List α := l.flatMap (Piece.text escape)

def skeleton (l : List (Piece α β)) : List (Option (List α)) := l.map Piece.part

theorem skeleton_append (l l' : List (Piece α β)) : skeleton (l ++ l') = skeleton l ++ skeleton l' := List.map_append

theorem skeleton_congr {l l' m m' : List (Piece α β)} (h : skeleton l = skeleton l') (hm : skeleton m = skeleton m') :
    skeleton (l ++ m) = skeleton (l' ++ m') := by
  rw [skeleton_append, skeleton_append, h, hm]

/-! ## Readers -/

/-- The state after the text, and the reports. -/
def scan (step : σ → α → σ × List ε) : σ → List α → σ × List ε
  | s, [] => (s, [])
  | s, c :: cs => ((scan step (step s c).1 cs).1, (step s c).2 ++ (scan step (step s c).1 cs).2)

/-- The same for a skeleton. -/
def scanParts (step : σ → α → σ × List ε) : σ → List (Option (List α)) → σ × List ε
  | s, [] => (s, [])
  | s, some t :: l =>
    ((scanParts step (scan step s t).1 l).1, (scan step s t).2 ++ (scanParts step (scan step s t).1 l).2)
  | s, none :: l => scanParts step s l

/-- The gaps of the skeleton are all met in a quiet state. -/
def passable (quiet : σ → Bool) (step : σ → α → σ × List ε) : σ → List (Option (List α)) → Bool
  | _, [] => true
  | s, some t :: l => passable quiet step (scan step s t).1 l
  | s, none :: l => quiet s && passable quiet step s l

/-- The skeleton is passable from the state, and leads back to it. -/
def closed [DecidableEq σ] (quiet : σ → Bool) (step : σ → α → σ × List ε) (s : σ) (l : List (Option (List α))) : Bool :=
  passable quiet step s l && (scanParts step s l).1 = s

section
variable {step : σ → α → σ × List ε} {s : σ}

theorem scan_append (s : σ) (t u : List α) : scan step s (t ++ u) =
    ((scan step (scan step s t).1 u).1, (scan step s t).2 ++ (scan step (scan step s t).1 u).2) := by
  induction t generalizing s with
  | nil => rfl
  | cons c t ih => simp only [List.cons_append, scan, ih, List.append_assoc]

/-- A reader that every character leaves where it is, is left there by the text. -/
theorem scan_stay {t : List α} (h : ∀ c ∈ t, step s c = (s, [])) : scan step s t = (s, []) := by
  induction t with
  | nil => rfl
  | cons c t ih =>
    rw [scan, h c List.mem_cons_self, ih fun c hc => h c (List.mem_cons_of_mem _ hc)]
    rfl

/-- Reading a text that was written character by character. -/
theorem scan_flatMap {f : β → List α} {g : β → List ε} (h : ∀ b, scan step s (f b) = (s, g b)) (t : List β) :
    scan step s (t.flatMap f) = (s, t.flatMap g) := by
  induction t with
  | nil => rfl
  | cons b t ih => rw [List.flatMap_cons, List.flatMap_cons, scan_append, h, ih]

/-- What was given does not show. -/
theorem scan_text {escape : List β → List α} {quiet : σ → Bool}
    (hescape : ∀ s value, quiet s = true → scan step s (escape value) = (s, [])) {l : List (Piece α β)}
    (h : passable quiet step s (skeleton l) = true) : scan step s (text escape l) = scanParts step s (skeleton l) := by
  induction l generalizing s with
  | nil => rfl
  | cons piece l ih =>
    cases piece with
    | fixed t =>
      change scan step s (t ++ text escape l) = scanParts step s (some t :: skeleton l)
      rw [scan_append, ih h, scanParts]
    | given value =>
      change scan step s (escape value ++ text escape l) = scanParts step s (none :: skeleton l)
      obtain ⟨hs, hl⟩ := Bool.and_eq_true_iff.mp h
      rw [scan_append, hescape s value hs, ih hl, scanParts, List.nil_append]

/-- Two texts of one skeleton read the same. -/
theorem scan_skeleton {escape : List β → List α} {quiet : σ → Bool}
    (hescape : ∀ s value, quiet s = true → scan step s (escape value) = (s, [])) {l l' : List (Piece α β)}
    (hl : passable quiet step s (skeleton l) = true) (heq : skeleton l = skeleton l') :
    scan step s (text escape l) = scan step s (text escape l') := by
  rw [scan_text hescape hl, scan_text hescape (heq ▸ hl), heq]

theorem scanParts_append (s : σ) (l l' : List (Option (List α))) :
    (scanParts step s (l ++ l')).1 = (scanParts step (scanParts step s l).1 l').1 := by
  induction l generalizing s with
  | nil => rfl
  | cons part l ih =>
    cases part with
    | none => exact ih s
    | some t => exact ih (scan step s t).1

theorem passable_append (quiet : σ → Bool) (s : σ) (l l' : List (Option (List α))) :
    passable quiet step s (l ++ l') =
      (passable quiet step s l && passable quiet step (scanParts step s l).1 l') := by
  induction l generalizing s with
  | nil => rfl
  | cons part l ih =>
    cases part with
    | none => rw [List.cons_append, passable, ih s, passable, scanParts, Bool.and_assoc]
    | some t => exact ih (scan step s t).1

section
variable [DecidableEq σ] {quiet : σ → Bool} {l l' : List (Piece α β)}

theorem closed_append (h : closed quiet step s (skeleton l) = true) (h' : closed quiet step s (skeleton l') = true) :
    closed quiet step s (skeleton (l ++ l')) = true := by
  rw [closed, Bool.and_eq_true_iff, decide_eq_true_iff] at h h' ⊢
  rw [skeleton_append, passable_append, scanParts_append, h.2, h.1]
  exact h'

theorem closed_flatMap {ι : Type*} {f : ι → List (Piece α β)} {l : List ι}
    (h : ∀ i ∈ l, closed quiet step s (skeleton (f i)) = true) : closed quiet step s (skeleton (l.flatMap f)) = true := by
  induction l with
  | nil =>
    rw [closed, Bool.and_eq_true_iff, decide_eq_true_iff]
    exact ⟨rfl, rfl⟩
  | cons i l ih =>
    exact closed_append (h i List.mem_cons_self) (ih fun i hi => h i (List.mem_cons_of_mem _ hi))

theorem closed_passable (h : closed quiet step s (skeleton l) = true) : passable quiet step s (skeleton l) = true :=
  (Bool.and_eq_true_iff.mp h).1

end

end

/-! ## Escaping -/

/-- An escape is injective where a text shows which character's escape it begins with. -/
theorem flatMap_injective {f : β → List α} {first : List α → Option β} (hnil : first [] = none)
    (hfirst : ∀ b u, first (f b ++ u) = some b) : Function.Injective (List.flatMap f) := by
  intro t
  induction t with
  | nil =>
    intro u h
    cases u with
    | nil => rfl
    | cons b u =>
      have hb := hfirst b (u.flatMap f)
      rw [← List.flatMap_cons, ← h] at hb
      cases hnil.symm.trans hb
  | cons b t ih =>
    intro u h
    have hb := hfirst b (t.flatMap f)
    rw [← List.flatMap_cons, h] at hb
    cases u with
    | nil => cases hnil.symm.trans hb
    | cons d u =>
      rw [List.flatMap_cons, hfirst] at hb
      cases hb
      rw [List.flatMap_cons, List.flatMap_cons] at h
      rw [ih (List.append_cancel_left h)]

end Interpolation
