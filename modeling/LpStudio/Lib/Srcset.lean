import LpStudio.Lib.Scanning
import LpStudio.Lib.Str

/-! # Image candidates
The parsing algorithm of the HTML standard for the attributes `srcset` and `imagesrcset`. It splits the value into image
candidates, each a URL with descriptors, and returns the URLs of those whose descriptors are valid.
-/
namespace Srcset
open Str Scanning

/-! ## Descriptors -/

inductive State where
  | inDescriptor | inParens | afterDescriptor

/-- What the descriptor tokenizer has read, the text that it took, up to a comma that ended it, and the rest. -/
structure Tokens where
  descriptors : List Text
  text : Text
  rest : Text

def Tokens.read (c : Char) (tokens : Tokens) : Tokens := { tokens with text := c :: tokens.text }

def Tokens.close (current : Text) (tokens : Tokens) : Tokens :=
  if current.isEmpty then tokens else { tokens with descriptors := current :: tokens.descriptors }

def tokenize : State → Text → Text → Tokens
  | .inDescriptor, current, [] => .close current ⟨[], [], []⟩
  | .inDescriptor, current, c :: input =>
    if isAsciiWhitespace c then .close current ((tokenize .afterDescriptor [] input).read c)
    else if c = ',' then .close current ⟨[], [], input⟩
    else if c = '(' then (tokenize .inParens (current ++ [c]) input).read c
    else (tokenize .inDescriptor (current ++ [c]) input).read c
  | .inParens, current, [] => ⟨[current], [], []⟩
  | .inParens, current, c :: input =>
    if c = ')' then (tokenize .inDescriptor (current ++ [c]) input).read c
    else (tokenize .inParens (current ++ [c]) input).read c
  | .afterDescriptor, _, [] => ⟨[], [], []⟩
  | .afterDescriptor, current, c :: input =>
    if isAsciiWhitespace c then (tokenize .afterDescriptor current input).read c
    else if c = ',' then ⟨[], [], input⟩
    else if c = '(' then (tokenize .inParens [c] input).read c
    else (tokenize .inDescriptor [c] input).read c

def validInteger (t : Text) : Bool := !t.isEmpty && t.all isAsciiDigit

def integerValue (t : Text) : ℕ := t.foldl (fun n c => 10 * n + (c.toNat - 0x30)) 0

/-- The digits of a number, with a fraction. -/
def validMantissa (t : Text) : Bool :=
  match t.dropWhile isAsciiDigit with
  | [] => !t.isEmpty
  | '.' :: fraction => validInteger fraction
  | _ => false

def validExponent : Text → Bool
  | [] => true
  | c :: t =>
    (c == 'e' || c == 'E') &&
      validInteger (if t.head? = some '-' ∨ t.head? = some '+' then t.tail else t)

def validFloat (t : Text) : Bool :=
  let unsigned := if t.head? = some '-' then t.tail else t
  validMantissa (unsigned.takeWhile fun c => isAsciiDigit c || c == '.') &&
    validExponent (unsigned.dropWhile fun c => isAsciiDigit c || c == '.')

structure Sizes where
  width : Option ℕ := none
  density : Option Text := none
  height : Option ℕ := none

/-- One turn of the descriptor parser. `negative` says which floating-point numbers are read as less than zero. -/
def readDescriptor (negative : Text → Bool) (sizes : Sizes) (descriptor : Text) : Option Sizes :=
  let number := descriptor.dropLast
  if descriptor.getLast? = some 'w' then
    if validInteger number ∧ sizes.width.isNone ∧ sizes.density.isNone ∧ integerValue number ≠ 0 then
      some { sizes with width := some (integerValue number) }
    else none
  else if descriptor.getLast? = some 'x' then
    if validFloat number ∧ sizes.width.isNone ∧ sizes.density.isNone ∧ sizes.height.isNone ∧ negative number = false then
      some { sizes with density := some number }
    else none
  else if descriptor.getLast? = some 'h' then
    if validInteger number ∧ sizes.height.isNone ∧ sizes.density.isNone ∧ integerValue number ≠ 0 then
      some { sizes with height := some (integerValue number) }
    else none
  else none

def validDescriptors (negative : Text → Bool) (descriptors : List Text) : Bool :=
  (descriptors.foldlM (readDescriptor negative) {}).any fun sizes => !(sizes.height.isSome && sizes.width.isNone)

/-! ## Candidates -/

/-- An image candidate: its URL, its descriptors, and the text that it takes up. -/
structure Candidate where
  url : Text
  descriptors : List Text
  text : Text

/-- One turn of the splitting loop. -/
def candidateStep : Stepper Empty Candidate Char := fun value =>
  let input := value.dropWhile fun c => isAsciiWhitespace c || c == ','
  if input.isEmpty then .halt []
  else
    let url := input.takeWhile (!isAsciiWhitespace ·)
    let after := input.dropWhile (!isAsciiWhitespace ·)
    if url.getLast? = some ',' then .next [⟨url.rdropWhile (· == ','), [], url.dropLast⟩] after
    else
      let tokens := tokenize .inDescriptor [] (after.dropWhile isAsciiWhitespace)
      .next [⟨url, tokens.descriptors, url ++ (after.takeWhile isAsciiWhitespace ++ tokens.text)⟩] tokens.rest

def candidates (value : Text) : List Candidate := collect candidateStep value

/-- The URLs that the algorithm returns. -/
def parse (negative : Text → Bool) (value : Text) : List Text :=
  ((candidates value).filter fun candidate => validDescriptors negative candidate.descriptors).map (·.url)

/-! ## The text of a candidate -/

section
variable {state : State} {current input value rest : Text} {found : List Candidate} {candidate : Candidate}

@[simp] theorem Tokens.close_text (tokens : Tokens) : (tokens.close current).text = tokens.text := by
  unfold Tokens.close
  split <;> rfl

@[simp] theorem Tokens.close_rest (tokens : Tokens) : (tokens.close current).rest = tokens.rest := by
  unfold Tokens.close
  split <;> rfl

/-- What is left begins behind a comma, or there is nothing left. -/
def Parts (input text rest : Text) : Prop := input = text ++ ',' :: rest ∨ input = text ∧ rest = []

theorem Parts.cons {c : Char} {text : Text} (h : Parts input text rest) : Parts (c :: input) (c :: text) rest := by
  rcases h with rfl | ⟨rfl, rfl⟩
  · exact .inl rfl
  · exact .inr ⟨rfl, rfl⟩

theorem Parts.append {text : Text} (h : Parts input text rest) (before : Text) :
    Parts (before ++ input) (before ++ text) rest := by
  induction before with
  | nil => exact h
  | cons c before ih => exact ih.cons

theorem tokenize_parts (state : State) (current input : Text) :
    Parts input (tokenize state current input).text (tokenize state current input).rest := by
  induction input generalizing state current with
  | nil =>
    cases state with
    | inDescriptor => exact .inr ⟨by simp [tokenize], by simp [tokenize]⟩
    | inParens => exact .inr ⟨rfl, rfl⟩
    | afterDescriptor => exact .inr ⟨rfl, rfl⟩
  | cons c input ih =>
    cases state with
    | inDescriptor =>
      rw [tokenize]
      split
      · rw [Tokens.close_text, Tokens.close_rest]
        exact (ih _ _).cons
      split
      · next hcomma =>
        rw [Tokens.close_text, Tokens.close_rest, hcomma]
        exact .inl rfl
      split
      · exact (ih _ _).cons
      · exact (ih _ _).cons
    | inParens =>
      rw [tokenize]
      split
      · exact (ih _ _).cons
      · exact (ih _ _).cons
    | afterDescriptor =>
      rw [tokenize]
      split
      · exact (ih _ _).cons
      split
      · next hcomma =>
        rw [hcomma]
        exact .inl rfl
      split
      · exact (ih _ _).cons
      · exact (ih _ _).cons

/-- A candidate takes the text from its URL on; behind the URL there is a comma or white space. -/
structure Taken (input : Text) (candidate : Candidate) (rest : Text) : Prop where
  parts : Parts input candidate.text rest
  url : candidate.url ≠ []
  text : ∃ more, candidate.text = candidate.url ++ more ∧ ∀ c ∈ more.head?, c = ',' ∨ isAsciiWhitespace c = true

theorem candidateStep_halt (h : candidateStep value = .halt found) :
    found = [] ∧ (value.dropWhile fun c => isAsciiWhitespace c || c == ',') = [] := by
  simp only [candidateStep] at h
  split at h
  · next hempty =>
    cases h
    exact ⟨rfl, List.isEmpty_iff.mp hempty⟩
  split at h <;> cases h

theorem candidateStep_next (h : candidateStep value = .next found rest) :
    ∃ candidate, found = [candidate] ∧ Taken (value.dropWhile fun c => isAsciiWhitespace c || c == ',') candidate rest := by
  simp only [candidateStep] at h
  split at h
  · cases h
  next hne =>
  generalize hinput : (value.dropWhile fun c => isAsciiWhitespace c || c == ',') = input at h hne ⊢
  have hsplit := List.takeWhile_append_dropWhile (p := (!isAsciiWhitespace ·)) (l := input)
  generalize hurl : input.takeWhile (!isAsciiWhitespace ·) = url at h hsplit
  generalize hafter : input.dropWhile (!isAsciiWhitespace ·) = after at h hsplit
  have hhead : ∀ c ∈ input.head?, isAsciiWhitespace c = false ∧ c ≠ ',' := by
    intro c hc
    have hstop := List.head?_dropWhile_not (fun c => isAsciiWhitespace c || c == ',') value
    rw [hinput, Option.mem_def.mp hc] at hstop
    simpa using hstop
  obtain ⟨c, cs, hcs, hc⟩ : ∃ c cs, url = c :: cs ∧ c ≠ ',' := by
    cases hinput' : input with
    | nil => exact absurd (by rw [hinput']; rfl) hne
    | cons c cs =>
      obtain ⟨hspace, hcomma⟩ := hhead c (by rw [hinput']; rfl)
      rw [hinput', List.takeWhile_cons, hspace] at hurl
      exact ⟨c, cs.takeWhile (!isAsciiWhitespace ·), hurl.symm, hcomma⟩
  split at h
  · next hlast =>
    cases h
    have hdropLast : url.dropLast ++ [','] = url := List.dropLast_append_getLast? ',' hlast
    refine ⟨_, rfl, ⟨.inl ?_, ?_, ?_⟩⟩
    · change input = url.dropLast ++ ',' :: rest
      rw [List.append_cons, hdropLast, hsplit]
    · intro hnil
      have hall := List.rdropWhile_eq_nil_iff.mp hnil c (by rw [hcs]; exact List.mem_cons_self)
      exact hc (eq_of_beq hall)
    · refine ⟨url.dropLast.rtakeWhile (· == ','), ?_, ?_⟩
      · have hstripped : url.rdropWhile (· == ',') = url.dropLast.rdropWhile (· == ',') := by
          have hconcat := List.rdropWhile_concat_pos (· == ',') url.dropLast ',' rfl
          rwa [hdropLast] at hconcat
        change url.dropLast = url.rdropWhile (· == ',') ++ _
        rw [hstripped, List.rdropWhile_append_rtakeWhile]
      · intro d hd
        have hcomma : (d == ',') = true := List.mem_rtakeWhile_imp (p := (· == ',')) (List.mem_of_mem_head? hd)
        exact .inl (eq_of_beq hcomma)
  · cases h
    have hparts := tokenize_parts .inDescriptor [] (after.dropWhile isAsciiWhitespace)
    have hwhole : url ++ (after.takeWhile isAsciiWhitespace ++ after.dropWhile isAsciiWhitespace) = input := by
      rw [List.takeWhile_append_dropWhile, hsplit]
    refine ⟨_, rfl, ⟨?_, ?_, _, rfl, ?_⟩⟩
    · rw [← hwhole]
      exact (hparts.append _).append _
    · rw [hcs]
      exact List.cons_ne_nil c cs
    · intro d hd
      refine .inr ?_
      have hstop := List.head?_dropWhile_not (!isAsciiWhitespace ·) input
      rw [hafter] at hstop
      cases after with
      | nil =>
        rcases hparts with hparts | ⟨hparts, -⟩
        · simp at hparts
        · rw [← hparts] at hd
          cases hd
      | cons e after =>
        have hspace : isAsciiWhitespace e = true := by simpa using hstop
        rw [List.takeWhile_cons, hspace] at hd
        rw [← Option.some.inj hd]
        exact hspace

theorem Taken.rest_length (h : Taken input candidate rest) : rest.length < input.length := by
  obtain ⟨hparts, hurl, more, htext, -⟩ := h
  rcases hparts with heq | ⟨heq, rfl⟩
  · rw [heq, List.length_append, List.length_cons]
    omega
  · have hpos := List.length_pos_iff.mpr hurl
    rw [heq, htext, List.length_append, List.length_nil]
    omega

theorem candidateStep_productive : Productive candidateStep := by
  intro value found rest h
  obtain ⟨candidate, -, htaken⟩ := candidateStep_next h
  exact Nat.lt_of_lt_of_le htaken.rest_length (List.dropWhile_sublist _).length_le

theorem candidates_halt (h : candidateStep value = .halt found) : candidates value = [] := by
  rw [candidates, collect_halt h, (candidateStep_halt h).1]

theorem candidates_next (h : candidateStep value = .next [candidate] rest) :
    candidates value = candidate :: candidates rest :=
  collect_next candidateStep_productive h

end
end Srcset
