import LpStudio.Lib.Scanning
import LpStudio.Lib.Str

/-! # The tokenizer of CSS Syntax Level 3
What the standard replaces in the input beforehand is replaced where it shows: CR and FF are newlines, of which CR LF is
one, and NUL is U+FFFD.
-/
namespace CssSyntax
open Str Scanning

/-- The colon, the semicolon, the comma and the brackets are symbols like the delimiters. A number is its representation. -/
inductive Token where
  | whitespace
  | string (value : Text)
  | badString
  | hash (value : Text) (isId : Bool)
  | atKeyword (name : Text)
  | ident (name : Text)
  | function (name : Text)
  | url (value : Text)
  | badUrl
  | number (repr : Text)
  | percentage (repr : Text)
  | dimension (repr unit : Text)
  | cdo
  | cdc
  | symbol (c : Char)
  deriving DecidableEq, Repr

/-! ## Code points -/

def isNewline (c : Char) : Bool := c.toNat == 10 || c.toNat == 12 || c.toNat == 13

def isQuoteMark (c : Char) : Bool := c == '\'' || c == '"'

def isIdentStart (c : Char) : Bool := isAsciiAlphabetic c || c == '_' || 0x80 ≤ c.toNat || c.toNat == 0

def isIdent (c : Char) : Bool := isIdentStart c || isAsciiDigit c || c == '-'

def isNonPrintable (c : Char) : Bool :=
  (1 ≤ c.toNat && c.toNat ≤ 8) || c.toNat == 0xB || (0xE ≤ c.toNat && c.toNat ≤ 0x1F) || c.toNat == 0x7F

def isUrlChar (c : Char) : Bool :=
  !(isQuoteMark c || c == '(' || c == ')' || c == '\\' || isAsciiWhitespace c || isNonPrintable c)

def replaced (c : Char) : Char := if c.toNat = 0 then '\uFFFD' else c

/-! ## Escapes -/

def validEscape : Text → Bool
  | '\\' :: cs => !cs.head?.any isNewline
  | _ => false

def hexDigit (c : Char) : Option ℕ :=
  if isAsciiDigit c then some (c.toNat - 0x30)
  else if 0x41 ≤ c.toNat ∧ c.toNat ≤ 0x46 then some (c.toNat - 0x37)
  else if 0x61 ≤ c.toNat ∧ c.toNat ≤ 0x66 then some (c.toNat - 0x57)
  else none

def escapedChar (digits : Text) : Char :=
  let n := digits.foldl (fun n c => 16 * n + (hexDigit c).getD 0) 0
  if n = 0 ∨ ¬ n.isValidChar then '\uFFFD' else Char.ofNat n

def dropNewline : Text → Text
  | '\r' :: '\n' :: cs => cs
  | _ :: cs => cs
  | [] => []

def dropSpace (text : Text) : Text := if text.head?.any isAsciiWhitespace then dropNewline text else text

/-- The code point that is written after the backslash. -/
def consumeEscaped : Text → Char × Text
  | [] => ('\uFFFD', [])
  | c :: cs =>
    if (hexDigit c).isSome then
      let digits := (cs.take 5).takeWhile fun d => (hexDigit d).isSome
      (escapedChar (c :: digits), dropSpace (cs.drop digits.length))
    else (replaced c, cs)

/-! ## Pieces -/

/-- What comes next, and what is left after it. -/
abbrev Piece := Text → Option (Text × Text)

def pieces (next : Piece) : ℕ → Text → Text × Text
  | 0, text => ([], text)
  | n + 1, text =>
    match next text with
    | none => ([], text)
    | some (piece, rest) => (piece ++ (pieces next n rest).1, (pieces next n rest).2)

/-- One piece after the other, until there is none. -/
def consumeAll (next : Piece) (text : Text) : Text × Text := pieces next text.length text

def identPiece : Piece
  | [] => none
  | c :: cs =>
    if isIdent c then some ([replaced c], cs)
    else if validEscape (c :: cs) then some ([(consumeEscaped cs).1], (consumeEscaped cs).2)
    else none

def stringPiece (quote : Char) : Piece
  | [] => none
  | c :: cs =>
    if c == quote || isNewline c then none
    else if c == '\\' then
      if cs.isEmpty then some ([], [])
      else if cs.head?.any isNewline then some ([], dropNewline cs)
      else some ([(consumeEscaped cs).1], (consumeEscaped cs).2)
    else some ([replaced c], cs)

def urlPiece : Piece
  | [] => none
  | c :: cs =>
    if validEscape (c :: cs) then some ([(consumeEscaped cs).1], (consumeEscaped cs).2)
    else if isUrlChar c then some ([replaced c], cs)
    else none

def remnantPiece : Piece
  | [] => none
  | c :: cs =>
    if c == ')' then none
    else if validEscape (c :: cs) then some ([], (consumeEscaped cs).2)
    else some ([], cs)

/-! ## Tokens -/

def startsIdent : Text → Bool
  | [] => false
  | c :: cs =>
    if c == '-' then cs.head?.any (fun d => isIdentStart d || d == '-') || validEscape cs
    else isIdentStart c || validEscape (c :: cs)

def startsUnsigned : Text → Bool
  | [] => false
  | c :: cs => if c == '.' then cs.head?.any isAsciiDigit else isAsciiDigit c

def startsNumber : Text → Bool
  | [] => false
  | c :: cs => if c == '+' || c == '-' then startsUnsigned cs else startsUnsigned (c :: cs)

def consumeIdent (text : Text) : Text × Text := consumeAll identPiece text

def consumeString (quote : Char) (text : Text) : Token × Text :=
  let (value, rest) := consumeAll (stringPiece quote) text
  match rest with
  | [] => (.string value, [])
  | c :: after => if c == quote then (.string value, after) else (.badString, c :: after)

def badUrlRest (text : Text) : Text := (consumeAll remnantPiece text).2.drop 1

/-- An unquoted value, which begins with `text`. -/
def consumeUrl (text : Text) : Token × Text :=
  let (value, rest) := consumeAll urlPiece (text.dropWhile isAsciiWhitespace)
  match rest.dropWhile isAsciiWhitespace with
  | [] => (.url value, [])
  | c :: after => if c == ')' then (.url value, after) else (.badUrl, badUrlRest rest)

/-- As long as there are two, the first space is left out. -/
def leaveOneSpace : Text → Text
  | a :: b :: cs => if isAsciiWhitespace a && isAsciiWhitespace b then leaveOneSpace (b :: cs) else a :: b :: cs
  | cs => cs

def consumeIdentLike (text : Text) : Token × Text :=
  let (name, rest) := consumeIdent text
  match rest with
  | [] => (.ident name, [])
  | c :: argument =>
    if c == '(' then
      if lower name = "url".toList then
        if (argument.dropWhile isAsciiWhitespace).head?.any isQuoteMark then (.function name, leaveOneSpace argument)
        else consumeUrl argument
      else (.function name, argument)
    else (.ident name, c :: argument)

def consumeSign : Text → Text × Text
  | [] => ([], [])
  | c :: cs => if c == '+' || c == '-' then ([c], cs) else ([], c :: cs)

def consumeFraction : Text → Text × Text
  | [] => ([], [])
  | c :: cs =>
    if c == '.' && cs.head?.any isAsciiDigit then (c :: cs.takeWhile isAsciiDigit, cs.dropWhile isAsciiDigit)
    else ([], c :: cs)

def consumeExponent : Text → Text × Text
  | [] => ([], [])
  | c :: cs =>
    let (sign, digits) := consumeSign cs
    if (c == 'e' || c == 'E') && digits.head?.any isAsciiDigit then
      (c :: sign ++ digits.takeWhile isAsciiDigit, digits.dropWhile isAsciiDigit)
    else ([], c :: cs)

def consumeNumber (text : Text) : Text × Text :=
  let (sign, text) := consumeSign text
  let (fraction, rest) := consumeFraction (text.dropWhile isAsciiDigit)
  let (exponent, rest) := consumeExponent rest
  (sign ++ text.takeWhile isAsciiDigit ++ fraction ++ exponent, rest)

def consumeNumeric (text : Text) : Token × Text :=
  let (repr, rest) := consumeNumber text
  if startsIdent rest then (.dimension repr (consumeIdent rest).1, (consumeIdent rest).2)
  else if rest.head? = some '%' then (.percentage repr, rest.drop 1)
  else (.number repr, rest)

/-- The token that begins with `c`, where no comment does. -/
def consumeToken (c : Char) (cs : Text) : Token × Text :=
  if isAsciiWhitespace c then (.whitespace, cs.dropWhile isAsciiWhitespace)
  else if isQuoteMark c then consumeString c cs
  else if c == '#' && (cs.head?.any isIdent || validEscape cs) then
    (.hash (consumeIdent cs).1 (startsIdent cs), (consumeIdent cs).2)
  else if c == '@' && startsIdent cs then (.atKeyword (consumeIdent cs).1, (consumeIdent cs).2)
  else if startsNumber (c :: cs) then consumeNumeric (c :: cs)
  else if ['-', '-', '>'].isPrefixOf (c :: cs) then (.cdc, cs.drop 2)
  else if ['<', '!', '-', '-'].isPrefixOf (c :: cs) then (.cdo, cs.drop 3)
  else if startsIdent (c :: cs) then consumeIdentLike (c :: cs)
  else (.symbol c, cs)

def consume : Stepper Empty Token Char
  | [] => .halt []
  | c :: cs =>
    if ['/', '*'].isPrefixOf (c :: cs) then
      match splitOnce ['*', '/'] (cs.drop 1) with
      | some (_, rest) => .next [] rest
      | none => .halt []
    else .next [(consumeToken c cs).1] (consumeToken c cs).2

def tokens (text : Text) : List Token := collect consume text

/-! ## Resources -/

def Token.isWhitespace (token : Token) : Bool := token == .whitespace

/-- The string that comes next, after whitespace. -/
def nextString (rest : List Token) : List Text :=
  match rest.dropWhile Token.isWhitespace with
  | .string value :: _ => [value]
  | _ => []

/-- The value of a `url()`, or the string after an `@import`. -/
def Token.target (rest : List Token) : Token → List Text
  | .url value => [value]
  | .function name => if lower name = "url".toList then nextString rest else []
  | .atKeyword name => if lower name = "import".toList then nextString rest else []
  | _ => []

/-- The values of `url()`, and the strings after `@import`. -/
def targets : List Token → List Text
  | [] => []
  | token :: rest => token.target rest ++ targets rest

/-! ## Progress -/

theorem dropNewline_length (text : Text) : (dropNewline text).length ≤ text.length := by
  unfold dropNewline
  split <;> simp
  omega

theorem consumeEscaped_length (text : Text) : (consumeEscaped text).2.length ≤ text.length := by
  cases text with
  | nil => rfl
  | cons c cs =>
    have hspace : ∀ t : Text, (dropSpace t).length ≤ t.length := by
      intro t
      unfold dropSpace
      split
      · exact dropNewline_length t
      · exact Nat.le_refl _
    rw [consumeEscaped]
    split
    · refine Nat.le_trans (hspace _) ?_
      rw [List.length_drop, List.length_cons]
      omega
    · exact Nat.le_succ _

/-- Every piece makes progress. -/
def Piece.Advances (next : Piece) : Prop := ∀ ⦃text piece rest⦄, next text = some (piece, rest) → rest.length < text.length

theorem identPiece_advances : identPiece.Advances := by
  intro text piece rest h
  cases text with
  | nil => cases h
  | cons c cs =>
    rw [identPiece] at h
    split at h
    · cases h
      exact Nat.lt_succ_self _
    · split at h
      · cases h
        exact Nat.lt_succ_of_le (consumeEscaped_length cs)
      · cases h

theorem stringPiece_advances (quote : Char) : (stringPiece quote).Advances := by
  intro text piece rest h
  cases text with
  | nil => cases h
  | cons c cs =>
    rw [stringPiece] at h
    split at h
    · cases h
    · split at h
      · split at h
        · cases h
          exact Nat.zero_lt_succ _
        · split at h
          · cases h
            exact Nat.lt_succ_of_le (dropNewline_length cs)
          · cases h
            exact Nat.lt_succ_of_le (consumeEscaped_length cs)
      · cases h
        exact Nat.lt_succ_self _

theorem urlPiece_advances : urlPiece.Advances := by
  intro text piece rest h
  cases text with
  | nil => cases h
  | cons c cs =>
    rw [urlPiece] at h
    split at h
    · cases h
      exact Nat.lt_succ_of_le (consumeEscaped_length cs)
    · split at h
      · cases h
        exact Nat.lt_succ_self _
      · cases h

theorem remnantPiece_advances : remnantPiece.Advances := by
  intro text piece rest h
  cases text with
  | nil => cases h
  | cons c cs =>
    rw [remnantPiece] at h
    split at h
    · cases h
    · split at h
      · cases h
        exact Nat.lt_succ_of_le (consumeEscaped_length cs)
      · cases h
        exact Nat.lt_succ_self _

section
variable {next : Piece}

theorem pieces_length (hnext : next.Advances) (n : ℕ) (text : Text) : (pieces next n text).2.length ≤ text.length := by
  induction n generalizing text with
  | zero => rfl
  | succ n ih =>
    unfold pieces
    split
    · rfl
    · next piece rest heq => exact Nat.le_trans (ih rest) (Nat.le_of_lt (hnext heq))

theorem consumeAll_length (hnext : next.Advances) (text : Text) : (consumeAll next text).2.length ≤ text.length :=
  pieces_length hnext _ _

/-- With a first piece there is less left. -/
theorem consumeAll_lt (hnext : next.Advances) {text : Text} (hsome : (next text).isSome) :
    (consumeAll next text).2.length < text.length := by
  obtain ⟨⟨piece, rest⟩, heq⟩ := Option.isSome_iff_exists.mp hsome
  have hlt := hnext heq
  unfold consumeAll
  cases hlength : text.length with
  | zero => omega
  | succ n =>
    simp only [pieces, heq]
    have hle := pieces_length hnext n rest
    omega

end

theorem consumeIdent_length (text : Text) : (consumeIdent text).2.length ≤ text.length :=
  consumeAll_length identPiece_advances text

theorem identPiece_isSome {text : Text} (h : startsIdent text) : (identPiece text).isSome := by
  cases text with
  | nil => cases h
  | cons c cs =>
    rw [startsIdent] at h
    rw [identPiece]
    split
    · rfl
    · next hident =>
      split at h
      · next hdash => simp [isIdent, hdash] at hident
      · split
        · rfl
        · next hescape =>
          rw [Bool.or_eq_true] at h
          rcases h with h | h
          · simp [isIdent, h] at hident
          · exact absurd h hescape

theorem dropWhile_length (p : Char → Bool) (text : Text) : (text.dropWhile p).length ≤ text.length :=
  (List.dropWhile_sublist p).length_le

theorem consumeString_length (quote : Char) (text : Text) : (consumeString quote text).2.length ≤ text.length := by
  have h := consumeAll_length (stringPiece_advances quote) text
  unfold consumeString
  generalize consumeAll (stringPiece quote) text = result at h ⊢
  obtain ⟨value, rest⟩ := result
  cases rest with
  | nil => exact Nat.zero_le _
  | cons c after =>
    dsimp only at h ⊢
    split
    · exact Nat.le_of_succ_le h
    · exact h

theorem consumeUrl_length (text : Text) : (consumeUrl text).2.length ≤ text.length := by
  have h := consumeAll_length urlPiece_advances (text.dropWhile isAsciiWhitespace)
  have htext := dropWhile_length isAsciiWhitespace text
  unfold consumeUrl
  generalize consumeAll urlPiece (text.dropWhile isAsciiWhitespace) = result at h ⊢
  obtain ⟨value, rest⟩ := result
  have hrest := dropWhile_length isAsciiWhitespace rest
  have hbad : (badUrlRest rest).length ≤ rest.length := by
    unfold badUrlRest
    rw [List.length_drop]
    exact Nat.le_trans (Nat.sub_le _ _) (consumeAll_length remnantPiece_advances rest)
  dsimp only at h ⊢
  split
  · exact Nat.zero_le _
  · next c after heq =>
    rw [heq, List.length_cons] at hrest
    split
    · dsimp only
      omega
    · dsimp only
      omega

theorem leaveOneSpace_length (text : Text) : (leaveOneSpace text).length ≤ text.length := by
  fun_induction leaveOneSpace text with
  | case1 a b cs h ih => exact Nat.le_succ_of_le ih
  | case2 a b cs h => exact Nat.le_refl _
  | case3 cs h => exact Nat.le_refl _

theorem consumeIdentLike_length {text : Text} (h : startsIdent text) : (consumeIdentLike text).2.length < text.length := by
  have hname := consumeAll_lt identPiece_advances (identPiece_isSome h)
  unfold consumeIdentLike consumeIdent
  generalize consumeAll identPiece text = result at hname ⊢
  obtain ⟨name, rest⟩ := result
  cases rest with
  | nil => exact hname
  | cons c argument =>
    have hurl := consumeUrl_length argument
    have hspace := leaveOneSpace_length argument
    dsimp only [List.length_cons] at hname ⊢
    split
    · split
      · split
        · dsimp only
          omega
        · omega
      · exact Nat.lt_of_succ_lt hname
    · exact hname

theorem consumeSign_eq (text : Text) : text = (consumeSign text).1 ++ (consumeSign text).2 := by
  cases text with
  | nil => rfl
  | cons c cs =>
    rw [consumeSign]
    split
    · rfl
    · rfl

theorem consumeSign_mem {text : Text} {c : Char} (h : c ∈ (consumeSign text).1) : c ∈ ['+', '-'] := by
  cases text with
  | nil => cases h
  | cons d cs =>
    rw [consumeSign] at h
    split at h
    · next hsign =>
      rw [List.mem_singleton.mp h]
      simpa using hsign
    · cases h

theorem startsUnsigned_sign {text : Text} (h : startsNumber text) : startsUnsigned (consumeSign text).2 := by
  cases text with
  | nil => cases h
  | cons c cs =>
    rw [startsNumber] at h
    rw [consumeSign]
    split at h
    · next hsign =>
      rw [if_pos hsign]
      exact h
    · next hsign =>
      rw [if_neg hsign]
      exact h

theorem takeWhile_ne_nil {p : Char → Bool} {text : Text} (h : text.head?.any p) : text.takeWhile p ≠ [] := by
  cases text with
  | nil => cases h
  | cons c cs =>
    rw [List.takeWhile_cons_of_pos (by simpa using h)]
    exact List.cons_ne_nil _ _

/-- A text that is read is empty, or it ends with digits. -/
def EndsDigits (start : List Char) (text : Text) : Prop :=
  text = [] ∨ ∃ before digits, digits ≠ [] ∧ text = before ++ digits ∧ (∀ c ∈ before, c ∈ start) ∧
    ∀ c ∈ digits, isAsciiDigit c

theorem EndsDigits.mem {start : List Char} {text : Text} (h : EndsDigits start text) {c : Char} (hc : c ∈ text) :
    isAsciiDigit c ∨ c ∈ start := by
  rcases h with rfl | ⟨before, digits, -, rfl, hbefore, hdigits⟩
  · cases hc
  · rcases List.mem_append.mp hc with hc | hc
    · exact .inr (hbefore c hc)
    · exact .inl (hdigits c hc)

theorem consumeFraction_spec (text : Text) : text = (consumeFraction text).1 ++ (consumeFraction text).2 ∧
    EndsDigits ['.'] (consumeFraction text).1 := by
  cases text with
  | nil => exact ⟨rfl, .inl rfl⟩
  | cons c cs =>
    rw [consumeFraction]
    split
    · next h =>
      rw [Bool.and_eq_true, beq_iff_eq] at h
      refine ⟨?_, .inr ⟨['.'], cs.takeWhile isAsciiDigit, takeWhile_ne_nil h.2, ?_, fun _ hc => hc,
        fun _ hc => List.mem_takeWhile_imp hc⟩⟩
      · rw [List.cons_append, List.takeWhile_append_dropWhile]
      · rw [h.1]
        rfl
    · exact ⟨rfl, .inl rfl⟩

theorem consumeExponent_spec (text : Text) : text = (consumeExponent text).1 ++ (consumeExponent text).2 ∧
    EndsDigits ['+', '-', 'e', 'E'] (consumeExponent text).1 := by
  cases text with
  | nil => exact ⟨rfl, .inl rfl⟩
  | cons c cs =>
    have hsign := consumeSign_eq cs
    have hmem := @consumeSign_mem cs
    rw [consumeExponent]
    generalize consumeSign cs = result at hsign hmem ⊢
    obtain ⟨sign, digits⟩ := result
    dsimp only at hsign hmem ⊢
    split
    · next h =>
      rw [Bool.and_eq_true] at h
      refine ⟨?_, .inr ⟨c :: sign, digits.takeWhile isAsciiDigit, takeWhile_ne_nil h.2, rfl, fun d hd => ?_,
        fun _ hd => List.mem_takeWhile_imp hd⟩⟩
      · rw [hsign, List.append_assoc, List.takeWhile_append_dropWhile, List.cons_append]
      · rcases List.mem_cons.mp hd with rfl | hd
        · have he := h.1
          simp only [Bool.or_eq_true, beq_iff_eq] at he
          rcases he with rfl | rfl <;> simp
        · have := hmem hd
          simp only [List.mem_cons, List.not_mem_nil, or_false] at this ⊢
          exact this.elim .inl fun h => .inr (.inl h)
    · exact ⟨rfl, .inl rfl⟩

def numberStart : List Char := ['+', '-', '.', 'e', 'E']

/-- A number is its text, and it ends with digits. -/
theorem consumeNumber_spec {text : Text} (h : startsNumber text) : ∃ before digits, digits ≠ [] ∧
    text = before ++ digits ++ (consumeNumber text).2 ∧ (∀ c ∈ before, isAsciiDigit c ∨ c ∈ numberStart) ∧
    ∀ c ∈ digits, isAsciiDigit c := by
  have hsign := consumeSign_eq text
  have hmem := @consumeSign_mem text
  have hunsigned := startsUnsigned_sign h
  unfold consumeNumber
  generalize consumeSign text = signed at hsign hmem hunsigned ⊢
  obtain ⟨sign, number⟩ := signed
  dsimp only at hsign hmem hunsigned ⊢
  have hnumber : number = number.takeWhile isAsciiDigit ++ number.dropWhile isAsciiDigit :=
    List.takeWhile_append_dropWhile.symm
  have hwhole : ∀ c ∈ number.takeWhile isAsciiDigit, isAsciiDigit c := fun _ hc => List.mem_takeWhile_imp hc
  obtain ⟨hfraction, hfractionEnd⟩ := consumeFraction_spec (number.dropWhile isAsciiDigit)
  have hpoint : number.takeWhile isAsciiDigit = [] → (consumeFraction (number.dropWhile isAsciiDigit)).1 ≠ [] := by
    intro hnone
    cases number with
    | nil => cases hunsigned
    | cons c cs =>
      rw [startsUnsigned] at hunsigned
      split at hunsigned
      · next hc =>
        have hdot : isAsciiDigit c = false := by
          rw [beq_iff_eq.mp hc]
          rfl
        rw [List.dropWhile_cons_of_neg (by simp [hdot])]
        rw [consumeFraction]
        rw [if_pos (by simp [hc, hunsigned])]
        exact List.cons_ne_nil _ _
      · rw [List.takeWhile_cons_of_pos hunsigned] at hnone
        cases hnone
  generalize consumeFraction (number.dropWhile isAsciiDigit) = fractional at hfraction hfractionEnd hpoint ⊢
  obtain ⟨fraction, rest⟩ := fractional
  dsimp only at hfraction hfractionEnd hpoint ⊢
  obtain ⟨hexponent, hexponentEnd⟩ := consumeExponent_spec rest
  generalize consumeExponent rest = exponential at hexponent hexponentEnd ⊢
  obtain ⟨exponent, last⟩ := exponential
  dsimp only at hexponent hexponentEnd ⊢
  have htext : text = sign ++ number.takeWhile isAsciiDigit ++ fraction ++ exponent ++ last := by
    rw [hsign]
    conv_lhs => rw [hnumber, hfraction, hexponent]
    simp only [List.append_assoc]
  have hsigns : ∀ c ∈ sign, c ∈ numberStart := by
    intro c hc
    have := hmem hc
    simp only [numberStart, List.mem_cons, List.not_mem_nil, or_false] at this ⊢
    exact this.elim .inl fun h => .inr (.inl h)
  rcases hexponentEnd with rfl | ⟨before, digits, hne, rfl, hbefore, hdigits⟩
  · rcases hfractionEnd with rfl | ⟨before, digits, hne, rfl, hbefore, hdigits⟩
    · refine ⟨sign, number.takeWhile isAsciiDigit, fun hnone => hpoint hnone rfl, ?_, fun c hc => .inr (hsigns c hc), hwhole⟩
      simpa using htext
    · refine ⟨sign ++ number.takeWhile isAsciiDigit ++ before, digits, hne, by simpa using htext, fun c hc => ?_, hdigits⟩
      simp only [List.mem_append] at hc
      rcases hc with (hc | hc) | hc
      · exact .inr (hsigns c hc)
      · exact .inl (hwhole c hc)
      · rw [List.mem_singleton.mp (hbefore c hc)]
        exact .inr (by decide)
  · refine ⟨sign ++ number.takeWhile isAsciiDigit ++ fraction ++ before, digits, hne, by simpa using htext, fun c hc => ?_,
      hdigits⟩
    simp only [List.mem_append] at hc
    rcases hc with ((hc | hc) | hc) | hc
    · exact .inr (hsigns c hc)
    · exact .inl (hwhole c hc)
    · rcases hfractionEnd.mem hc with hc | hc
      · exact .inl hc
      · rw [List.mem_singleton.mp hc]
        exact .inr (by decide)
    · have := hbefore c hc
      simp only [numberStart, List.mem_cons, List.not_mem_nil, or_false] at this ⊢
      tauto

theorem consumeNumber_lt {text : Text} (h : startsNumber text) : (consumeNumber text).2.length < text.length := by
  obtain ⟨before, digits, hne, htext, -⟩ := consumeNumber_spec h
  have hlength := congrArg List.length htext
  have hpos := List.length_pos_iff.mpr hne
  simp only [List.length_append] at hlength
  omega

theorem consumeNumeric_length {text : Text} (h : startsNumber text) : (consumeNumeric text).2.length < text.length := by
  have hlt := consumeNumber_lt h
  unfold consumeNumeric
  generalize consumeNumber text = result at hlt ⊢
  obtain ⟨repr, rest⟩ := result
  have hident := consumeIdent_length rest
  dsimp only at hlt ⊢
  split
  · dsimp only
    omega
  · split
    · dsimp only
      rw [List.length_drop]
      omega
    · exact hlt

theorem consumeToken_length (c : Char) (cs : Text) : (consumeToken c cs).2.length < (c :: cs).length := by
  have hident := consumeIdent_length cs
  have hdrop : ∀ n, (cs.drop n).length ≤ cs.length := fun n => by
    rw [List.length_drop]
    omega
  unfold consumeToken
  split
  · exact Nat.lt_succ_of_le (dropWhile_length _ cs)
  · split
    · exact Nat.lt_succ_of_le (consumeString_length c cs)
    · split
      · exact Nat.lt_succ_of_le hident
      · split
        · exact Nat.lt_succ_of_le hident
        · split
          · next h => exact consumeNumeric_length h
          · split
            · exact Nat.lt_succ_of_le (hdrop 2)
            · split
              · exact Nat.lt_succ_of_le (hdrop 3)
              · split
                · next h => exact consumeIdentLike_length h
                · exact Nat.lt_succ_self _

theorem consume_productive : Productive consume := by
  intro text out rest h
  cases text with
  | nil => cases h
  | cons c cs =>
    rw [consume] at h
    split at h
    · split at h
      · next before after heq =>
        cases h
        have hlt := splitOnce_length (by decide) heq
        rw [List.length_drop] at hlt
        rw [List.length_cons]
        omega
      · cases h
    · cases h
      exact consumeToken_length c cs

end CssSyntax
