import LpStudio.Lib.CssSyntax

/-! # Tokens of plain texts
Without escapes and comments a token is a run of characters of one class after another, and each token can be read off
the text.
-/
namespace CssSyntax
open Str Scanning

/-! ## Texts without escapes and comments -/

/-- There is neither an escape nor a comment nor a NUL. -/
structure Plain (text : Text) : Prop where
  escape : '\\' ∉ text
  nul : ∀ c ∈ text, c.toNat ≠ 0
  comment : ¬ ['/', '*'] <:+: text

theorem Plain.right {a b : Text} (h : Plain (a ++ b)) : Plain b :=
  ⟨fun hb => h.escape (List.mem_append_right a hb), fun c hc => h.nul c (List.mem_append_right a hc),
    fun hb => h.comment (hb.trans (List.suffix_append a b).isInfix)⟩

theorem Plain.tail {c : Char} {cs : Text} (h : Plain (c :: cs)) : Plain cs := Plain.right (a := [c]) h

theorem Plain.dropWhile {text : Text} (h : Plain text) (p : Char → Bool) : Plain (text.dropWhile p) := by
  rw [← List.takeWhile_append_dropWhile (p := p) (l := text)] at h
  exact h.right

theorem validEscape_cons {c : Char} {cs : Text} (h : c ≠ '\\') : validEscape (c :: cs) = false := by
  unfold validEscape
  split
  · next heq => exact absurd (List.cons.inj heq).1 h
  · rfl

theorem Plain.validEscape {text : Text} (h : Plain text) : validEscape text = false := by
  cases text with
  | nil => rfl
  | cons c cs => exact validEscape_cons fun hc => h.escape (hc ▸ List.mem_cons_self)

section
variable {next : Piece} {p : Char → Bool} {f : Char → Text}

/-- Where a piece is one character of a class, the pieces are as many characters of the class as there are. -/
theorem pieces_run (hnil : next [] = none)
    (hnext : ∀ c cs, c ≠ '\\' → next (c :: cs) = if p c then some (f c, cs) else none) {n : ℕ} {text : Text}
    (h : Plain text) (hn : text.length ≤ n) :
    pieces next n text = ((text.takeWhile p).flatMap f, text.dropWhile p) := by
  induction n generalizing text with
  | zero =>
    rw [List.length_eq_zero_iff.mp (Nat.le_zero.mp hn)]
    rfl
  | succ n ih =>
    cases text with
    | nil =>
      unfold pieces
      rw [hnil]
      rfl
    | cons c cs =>
      have hc : c ≠ '\\' := fun hc => h.escape (hc ▸ List.mem_cons_self)
      unfold pieces
      rw [hnext c cs hc]
      by_cases hp : p c
      · rw [if_pos hp, List.takeWhile_cons_of_pos hp, List.dropWhile_cons_of_pos hp]
        dsimp only
        rw [ih h.tail (Nat.le_of_succ_le_succ hn), List.flatMap_cons]
      · rw [if_neg hp, List.takeWhile_cons_of_neg hp, List.dropWhile_cons_of_neg hp]
        rfl

theorem consumeAll_run (hnil : next [] = none)
    (hnext : ∀ c cs, c ≠ '\\' → next (c :: cs) = if p c then some (f c, cs) else none) {text : Text} (h : Plain text) :
    consumeAll next text = ((text.takeWhile p).flatMap f, text.dropWhile p) :=
  pieces_run hnil hnext h (Nat.le_refl _)

end

theorem replaced_run {text : Text} (h : ∀ c ∈ text, c.toNat ≠ 0) : text.flatMap (fun c => [replaced c]) = text := by
  induction text with
  | nil => rfl
  | cons c cs ih =>
    rw [List.flatMap_cons, ih fun d hd => h d (List.mem_cons_of_mem c hd), replaced,
      if_neg (h c List.mem_cons_self)]
    rfl

/-- A text without NUL is read as it is. -/
theorem consumeAll_replaced {next : Piece} {p : Char → Bool} (hnil : next [] = none)
    (hnext : ∀ c cs, c ≠ '\\' → next (c :: cs) = if p c then some ([replaced c], cs) else none) {text : Text}
    (h : Plain text) : consumeAll next text = (text.takeWhile p, text.dropWhile p) := by
  rw [consumeAll_run hnil hnext h, replaced_run fun c hc => h.nul c ((List.takeWhile_sublist p).subset hc)]

theorem consumeIdent_plain {text : Text} (h : Plain text) :
    consumeIdent text = (text.takeWhile isIdent, text.dropWhile isIdent) := by
  refine consumeAll_replaced rfl (fun c cs hc => ?_) h
  rw [identPiece]
  rw [validEscape_cons hc]
  rfl

theorem consumeAll_string {quote : Char} {text : Text} (h : Plain text) : consumeAll (stringPiece quote) text =
    (text.takeWhile fun c => !(c == quote || isNewline c), text.dropWhile fun c => !(c == quote || isNewline c)) := by
  refine consumeAll_replaced rfl (fun c cs hc => ?_) h
  rw [stringPiece]
  rw [if_neg (c := (c == '\\') = true) (by simpa using hc)]
  cases hstop : c == quote || isNewline c
  · rfl
  · rfl

theorem consumeAll_url {text : Text} (h : Plain text) :
    consumeAll urlPiece text = (text.takeWhile isUrlChar, text.dropWhile isUrlChar) := by
  refine consumeAll_replaced rfl (fun c cs hc => ?_) h
  rw [urlPiece]
  rw [validEscape_cons hc]
  rfl

theorem badUrlRest_plain {text : Text} (h : Plain text) : badUrlRest text = (text.dropWhile (· != ')')).drop 1 := by
  unfold badUrlRest
  rw [consumeAll_run (p := (· != ')')) (f := fun _ => []) rfl (fun c cs hc => ?_) h]
  rw [remnantPiece]
  rw [validEscape_cons hc]
  cases hstop : c == ')' <;> simp [bne, hstop]

/-! ## The first token -/

/-- A name that goes as far as it can. -/
structure Name (name rest : Text) : Prop where
  ne_nil : name ≠ []
  chars : ∀ c ∈ name, isIdent c
  stop : rest.head?.any isIdent = false

structure Numeric (number : Text) : Prop where
  ne_nil : number ≠ []
  chars : ∀ c ∈ number, isAsciiDigit c ∨ c ∈ numberStart
  last : number.getLast?.any isAsciiDigit

/-- How a text without escapes and comments begins. -/
inductive First (text : Text) : Token → Text → Prop where
  | whitespace {c cs} : text = c :: cs → isAsciiWhitespace c → First text .whitespace (cs.dropWhile isAsciiWhitespace)
  | string {quote value rest} : text = quote :: (value ++ quote :: rest) → isQuoteMark quote → quote ∉ value →
    First text (.string value) rest
  | unclosed {quote value} : text = quote :: value → isQuoteMark quote → quote ∉ value → First text (.string value) []
  | badString {quote cs rest} : text = quote :: cs → isQuoteMark quote → First text .badString rest
  | hash {name rest isId} : text = '#' :: (name ++ rest) → Name name rest → First text (.hash name isId) rest
  | atKeyword {name rest} : text = '@' :: (name ++ rest) → Name name rest → First text (.atKeyword name) rest
  | number {number repr rest} : text = number ++ rest → Numeric number → rest.head?.any isIdentStart = false →
    First text (.number repr) rest
  | percentage {number repr rest} : text = number ++ '%' :: rest → Numeric number → First text (.percentage repr) rest
  | dimension {number repr unit rest} : text = number ++ (unit ++ rest) → Numeric number → Name unit rest →
    First text (.dimension repr unit) rest
  | cdc {rest} : text = '-' :: '-' :: '>' :: rest → First text .cdc rest
  | cdo {rest} : text = '<' :: '!' :: '-' :: '-' :: rest → First text .cdo rest
  | ident {name rest} : text = name ++ rest → Name name rest → rest.head? ≠ some '(' → First text (.ident name) rest
  | function {name argument} : text = name ++ '(' :: argument → Name name ('(' :: argument) →
    lower name ≠ "url".toList → First text (.function name) argument
  | urlFunction {name argument} : text = name ++ '(' :: argument → Name name ('(' :: argument) →
    lower name = "url".toList → (argument.dropWhile isAsciiWhitespace).head?.any isQuoteMark →
    First text (.function name) (leaveOneSpace argument)
  | url {name argument} : text = name ++ '(' :: argument → Name name ('(' :: argument) →
    lower name = "url".toList → (argument.dropWhile isAsciiWhitespace).head?.any isQuoteMark = false →
    First text (consumeUrl argument).1 (consumeUrl argument).2
  | symbol {c cs} : text = c :: cs → isQuoteMark c = false → isIdentStart c = false → isAsciiDigit c = false →
    (c = '-' ∨ c = '@' → cs.head?.any isIdentStart = false) → First text (.symbol c) cs

theorem name_of_head {text : Text} (h : text.head?.any isIdent) :
    Name (text.takeWhile isIdent) (text.dropWhile isIdent) := by
  refine ⟨takeWhile_ne_nil h, fun c hc => List.mem_takeWhile_imp hc, ?_⟩
  have hstop := List.head?_dropWhile_not isIdent text
  cases hhead : (text.dropWhile isIdent).head? with
  | none => rfl
  | some c =>
    rw [hhead] at hstop
    simpa using hstop

theorem isIdent_of_start {c : Char} (h : isIdentStart c) : isIdent c := by
  simp [isIdent, h]

theorem isIdent_not_space {c : Char} (h : isIdent c) : isAsciiWhitespace c = false := by
  rw [← Bool.not_eq_true]
  intro hspace
  simp only [isAsciiWhitespace, Bool.or_eq_true, beq_iff_eq] at hspace
  simp only [isIdent, isIdentStart, isAsciiAlphabetic, isAsciiDigit, Bool.or_eq_true, Bool.and_eq_true, beq_iff_eq,
    decide_eq_true_eq] at h
  rcases h with ((((h | rfl) | h) | h) | h) | rfl
  · omega
  · revert hspace
    decide
  · omega
  · omega
  · omega
  · revert hspace
    decide

theorem startsIdent_head {text : Text} (h : Plain text) (hstarts : startsIdent text) : text.head?.any isIdent := by
  cases text with
  | nil => cases hstarts
  | cons c cs =>
    rw [startsIdent] at hstarts
    split at hstarts
    · next hdash =>
      rw [beq_iff_eq.mp hdash]
      rfl
    · rw [h.validEscape, Bool.or_false] at hstarts
      simpa using isIdent_of_start hstarts

/-- A text that does not begin with an identifier does not begin with a letter. -/
theorem head_of_not_startsIdent {text : Text} (h : ¬ startsIdent text) : text.head?.any isIdentStart = false := by
  cases text with
  | nil => rfl
  | cons c cs =>
    rw [startsIdent] at h
    split at h
    · next hdash =>
      rw [beq_iff_eq.mp hdash]
      rfl
    · rw [Bool.or_eq_true, not_or] at h
      simpa using h.1

theorem consumeString_cases (quote : Char) {text : Text} (h : Plain text) :
    (∃ value rest, text = value ++ quote :: rest ∧ quote ∉ value ∧ consumeString quote text = (.string value, rest)) ∨
    (quote ∉ text ∧ consumeString quote text = (.string text, [])) ∨ (consumeString quote text).1 = .badString := by
  have htext := List.takeWhile_append_dropWhile (p := fun c => !(c == quote || isNewline c)) (l := text)
  have hvalue : quote ∉ text.takeWhile fun c => !(c == quote || isNewline c) := by
    intro hquote
    have := List.mem_takeWhile_imp hquote
    simp at this
  unfold consumeString
  rw [consumeAll_string h]
  dsimp only
  cases hrest : text.dropWhile fun c => !(c == quote || isNewline c) with
  | nil =>
    rw [hrest, List.append_nil] at htext
    rw [htext] at hvalue ⊢
    exact .inr (.inl ⟨hvalue, rfl⟩)
  | cons c after =>
    rw [hrest] at htext
    dsimp only
    by_cases hc : c == quote
    · rw [if_pos hc]
      rw [beq_iff_eq.mp hc] at htext
      exact .inl ⟨_, after, htext.symm, hvalue, rfl⟩
    · rw [if_neg hc]
      exact .inr (.inr rfl)

theorem first_string {quote : Char} {text : Text} (h : Plain text) (hquote : isQuoteMark quote) :
    First (quote :: text) (consumeString quote text).1 (consumeString quote text).2 := by
  rcases consumeString_cases quote h with ⟨value, rest, rfl, hvalue, heq⟩ | ⟨hvalue, heq⟩ | heq
  · rw [heq]
    exact .string rfl hquote hvalue
  · rw [heq]
    exact .unclosed rfl hquote hvalue
  · rw [heq]
    exact .badString rfl hquote

theorem first_numeric {text : Text} (h : Plain text) (hstarts : startsNumber text) :
    First text (consumeNumeric text).1 (consumeNumeric text).2 := by
  obtain ⟨before, digits, hne, htext, hbefore, hdigits⟩ := consumeNumber_spec hstarts
  have hnumeric : Numeric (before ++ digits) := by
    refine ⟨List.append_ne_nil_of_right_ne_nil before hne, fun c hc => ?_, ?_⟩
    · rcases List.mem_append.mp hc with hc | hc
      · exact hbefore c hc
      · exact .inl (hdigits c hc)
    · rw [List.getLast?_append_of_ne_nil _ hne, List.getLast?_eq_some_getLast hne]
      exact hdigits _ (List.getLast_mem hne)
  unfold consumeNumeric
  generalize consumeNumber text = result at htext ⊢
  obtain ⟨repr, rest⟩ := result
  dsimp only at htext ⊢
  have hplain : Plain rest := (htext ▸ h).right
  split
  · next hident =>
    rw [consumeIdent_plain hplain]
    refine .dimension (htext.trans ?_) hnumeric (name_of_head (startsIdent_head hplain hident))
    rw [List.takeWhile_append_dropWhile]
  · next hident =>
    split
    · next hpercent =>
      cases rest with
      | nil => cases hpercent
      | cons c cs =>
        cases hpercent
        exact .percentage htext hnumeric
    · exact .number htext hnumeric (head_of_not_startsIdent hident)

theorem first_identLike {text : Text} (h : Plain text) (hstarts : startsIdent text) :
    First text (consumeIdentLike text).1 (consumeIdentLike text).2 := by
  have hname := name_of_head (startsIdent_head h hstarts)
  have htext := List.takeWhile_append_dropWhile (p := isIdent) (l := text)
  unfold consumeIdentLike
  rw [consumeIdent_plain h]
  dsimp only
  cases hrest : text.dropWhile isIdent with
  | nil =>
    rw [hrest] at hname htext
    exact .ident htext.symm hname (by simp)
  | cons c argument =>
    rw [hrest] at hname htext
    dsimp only
    by_cases hc : c == '('
    · rw [if_pos hc]
      obtain rfl := beq_iff_eq.mp hc
      split
      · next hurl =>
        split
        · next hquote => exact .urlFunction htext.symm hname hurl hquote
        · next hquote => exact .url htext.symm hname hurl (by simpa using hquote)
      · next hurl => exact .function htext.symm hname hurl
    · rw [if_neg hc]
      exact .ident htext.symm hname (by simpa using hc)

theorem first_of_plain {c : Char} {cs : Text} (h : Plain (c :: cs)) :
    First (c :: cs) (consumeToken c cs).1 (consumeToken c cs).2 := by
  unfold consumeToken
  split
  · next hspace => exact .whitespace rfl hspace
  split
  · next hquote => exact first_string h.tail hquote
  split
  · next hhash =>
    rw [h.tail.validEscape, Bool.or_false, Bool.and_eq_true, beq_iff_eq] at hhash
    rw [consumeIdent_plain h.tail]
    refine .hash ?_ (name_of_head hhash.2)
    rw [List.takeWhile_append_dropWhile, hhash.1]
  split
  · next hat =>
    rw [Bool.and_eq_true, beq_iff_eq] at hat
    rw [consumeIdent_plain h.tail]
    refine .atKeyword ?_ (name_of_head (startsIdent_head h.tail hat.2))
    rw [List.takeWhile_append_dropWhile, hat.1]
  split
  · next hnumber => exact first_numeric h hnumber
  split
  · next hcdc =>
    obtain ⟨rest, heq⟩ := List.isPrefixOf_iff_prefix.mp hcdc
    cases heq
    exact .cdc rfl
  split
  · next hcdo =>
    obtain ⟨rest, heq⟩ := List.isPrefixOf_iff_prefix.mp hcdo
    cases heq
    exact .cdo rfl
  split
  · next hident => exact first_identLike h hident
  · next hquote hhash hat hnumber hcdc hcdo hident =>
    refine .symbol rfl (by simpa using hquote) ?_ ?_ ?_
    · have := head_of_not_startsIdent hident
      simpa using this
    · cases hdigit : isAsciiDigit c with
      | false => rfl
      | true =>
        refine absurd ?_ hnumber
        have hnot : ∀ d, d = '+' ∨ d = '-' ∨ d = '.' → (c == d) = false := by
          rintro d hd
          refine beq_eq_false_iff_ne.mpr fun heq => ?_
          subst heq
          rcases hd with rfl | rfl | rfl <;> cases hdigit
        rw [startsNumber, hnot '+' (by simp), hnot '-' (by simp), Bool.or_self, if_neg Bool.false_ne_true, startsUnsigned,
          hnot '.' (by simp), if_neg Bool.false_ne_true]
        exact hdigit
    · rintro (rfl | rfl)
      · cases cs with
        | nil => rfl
        | cons d ds =>
          cases hstart : isIdentStart d with
          | false => simp [hstart]
          | true =>
            refine absurd ?_ hident
            rw [startsIdent, if_pos (beq_self_eq_true '-')]
            simp [hstart]
      · refine head_of_not_startsIdent fun hstarts => hat ?_
        rw [hstarts]
        rfl

theorem tokens_cons {c : Char} {cs : Text} (h : Plain (c :: cs)) :
    tokens (c :: cs) = (consumeToken c cs).1 :: tokens (consumeToken c cs).2 := by
  have hstep : consume (c :: cs) = .next [(consumeToken c cs).1] (consumeToken c cs).2 := by
    rw [consume, if_neg]
    intro hcomment
    exact h.comment (List.isPrefixOf_iff_prefix.mp hcomment).isInfix
  exact collect_next consume_productive hstep

theorem tokens_nil : tokens [] = [] := collect_halt rfl

theorem tokens_first {c : Char} {cs : Text} (h : Plain (c :: cs)) :
    ∃ token rest, First (c :: cs) token rest ∧ tokens (c :: cs) = token :: tokens rest :=
  ⟨_, _, first_of_plain h, tokens_cons h⟩

/-! ## Tokens one after the other -/

theorem tokens_symbol {c : Char} {cs : Text} (h : Plain (c :: cs)) (hc : consumeToken c cs = (.symbol c, cs)) :
    tokens (c :: cs) = .symbol c :: tokens cs := by
  rw [tokens_cons h, hc]

theorem tokens_open {cs : Text} (h : Plain ('(' :: cs)) : tokens ('(' :: cs) = .symbol '(' :: tokens cs :=
  tokens_symbol h rfl

theorem tokens_close {cs : Text} (h : Plain (')' :: cs)) : tokens (')' :: cs) = .symbol ')' :: tokens cs :=
  tokens_symbol h rfl

theorem tokens_string {quote : Char} {cs : Text} (h : Plain (quote :: cs)) (hquote : isQuoteMark quote) :
    tokens (quote :: cs) = (consumeString quote cs).1 :: tokens (consumeString quote cs).2 := by
  rw [tokens_cons h]
  unfold consumeToken
  have hspace : isAsciiWhitespace quote = false := by
    unfold isQuoteMark at hquote
    simp only [Bool.or_eq_true, beq_iff_eq] at hquote
    rcases hquote with rfl | rfl <;> rfl
  rw [hspace, if_neg Bool.false_ne_true, if_pos hquote]

/-- Whitespace makes one token at most. -/
theorem tokens_spaces {text : Text} (h : Plain text) : ∃ spaces, (∀ token ∈ spaces, token = .whitespace) ∧
    tokens text = spaces ++ tokens (text.dropWhile isAsciiWhitespace) := by
  cases text with
  | nil => exact ⟨[], fun _ ht => absurd ht List.not_mem_nil, rfl⟩
  | cons c cs =>
    cases hc : isAsciiWhitespace c with
    | false =>
      refine ⟨[], fun _ ht => absurd ht List.not_mem_nil, ?_⟩
      rw [List.dropWhile_cons_of_neg (by simp [hc]), List.nil_append]
    | true =>
      refine ⟨[.whitespace], fun _ ht => List.mem_singleton.mp ht, ?_⟩
      rw [tokens_cons h, List.dropWhile_cons_of_pos hc]
      unfold consumeToken
      rw [if_pos hc]
      rfl

theorem leaveOneSpace_dropWhile (text : Text) :
    (leaveOneSpace text).dropWhile isAsciiWhitespace = text.dropWhile isAsciiWhitespace := by
  fun_induction leaveOneSpace text with
  | case1 a b cs h ih =>
    rw [Bool.and_eq_true] at h
    rw [ih, List.dropWhile_cons_of_pos (a := a) h.1]
  | case2 a b cs h => rfl
  | case3 cs h => rfl

theorem Plain.leaveOneSpace {text : Text} (h : Plain text) : Plain (CssSyntax.leaveOneSpace text) := by
  fun_induction CssSyntax.leaveOneSpace text with
  | case1 a b cs hspace ih => exact ih h.tail
  | case2 a b cs hspace => exact h
  | case3 cs hspace => exact h

/-! ## Unquoted values -/

theorem dropWhile_append_stop {p : Char → Bool} {c : Char} (hc : p c = false) (a b : Text) :
    (a ++ c :: b).takeWhile p = a.takeWhile p ∧ (a ++ c :: b).dropWhile p = a.dropWhile p ++ c :: b := by
  induction a with
  | nil => simp [hc]
  | cons d a ih => cases hd : p d <;> simp [hd, ih]

theorem consumeUrl_token (argument : Text) :
    (consumeUrl argument).1 = .badUrl ∨ ∃ value, (consumeUrl argument).1 = .url value := by
  unfold consumeUrl
  generalize consumeAll urlPiece (argument.dropWhile isAsciiWhitespace) = result
  obtain ⟨value, left⟩ := result
  dsimp only
  split
  · exact .inr ⟨value, rfl⟩
  · split
    · exact .inr ⟨value, rfl⟩
    · exact .inl rfl

/-- A value between parentheses ends at the first closing one. -/
theorem consumeUrl_closed {argument inside rest : Text} (h : Plain argument)
    (hclose : argument.dropWhile isAsciiWhitespace = inside ++ ')' :: rest) (hinside : ')' ∉ inside) :
    (∃ value spaces, inside = value ++ spaces ∧ (∀ c ∈ spaces, isAsciiWhitespace c) ∧
      consumeUrl argument = (.url value, rest)) ∨ consumeUrl argument = (.badUrl, rest) := by
  have hplain := h.dropWhile isAsciiWhitespace
  rw [hclose] at hplain
  unfold consumeUrl
  rw [hclose, consumeAll_url hplain]
  obtain ⟨htake, hdrop⟩ := dropWhile_append_stop (p := isUrlChar) (c := ')') rfl inside rest
  rw [htake, hdrop]
  dsimp only
  rw [(dropWhile_append_stop (p := isAsciiWhitespace) (c := ')') rfl (inside.dropWhile isUrlChar) rest).2]
  cases hspaces : (inside.dropWhile isUrlChar).dropWhile isAsciiWhitespace with
  | nil =>
    refine .inl ⟨inside.takeWhile isUrlChar, inside.dropWhile isUrlChar, List.takeWhile_append_dropWhile.symm, ?_, rfl⟩
    exact List.dropWhile_eq_nil_iff.mp hspaces
  | cons c cs =>
    have hmem : c ∈ inside := by
      refine (List.dropWhile_sublist isUrlChar).subset ((List.dropWhile_sublist isAsciiWhitespace).subset ?_)
      rw [hspaces]
      exact List.mem_cons_self
    have hne : (c == ')') = false := beq_eq_false_iff_ne.mpr fun heq => hinside (heq ▸ hmem)
    right
    rw [List.cons_append]
    dsimp only
    rw [hne, if_neg Bool.false_ne_true]
    have hrest := hplain.dropWhile isUrlChar
    rw [hdrop] at hrest
    have hnone : (inside.dropWhile isUrlChar).dropWhile (· != ')') = [] := by
      refine List.dropWhile_eq_nil_iff.mpr fun d hd => ?_
      have hd := (List.dropWhile_sublist isUrlChar).subset hd
      exact bne_iff_ne.mpr fun heq => hinside (heq ▸ hd)
    rw [badUrlRest_plain hrest, (dropWhile_append_stop (p := (· != ')')) (c := ')') rfl _ rest).2, hnone]
    rfl

/-! ## Between parentheses -/

/-- Neither a resource nor the string of one. -/
def Token.quiet : Token → Bool
  | .string _ | .url _ | .function _ => false
  | _ => true

/-- A part of the text without a closing parenthesis ends before the first one. -/
theorem split_close {part inner rest left : Text} (h : inner ++ ')' :: rest = part ++ left) (hpart : ')' ∉ part) :
    ∃ inner', inner = part ++ inner' ∧ left = inner' ++ ')' :: rest := by
  rcases List.append_eq_append_iff.mp h with ⟨more, hmore, hrest⟩ | ⟨more, hmore, hrest⟩
  · cases more with
    | nil => exact ⟨[], by rw [hmore, List.append_nil, List.append_nil], hrest.symm⟩
    | cons c cs =>
      cases hrest
      exact absurd (hmore ▸ List.mem_append_right inner List.mem_cons_self) hpart
  · exact ⟨more, hmore, hrest⟩

theorem not_mem_of_all {p : Char → Prop} {text : Text} {c : Char} (h : ∀ d ∈ text, p d) (hc : ¬ p c) : c ∉ text :=
  fun hmem => hc (h c hmem)

theorem Name.not_mem {name rest : Text} {c : Char} (h : Name name rest) (hc : isIdent c = false) : c ∉ name :=
  not_mem_of_all h.chars (by simp [hc])

theorem Numeric.not_mem {number : Text} {c : Char} (h : Numeric number) (hdigit : isAsciiDigit c = false)
    (hstart : c ∉ numberStart) : c ∉ number :=
  fun hmem => (h.chars c hmem).elim (by simp [hdigit]) hstart

/-- Without quotes and parentheses the first token ends before the parenthesis. -/
theorem First.enclosed {inner rest left : Text} {token : Token} (h : First (inner ++ ')' :: rest) token left)
    (hne : inner ≠ []) (hinner : ∀ c ∈ inner, isQuoteMark c = false ∧ c ≠ '(' ∧ c ≠ ')') :
    token.quiet ∧ ∃ part inner', part ≠ [] ∧ inner = part ++ inner' ∧ left = inner' ++ ')' :: rest := by
  have hhead : ∀ {c cs}, inner ++ ')' :: rest = c :: cs → c ∈ inner := by
    intro c cs heq
    cases inner with
    | nil => exact absurd rfl hne
    | cons d ds =>
      rw [(List.cons.inj heq).1.symm]
      exact List.mem_cons_self
  have hsplit : ∀ part : Text, inner ++ ')' :: rest = part ++ left → part ≠ [] → ')' ∉ part →
      ∃ part inner', part ≠ [] ∧ inner = part ++ inner' ∧ left = inner' ++ ')' :: rest := by
    intro part heq hpart hclose
    obtain ⟨inner', hinner', hleft⟩ := split_close heq hclose
    exact ⟨part, inner', hpart, hinner', hleft⟩
  have hquote : ∀ {c cs} {P : Prop}, inner ++ ')' :: rest = c :: cs → isQuoteMark c → P := by
    intro c cs P heq hc
    rw [(hinner c (hhead heq)).1] at hc
    cases hc
  have hcall : ∀ {name argument} {P : Prop}, inner ++ ')' :: rest = name ++ '(' :: argument →
      Name name ('(' :: argument) → P := by
    intro name argument P heq hname
    have hclose : ')' ∉ name ++ ['('] := by
      rw [List.mem_append, List.mem_singleton, not_or]
      exact ⟨hname.not_mem rfl, by decide⟩
    have heq' : inner ++ ')' :: rest = (name ++ ['(']) ++ argument := by simpa using heq
    obtain ⟨inner', hinner', -⟩ := split_close heq' hclose
    exact absurd rfl (hinner '(' (by simp [hinner'])).2.1
  cases h with
  | whitespace heq hspace =>
    rename_i c cs
    refine ⟨rfl, hsplit (c :: cs.takeWhile isAsciiWhitespace) ?_ (List.cons_ne_nil _ _) ?_⟩
    · rw [List.cons_append, List.takeWhile_append_dropWhile]
      exact heq
    · refine not_mem_of_all (p := (isAsciiWhitespace · = true)) (fun d hd => ?_) (by decide)
      rcases List.mem_cons.mp hd with rfl | hd
      · exact hspace
      · exact List.mem_takeWhile_imp hd
  | string heq hc => exact hquote heq hc
  | unclosed heq hc => exact hquote heq hc
  | badString heq hc => exact hquote heq hc
  | hash heq hname =>
    refine ⟨rfl, hsplit _ (heq.trans (List.cons_append ..).symm) (List.cons_ne_nil _ _) ?_⟩
    simpa using hname.not_mem rfl
  | atKeyword heq hname =>
    refine ⟨rfl, hsplit _ (heq.trans (List.cons_append ..).symm) (List.cons_ne_nil _ _) ?_⟩
    simpa using hname.not_mem rfl
  | number heq hnumber hstop =>
    exact ⟨rfl, hsplit _ heq hnumber.ne_nil (hnumber.not_mem rfl (by decide))⟩
  | percentage heq hnumber =>
    rename_i number repr
    refine ⟨rfl, hsplit (number ++ ['%']) (by simpa using heq) (by simp) ?_⟩
    simpa using hnumber.not_mem rfl (by decide)
  | dimension heq hnumber hname =>
    rename_i number repr unit
    refine ⟨rfl, hsplit (number ++ unit) (by simpa using heq) (by simp [hname.ne_nil]) ?_⟩
    rw [List.mem_append, not_or]
    exact ⟨hnumber.not_mem rfl (by decide), hname.not_mem rfl⟩
  | cdc heq => exact ⟨rfl, hsplit ['-', '-', '>'] heq (by simp) (by decide)⟩
  | cdo heq => exact ⟨rfl, hsplit ['<', '!', '-', '-'] heq (by simp) (by decide)⟩
  | ident heq hname hstop => exact ⟨rfl, hsplit _ heq hname.ne_nil (hname.not_mem rfl)⟩
  | function heq hname hurl => exact hcall heq hname
  | urlFunction heq hname hurl hquoted => exact hcall heq hname
  | url heq hname hurl hquoted => exact hcall heq hname
  | symbol heq hc hstart hdigit hsign =>
    rename_i c
    refine ⟨rfl, hsplit [c] heq (by simp) ?_⟩
    rw [List.mem_singleton]
    exact (hinner c (hhead heq)).2.2.symm

/-- Without quotes and parentheses there is no resource. -/
theorem tokens_enclosed {inner rest : Text} (h : Plain (inner ++ ')' :: rest))
    (hinner : ∀ c ∈ inner, isQuoteMark c = false ∧ c ≠ '(' ∧ c ≠ ')') :
    ∃ quiet, (∀ token ∈ quiet, token.quiet) ∧ tokens (inner ++ ')' :: rest) = quiet ++ tokens (')' :: rest) := by
  induction hlength : inner.length using Nat.strong_induction_on generalizing inner with
  | _ n ih =>
    cases inner with
    | nil => exact ⟨[], fun _ ht => absurd ht List.not_mem_nil, rfl⟩
    | cons c cs =>
      obtain ⟨token, left, hfirst, htokens⟩ := tokens_first h
      obtain ⟨hquiet, part, inner', hpart, heq, rfl⟩ := First.enclosed hfirst (List.cons_ne_nil c cs) hinner
      rw [heq] at hinner h hlength
      have hlt : inner'.length < n := by
        have := List.length_pos_iff.mpr hpart
        rw [← hlength, List.length_append]
        omega
      rw [List.append_assoc] at h
      obtain ⟨quiet, hall, hrest⟩ := ih inner'.length hlt h.right (fun d hd => hinner d (List.mem_append_right _ hd)) rfl
      refine ⟨token :: quiet, fun t ht => ?_, ?_⟩
      · rcases List.mem_cons.mp ht with rfl | ht
        · exact hquiet
        · exact hall t ht
      · exact htokens.trans (by rw [hrest, List.cons_append])

/-! ## Targets -/

theorem nextString_space (rest : List Token) : nextString (.whitespace :: rest) = nextString rest := rfl

theorem nextString_spaces {spaces rest : List Token} (h : ∀ token ∈ spaces, token = .whitespace) :
    nextString (spaces ++ rest) = nextString rest := by
  induction spaces with
  | nil => rfl
  | cons token spaces ih =>
    rw [h token List.mem_cons_self, List.cons_append, nextString_space]
    exact ih fun t ht => h t (List.mem_cons_of_mem _ ht)

theorem nextString_quiet {quiet rest : List Token} (h : ∀ token ∈ quiet, token.quiet) (hrest : nextString rest = []) :
    nextString (quiet ++ rest) = [] := by
  induction quiet with
  | nil => exact hrest
  | cons token quiet ih =>
    have hquiet := h token List.mem_cons_self
    have hmore := ih fun t ht => h t (List.mem_cons_of_mem _ ht)
    cases token <;> first | exact hmore | rfl | cases hquiet

theorem targets_quiet {quiet rest : List Token} (h : ∀ token ∈ quiet, token.quiet) (hrest : nextString rest = []) :
    targets (quiet ++ rest) = targets rest := by
  induction quiet with
  | nil => rfl
  | cons token quiet ih =>
    have hquiet := h token List.mem_cons_self
    have hall : ∀ t ∈ quiet, t.quiet := fun t ht => h t (List.mem_cons_of_mem _ ht)
    have htarget : token.target (quiet ++ rest) = [] := by
      have hnext := nextString_quiet hall hrest
      cases token with
      | atKeyword name =>
        change (if lower name = "import".toList then nextString (quiet ++ rest) else []) = []
        rw [hnext, ite_self]
      | string value => cases hquiet
      | url value => cases hquiet
      | function name => cases hquiet
      | _ => rfl
    rw [List.cons_append, targets, htarget, List.nil_append]
    exact ih hall

theorem targets_spaces {spaces rest : List Token} (h : ∀ token ∈ spaces, token = .whitespace) :
    targets (spaces ++ rest) = targets rest := by
  induction spaces with
  | nil => rfl
  | cons token spaces ih =>
    rw [h token List.mem_cons_self, List.cons_append, targets]
    exact ih fun t ht => h t (List.mem_cons_of_mem _ ht)

end CssSyntax
