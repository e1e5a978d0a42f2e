import LpStudio.Lib.CssTokens
import LpStudio.StaticExport.References

/-! # `css_references` beside the tokenizer
The scanner walks over the characters and looks for resources only. It finds those of the tokenizer as long as both
agree on where strings end, on what an unquoted value is and on what stands in front of a `url`.
-/
namespace LpStudio.StaticExport
open Str Scanning CssSyntax

/-! ## Slices -/

theorem splitOnce_single {c : Char} {before : Text} (h : c ∉ before) (after : Text) :
    splitOnce [c] (before ++ c :: after) = some (before, after) := by
  induction before with
  | nil =>
    rw [List.nil_append, splitOnce, if_pos (by simp [List.isPrefixOf])]
    rfl
  | cons d before ih =>
    rw [List.mem_cons, not_or] at h
    rw [List.cons_append, splitOnce, if_neg (by simp [List.isPrefixOf, h.1]), ih h.2]
    rfl

theorem splitOnce_single_none {c : Char} {text : Text} (h : c ∉ text) : splitOnce [c] text = none := by
  induction text with
  | nil => rfl
  | cons d text ih =>
    rw [List.mem_cons, not_or] at h
    rw [splitOnce, if_neg (by simp [List.isPrefixOf, h.1]), ih h.2]
    rfl

theorem splitOnce_single_some {c : Char} {text before after : Text} (h : splitOnce [c] text = some (before, after)) :
    text = before ++ c :: after ∧ c ∉ before := by
  induction text generalizing before with
  | nil => cases h
  | cons d text ih =>
    rw [splitOnce] at h
    split at h
    · next hprefix =>
      obtain rfl : c = d := by simpa [List.isPrefixOf] using hprefix
      cases h
      exact ⟨rfl, List.not_mem_nil⟩
    · next hprefix =>
      obtain ⟨⟨before', after'⟩, hsome, heq⟩ := Option.map_eq_some_iff.mp h
      cases heq
      obtain ⟨rfl, hmem⟩ := ih hsome
      refine ⟨rfl, fun hc => ?_⟩
      rcases List.mem_cons.mp hc with rfl | hc
      · exact hprefix (by simp [List.isPrefixOf])
      · exact hmem hc

theorem contains_slice {pattern text : Text} (h : pattern <:+: text) : contains pattern text = true := by
  obtain ⟨before, after, rfl⟩ := h
  unfold contains
  induction before with
  | nil =>
    rw [List.nil_append]
    cases htext : pattern ++ after with
    | nil =>
      rw [splitOnce, if_pos (List.append_eq_nil_iff.mp htext).1]
      rfl
    | cons c cs =>
      rw [splitOnce, if_pos (List.isPrefixOf_iff_prefix.mpr ⟨after, htext⟩)]
      rfl
  | cons c before ih =>
    rw [List.cons_append, List.cons_append, splitOnce]
    split
    · rfl
    · rw [Option.isSome_map]
      exact ih

theorem mem_trim {c : Char} {text : Text} (h : c ∈ text) : isWhitespace c ∨ c ∈ trim text := by
  rw [← List.takeWhile_append_dropWhile (p := isWhitespace) (l := text)] at h
  rcases List.mem_append.mp h with h | h
  · exact .inl (List.mem_takeWhile_imp h)
  · change c ∈ trimStart text at h
    rw [← List.rdropWhile_append_rtakeWhile (p := isWhitespace) (l := trimStart text)] at h
    rcases List.mem_append.mp h with h | h
    · exact .inr h
    · exact .inl (List.mem_rtakeWhile_imp h)

theorem isWhitespace_of_ascii {c : Char} (h : isAsciiWhitespace c) : isWhitespace c := by
  unfold isAsciiWhitespace at h
  unfold isWhitespace
  simp only [Bool.or_eq_true, Bool.and_eq_true, beq_iff_eq, decide_eq_true_eq] at h ⊢
  omega

/-- Whitespace after a text that needs no trimming is trimmed away. -/
theorem trim_append {text spaces : Text} (h : trim text = text) (hspaces : ∀ c ∈ spaces, isWhitespace c) :
    trim (text ++ spaces) = text := by
  have hend : trimEnd (text ++ spaces) = trimEnd text := by
    unfold trimEnd List.rdropWhile
    rw [List.reverse_append, List.dropWhile_append_of_pos fun c hc => hspaces c (List.mem_reverse.mp hc)]
  cases text with
  | nil =>
    have hstart : trimStart spaces = [] := List.dropWhile_eq_nil_iff.mpr hspaces
    unfold trim
    rw [List.nil_append, hstart]
    rfl
  | cons c cs =>
    have hc : isWhitespace c = false := by
      by_contra hc
      rw [Bool.not_eq_false] at hc
      have hlength := congrArg List.length h
      have hle : (trim (c :: cs)).length ≤ cs.length := by
        unfold trim trimEnd trimStart
        rw [List.dropWhile_cons_of_pos hc]
        exact Nat.le_trans (List.rdropWhile_prefix _ _).length_le (List.dropWhile_sublist _).length_le
      rw [hlength, List.length_cons] at hle
      omega
    have hstart : ∀ t : Text, trimStart (c :: t) = c :: t := fun t => trimStart_cons_not hc
    unfold trim at h ⊢
    rw [hstart] at h
    rw [List.cons_append, hstart, ← List.cons_append, hend, h]

/-! ## Names -/

/-- A class of characters without quotes. -/
theorem not_quote {p : Char → Bool} {c : Char} (hsingle : p '\'' = false) (hdouble : p '"' = false) (h : p c) :
    isQuote c = false := by
  rw [← Bool.not_eq_true]
  intro hquote
  simp only [isQuote, Bool.or_eq_true, beq_iff_eq] at hquote
  rcases hquote with rfl | rfl
  · rw [hsingle] at h
    cases h
  · rw [hdouble] at h
    cases h

theorem isAsciiAlphabetic_of_lower {c : Char} (h : isAsciiAlphabetic c.toLower) : isAsciiAlphabetic c := by
  unfold Char.toLower at h
  split at h
  · next hupper =>
    simp only [ge_iff_le, UInt32.le_iff_toNat_le] at hupper
    have hval : c.toNat = c.val.toNat := rfl
    simp only [isAsciiAlphabetic, Bool.or_eq_true, Bool.and_eq_true, decide_eq_true_eq, hval]
    exact .inl hupper
  · exact h

theorem cssNameByte_of_ident {c : Char} (h : isIdent c) (hnul : c.toNat ≠ 0) : cssNameByte c := by
  simp only [isIdent, isIdentStart, Bool.or_eq_true, beq_iff_eq, hnul, or_false] at h
  simp only [cssNameByte, isAsciiAlphanumeric, Bool.or_eq_true, beq_iff_eq]
  tauto

theorem isIdent_of_cssNameByte {c : Char} (h : cssNameByte c) : isIdent c := by
  simp only [cssNameByte, isAsciiAlphanumeric, Bool.or_eq_true, beq_iff_eq] at h
  simp only [isIdent, isIdentStart, Bool.or_eq_true, beq_iff_eq]
  tauto

theorem isIdentStart_of_lower {c : Char} (h : isAsciiAlphabetic c.toLower) : isIdentStart c := by
  simp [isIdentStart, isAsciiAlphabetic_of_lower h]

theorem url_letters : ∀ c ∈ "url".toList, isAsciiAlphabetic c := List.all_eq_true.mp (by decide)

theorem import_letters : ∀ c ∈ "import".toList, isAsciiAlphabetic c := List.all_eq_true.mp (by decide)

theorem keyword_chars {text keyword : Text} (hkeyword : ∀ c ∈ keyword, isAsciiAlphabetic c)
    (h : lower text = keyword) : ∀ c ∈ text, isIdentStart c := by
  intro c hc
  exact isIdentStart_of_lower (hkeyword _ (h ▸ List.mem_map_of_mem hc))

theorem keyword_head {text keyword : Text} {k : Char} (hkeyword : keyword.head? = some k) (hk : isAsciiAlphabetic k)
    (h : cssKeywordAt text keyword) : text.head?.any isIdentStart := by
  have hlower : lower (text.take keyword.length) = keyword := beq_iff_eq.mp h
  cases keyword with
  | nil => cases hkeyword
  | cons d keyword =>
    cases text with
    | nil => cases hlower
    | cons c cs =>
      have hc : c.toLower = k := (List.cons.inj hlower).1.trans (Option.some.inj hkeyword)
      exact isIdentStart_of_lower (hc ▸ hk)

section
variable {name rest keyword : Text}

/-- A name that begins with the keyword has all of it. -/
theorem name_keyword (hname : Name name rest) (hkeyword : ∀ c ∈ keyword, isAsciiAlphabetic c)
    (h : cssKeywordAt (name ++ rest) keyword) :
    ∃ start more, name = start ++ more ∧ lower start = keyword ∧ (name ++ rest).drop keyword.length = more ++ rest := by
  have hlower : lower ((name ++ rest).take keyword.length) = keyword := beq_iff_eq.mp h
  have hall := keyword_chars hkeyword hlower
  have hsplit := List.take_append_drop keyword.length (name ++ rest)
  rcases List.append_eq_append_iff.mp hsplit with ⟨more, hmore, hdrop⟩ | ⟨more, hmore, hrest⟩
  · exact ⟨_, more, hmore, hlower, hdrop⟩
  · cases more with
    | nil =>
      rw [List.append_nil] at hmore
      exact ⟨name, [], (List.append_nil name).symm, hmore ▸ hlower, hrest.symm⟩
    | cons c cs =>
      have hstop := hname.stop
      have hc := isIdent_of_start (hall c (hmore ▸ List.mem_append_right name List.mem_cons_self))
      rw [hrest] at hstop
      simp [hc] at hstop

end

/-! ## The scanner -/

/-- What follows the parenthesis, where the scanner reads `url` and a parenthesis. -/
def urlArgument (suffix : Text) : Option Text :=
  if cssKeywordAt suffix "url".toList then
    match skipAsciiWhitespace (suffix.drop "url".toList.length) with
    | '(' :: argument => some argument
    | _ => none
  else none

/-- The scanner reads `@import`. -/
def imports (c : Char) (cs : Text) : Bool :=
  c == '@' && cssKeywordAt cs "import".toList && cssTokenBoundary (cs.drop "import".toList.length).head?

def previousIsName (before : Text) : Bool := before.getLast?.any cssNameByte

/-- The loop of `css_references` in the middle of a text. -/
def scanAfter (before suffix : Text) : List CssFinding := collect (cssStep (before ++ suffix)) suffix

/-- The argument of a `url` is quoted, or it goes up to the next parenthesis. -/
theorem cssUrlArgument_some {argument value rest : Text} (h : cssUrlArgument argument = some (value, rest)) :
    (∃ quote after, isQuote quote ∧ skipAsciiWhitespace argument = quote :: (value ++ quote :: after) ∧ quote ∉ value ∧
      skipAsciiWhitespace after = ')' :: rest) ∨
    ∃ inside, skipAsciiWhitespace argument = inside ++ ')' :: rest ∧ ')' ∉ inside ∧ value = trim inside ∧
      ∀ c ∈ inside, isQuote c = false ∧ c ≠ '(' := by
  unfold cssUrlArgument at h
  dsimp only at h
  split at h
  · cases h
  · next c cs heq =>
    split at h
    · next hquote =>
      split at h
      · cases h
      · next value' after hsplit =>
        split at h
        · next rest' hclose =>
          cases h
          obtain ⟨rfl, hmem⟩ := splitOnce_single_some hsplit
          exact .inl ⟨c, after, hquote, heq, hmem, hclose⟩
        · cases h
    · split at h
      · cases h
      · next inside rest' hsplit =>
        split at h
        · cases h
        · next hany =>
          cases h
          obtain ⟨hinside, hmem⟩ := splitOnce_single_some hsplit
          refine .inr ⟨inside, hinside, hmem, rfl, fun d hd => ?_⟩
          rcases mem_trim hd with hspace | hd
          · refine ⟨not_quote rfl rfl hspace, ?_⟩
            rintro rfl
            cases hspace
          · rw [Bool.not_eq_true, List.any_eq_false] at hany
            have hd := hany d hd
            simp only [Bool.or_eq_true, not_or, decide_eq_true_eq, List.mem_cons, List.not_mem_nil, or_false] at hd
            refine ⟨?_, hd.2.1⟩
            unfold isQuote
            rw [Bool.or_eq_false_iff, beq_eq_false_iff_ne, beq_eq_false_iff_ne]
            exact ⟨hd.2.2.1, hd.2.2.2.1⟩

theorem skipAsciiWhitespace_length (text : Text) : (skipAsciiWhitespace text).length ≤ text.length := dropWhile_length _ text

theorem cssUrlArgument_length {argument value rest : Text} (h : cssUrlArgument argument = some (value, rest)) :
    rest.length < argument.length := by
  have hargument := skipAsciiWhitespace_length argument
  rcases cssUrlArgument_some h with ⟨quote, after, -, heq, -, hafter⟩ | ⟨inside, heq, -⟩
  · have hskip := skipAsciiWhitespace_length after
    rw [hafter, List.length_cons] at hskip
    rw [heq, List.length_cons, List.length_append, List.length_cons] at hargument
    omega
  · rw [heq, List.length_append, List.length_cons] at hargument
    omega

theorem cssStep_productive (text : Text) : Productive (cssStep text) := by
  intro input out rest h
  cases input with
  | nil => cases h
  | cons c cs =>
    have hskip := skipAsciiWhitespace_length (cs.drop "import".toList.length)
    have hname := skipAsciiWhitespace_length ((c :: cs).drop "url".toList.length)
    have hdrop : ∀ n (t : Text), (t.drop n).length ≤ t.length := fun n t => (List.drop_sublist n t).length_le
    have himport := hdrop "import".toList.length cs
    have hurl := hdrop "url".toList.length (c :: cs)
    rw [cssStep] at h
    rw [List.length_cons]
    split at h
    · split at h
      · next value rest' hsplit =>
        cases h
        exact Nat.lt_succ_of_lt (splitOnce_length (by simp) hsplit)
      · cases h
    split at h
    · split at h
      · cases h
      · next quote more heq =>
        rw [heq, List.length_cons] at hskip
        split at h
        · split at h
          · cases h
          · next value rest' hsplit =>
            cases h
            have := splitOnce_length (by simp) hsplit
            omega
        · split at h
          · cases h
            rw [List.length_cons]
            omega
          · cases h
    split at h
    · split at h
      · next argument heq =>
        rw [heq, List.length_cons] at hname
        split at h
        · next value rest' hargument =>
          cases h
          have := cssUrlArgument_length hargument
          rw [List.length_cons] at hurl
          omega
        · cases h
      · cases h
        exact Nat.lt_succ_self _
    · cases h
      exact Nat.lt_succ_self _

section
variable {before cs suffix rest part argument value : Text} {c : Char}

theorem take_before : (before ++ suffix).take ((before ++ suffix).length - suffix.length) = before := by
  rw [List.length_append, Nat.add_sub_cancel, List.take_left]

theorem scan_next {out : List CssFinding} (hsuffix : suffix = part ++ rest)
    (h : cssStep (before ++ suffix) suffix = .next out rest) :
    scanAfter before suffix = out ++ scanAfter (before ++ part) rest := by
  unfold scanAfter
  rw [collect_next (cssStep_productive _) h, hsuffix, List.append_assoc]

theorem scan_halt {out : List CssFinding} (h : cssStep (before ++ suffix) suffix = .halt out) :
    scanAfter before suffix = out := collect_halt h

/-- Where neither a string nor an `@import` nor a `url` begins, the scanner goes to the next character. -/
theorem scan_char (hquote : isQuote c = false) (himport : imports c cs = false)
    (hurl : previousIsName before = true ∨ urlArgument (c :: cs) = none) :
    scanAfter before (c :: cs) = scanAfter (before ++ [c]) cs := by
  have hstep : cssStep (before ++ c :: cs) (c :: cs) = .next [] cs := by
    unfold imports at himport
    rw [cssStep, take_before, hquote, himport]
    simp only [Bool.false_eq_true, if_false]
    split
    · next hkeyword =>
      rw [Bool.and_eq_true, Bool.not_eq_true'] at hkeyword
      have hnone := hurl.resolve_left (by rw [previousIsName, hkeyword.1]; exact Bool.false_ne_true)
      rw [urlArgument, if_pos hkeyword.2] at hnone
      split
      · next argument heq =>
        rw [heq] at hnone
        cases hnone
      · rfl
    · rfl
  exact scan_next (show c :: cs = [c] ++ cs from rfl) hstep

theorem scan_quote (hquote : isQuote c) (hmem : c ∉ value) :
    scanAfter before (c :: (value ++ c :: rest)) = scanAfter (before ++ (c :: value ++ [c])) rest := by
  have hstep : cssStep (before ++ c :: (value ++ c :: rest)) (c :: (value ++ c :: rest)) = .next [] rest := by
    rw [cssStep, if_pos hquote, splitOnce_single hmem]
  exact scan_next (show c :: (value ++ c :: rest) = (c :: value ++ [c]) ++ rest by simp) hstep

theorem scan_unclosed (hquote : isQuote c) (hmem : c ∉ value) : scanAfter before (c :: value) = [.incomplete] := by
  refine scan_halt ?_
  rw [cssStep, if_pos hquote, splitOnce_single_none hmem]

/-- What `urlArgument` reads begins with a letter. -/
theorem urlArgument_head (h : (urlArgument suffix).isSome) : suffix.head?.any isIdentStart := by
  unfold urlArgument at h
  split at h
  · next hkeyword => exact keyword_head rfl (by decide) hkeyword
  · cases h

theorem ident_quote (h : isIdent c) : isQuote c = false ∧ c ≠ '@' := by
  refine ⟨not_quote rfl rfl h, ?_⟩
  rintro rfl
  cases h

theorem cssStep_url (hprevious : previousIsName before = false) (hurl : urlArgument suffix = some argument) :
    cssStep (before ++ suffix) suffix = ((cssUrlArgument argument).map fun result => .next (found result.1) result.2).getD
      (.halt [.incomplete]) := by
  have hhead := urlArgument_head (by rw [hurl]; rfl)
  cases suffix with
  | nil => cases hhead
  | cons c cs =>
    obtain ⟨hquote, hat⟩ := ident_quote (isIdent_of_start (by simpa using hhead))
    unfold urlArgument at hurl
    split at hurl
    · next hkeyword =>
      split at hurl
      · next argument' heq =>
        cases hurl
        unfold previousIsName at hprevious
        rw [cssStep, take_before, hquote, beq_eq_false_iff_ne.mpr hat, hprevious, hkeyword, heq]
        simp only [Bool.false_eq_true, if_false, Bool.false_and, Bool.not_false, Bool.and_self, if_true]
        cases hargument : cssUrlArgument argument with
        | none => rfl
        | some result => rfl
      · cases hurl
    · cases hurl

theorem scan_url (hprevious : previousIsName before = false) (hurl : urlArgument suffix = some argument)
    (hargument : cssUrlArgument argument = some (value, rest)) (hsuffix : suffix = part ++ rest) :
    scanAfter before suffix = found value ++ scanAfter (before ++ part) rest := by
  refine scan_next hsuffix ?_
  rw [cssStep_url hprevious hurl, hargument]
  rfl

theorem scan_url_none (hprevious : previousIsName before = false) (hurl : urlArgument suffix = some argument)
    (hargument : cssUrlArgument argument = none) : scanAfter before suffix = [.incomplete] := by
  refine scan_halt ?_
  rw [cssStep_url hprevious hurl, hargument]
  rfl

/-! ## Runs of characters -/

/-- Nothing begins with the character. -/
def plainChar (c : Char) : Bool := !isQuote c && c != '@' && c.toLower != 'u'

theorem urlArgument_none (h : c.toLower ≠ 'u') : urlArgument (c :: cs) = none := by
  unfold urlArgument
  split
  · next hkeyword =>
    have hlower : lower ((c :: cs).take 3) = "url".toList := beq_iff_eq.mp hkeyword
    exact absurd (List.cons.inj hlower).1 h
  · rfl

theorem scan_plain (h : ∀ c ∈ part, plainChar c) : scanAfter before (part ++ rest) = scanAfter (before ++ part) rest := by
  induction part generalizing before with
  | nil => rw [List.nil_append, List.append_nil]
  | cons c part ih =>
    have hc := h c List.mem_cons_self
    simp only [plainChar, Bool.and_eq_true, Bool.not_eq_true', bne_iff_ne] at hc
    rw [List.cons_append, scan_char hc.1.1 (by simp [imports, hc.1.2]) (.inr (urlArgument_none hc.2)),
      ih fun d hd => h d (List.mem_cons_of_mem c hd), List.append_assoc]
    rfl

theorem scan_names (h : ∀ c ∈ part, cssNameByte c) (hprevious : previousIsName before) :
    scanAfter before (part ++ rest) = scanAfter (before ++ part) rest := by
  induction part generalizing before with
  | nil => rw [List.nil_append, List.append_nil]
  | cons c part ih =>
    have hc := h c List.mem_cons_self
    have hquote := ident_quote (isIdent_of_cssNameByte hc)
    have hnext : previousIsName (before ++ [c]) := by
      unfold previousIsName
      simpa using hc
    rw [List.cons_append, scan_char hquote.1 (by simp [imports, hquote.2]) (.inl hprevious),
      ih (fun d hd => h d (List.mem_cons_of_mem c hd)) hnext, List.append_assoc]
    rfl

/-- The scanner passes over a name that is not the one of a `url`. -/
theorem scan_name {name : Text} (hname : Name name rest) (hplain : Plain (name ++ rest))
    (hurl : previousIsName before = true ∨ urlArgument (name ++ rest) = none) :
    scanAfter before (name ++ rest) = scanAfter (before ++ name) rest := by
  cases name with
  | nil => exact absurd rfl hname.ne_nil
  | cons c cs =>
    have hall : ∀ d ∈ c :: cs, cssNameByte d := fun d hd =>
      cssNameByte_of_ident (hname.chars d hd) (hplain.nul d (List.mem_append_left rest hd))
    have hc := hall c List.mem_cons_self
    have hquote := ident_quote (hname.chars c List.mem_cons_self)
    have hnext : previousIsName (before ++ [c]) := by
      unfold previousIsName
      simpa using hc
    have hfirst : scanAfter before (c :: (cs ++ rest)) = scanAfter (before ++ [c]) (cs ++ rest) :=
      scan_char hquote.1 (by simp [imports, hquote.2]) hurl
    rw [List.cons_append, hfirst, scan_names (fun d hd => hall d (List.mem_cons_of_mem c hd)) hnext, List.append_assoc]
    rfl

end

end LpStudio.StaticExport
