import LpStudio.StaticExport.StyleSheets

/-! # The resources of a style sheet
Where the scanner reads an argument or an `@import`, it goes to the beginning of a later token, past tokens that name no
other resource.
-/
namespace LpStudio.StaticExport
open Str Scanning CssSyntax

/-! ## Where both read alike -/

/-- The token of a `url(`, whatever follows. -/
def opensUrl : Token → Bool
  | .url _ | .badUrl => true
  | .function name => lower name == "url".toList
  | _ => false

def readsToken (rest : List Token) : Token → Bool
  | .badString => false
  | .url value => trim value == value
  | .cdo => !rest.head?.any opensUrl
  | _ => true

/-- No string ends at a newline, no unquoted value is between whitespace that the scanner trims away, and no `url(` is
right behind `<!--`. -/
def readsAlike : List Token → Bool
  | [] => true
  | token :: rest => readsToken rest token && readsAlike rest

theorem readsAlike_append {a b : List Token} (h : readsAlike (a ++ b)) : readsAlike b := by
  induction a with
  | nil => exact h
  | cons token a ih =>
    rw [List.cons_append, readsAlike, Bool.and_eq_true] at h
    exact ih h.2

/-- The tokens have no target, whatever follows. -/
def Silent (silent : List Token) : Prop := ∀ more, targets (silent ++ more) = targets more

theorem Silent.append {a b : List Token} (ha : Silent a) (hb : Silent b) : Silent (a ++ b) := by
  intro more
  rw [List.append_assoc, ha, hb]

theorem silent_one {token : Token} (h : ∀ more, token.target more = []) : Silent [token] := by
  intro more
  rw [List.singleton_append, targets, h, List.nil_append]

theorem silent_spaces {spaces : List Token} (h : ∀ token ∈ spaces, token = .whitespace) : Silent spaces :=
  fun _ => targets_spaces h

/-! ## Arguments -/

section
variable {text quote value after rest argument : Text} {q : Char}

theorem quoted_tokens (h : Plain text) (hreads : readsAlike (tokens text)) (hquote : isQuote q)
    (htext : skipAsciiWhitespace text = q :: (value ++ q :: after)) (hmem : q ∉ value) :
    ∃ spaces, (∀ token ∈ spaces, token = .whitespace) ∧ tokens text = spaces ++ .string value :: tokens after := by
  obtain ⟨spaces, hspaces, heq⟩ := tokens_spaces h
  have hplain := h.dropWhile isAsciiWhitespace
  change text.dropWhile isAsciiWhitespace = _ at htext
  rw [htext] at heq hplain
  rw [tokens_string hplain hquote] at heq
  rcases consumeString_cases q hplain.tail with ⟨value', after', htext', hmem', hstring⟩ | ⟨hnone, -⟩ | hbad
  · have hsplit := splitOnce_single hmem after
    rw [htext', splitOnce_single hmem' after'] at hsplit
    cases hsplit
    rw [hstring] at heq
    exact ⟨spaces, hspaces, heq⟩
  · exact absurd (List.mem_append_right value List.mem_cons_self) hnone
  · rw [heq, hbad] at hreads
    cases readsAlike_append hreads

theorem closing_tokens (h : Plain text) (htext : skipAsciiWhitespace text = ')' :: rest) :
    ∃ spaces, (∀ token ∈ spaces, token = .whitespace) ∧ tokens text = spaces ++ .symbol ')' :: tokens rest := by
  obtain ⟨spaces, hspaces, heq⟩ := tokens_spaces h
  have hplain := h.dropWhile isAsciiWhitespace
  change text.dropWhile isAsciiWhitespace = _ at htext
  rw [htext] at heq hplain
  rw [tokens_close hplain] at heq
  exact ⟨spaces, hspaces, heq⟩

theorem plain_of_quoted (h : Plain text) (htext : skipAsciiWhitespace text = q :: (value ++ q :: after)) : Plain after := by
  have hplain := h.dropWhile isAsciiWhitespace
  change text.dropWhile isAsciiWhitespace = _ at htext
  rw [htext] at hplain
  exact hplain.tail.right.tail

/-- Where the scanner goes past an argument that is none for the tokenizer, there is no resource in it. -/
theorem argument_tokens (h : Plain argument) (hreads : readsAlike (tokens argument))
    (hargument : cssUrlArgument argument = some (value, rest)) :
    ∃ silent, Silent silent ∧ tokens argument = silent ++ tokens rest := by
  have hclose : Silent [.symbol ')'] := silent_one fun _ => rfl
  rcases cssUrlArgument_some hargument with ⟨q, after, hquote, htext, hmem, hafter⟩ | ⟨inside, htext, hmem, -, hchars⟩
  · obtain ⟨spaces, hspaces, heq⟩ := quoted_tokens h hreads hquote htext hmem
    obtain ⟨spaces', hspaces', heq'⟩ := closing_tokens (plain_of_quoted h htext) hafter
    refine ⟨spaces ++ [Token.string value] ++ spaces' ++ [Token.symbol ')'], ?_, ?_⟩
    · exact (((silent_spaces hspaces).append (silent_one fun _ => rfl)).append (silent_spaces hspaces')).append hclose
    · rw [heq, heq']
      simp
  · obtain ⟨spaces, hspaces, heq⟩ := tokens_spaces h
    have hplain := h.dropWhile isAsciiWhitespace
    change argument.dropWhile isAsciiWhitespace = _ at htext
    rw [htext] at heq hplain
    obtain ⟨quiet, hquiet, hinside⟩ := tokens_enclosed hplain fun c hc =>
      ⟨(hchars c hc).1, (hchars c hc).2, fun hclose => hmem (hclose ▸ hc)⟩
    rw [tokens_close hplain.right] at hinside
    refine ⟨spaces ++ (quiet ++ [Token.symbol ')']), (silent_spaces hspaces).append fun more => ?_, ?_⟩
    · rw [List.append_assoc, targets_quiet hquiet rfl]
      exact hclose more
    · rw [heq, hinside]
      simp

/-- An argument goes up to a parenthesis. -/
theorem argument_part (hargument : cssUrlArgument argument = some (value, rest)) :
    ∃ part, argument = part ++ [')'] ++ rest := by
  have hskip := List.takeWhile_append_dropWhile (p := isAsciiWhitespace) (l := argument)
  change _ ++ skipAsciiWhitespace argument = argument at hskip
  rcases cssUrlArgument_some hargument with ⟨q, after, -, htext, -, hafter⟩ | ⟨inside, htext, -⟩
  · have hskip' := List.takeWhile_append_dropWhile (p := isAsciiWhitespace) (l := after)
    change _ ++ skipAsciiWhitespace after = after at hskip'
    rw [hafter] at hskip'
    refine ⟨argument.takeWhile isAsciiWhitespace ++ (q :: (value ++ q :: after.takeWhile isAsciiWhitespace)), ?_⟩
    conv_lhs => rw [← hskip, htext, ← hskip']
    simp
  · refine ⟨argument.takeWhile isAsciiWhitespace ++ inside, ?_⟩
    conv_lhs => rw [← hskip, htext]
    simp

end

/-! ## One token after the other -/

/-- The scanner reads a `url` only where the tokenizer does. -/
def Synced (before suffix : Text) : Prop :=
  previousIsName before = true → (tokens suffix).head?.any opensUrl = false

/-- The scanner gives up, or it finds every target. -/
def Covered (before suffix : Text) : Prop :=
  .incomplete ∉ scanAfter before suffix → readsAlike (tokens suffix) →
    ∀ value ∈ targets (tokens suffix), value ≠ [] → .reference value ∈ scanAfter before suffix

section
variable {before before' suffix rest argument name : Text} {c : Char} {out : List CssFinding} {read : List Token}

theorem Covered.of (h : .incomplete ∉ scanAfter before suffix → readsAlike (tokens suffix) → Covered before suffix) :
    Covered before suffix :=
  fun hcomplete hreads => h hcomplete hreads hcomplete hreads

theorem Covered.step (h : Covered before' rest) (hscan : scanAfter before suffix = out ++ scanAfter before' rest)
    (htokens : tokens suffix = read ++ tokens rest)
    (htargets : ∀ value ∈ targets (read ++ tokens rest), value ≠ [] →
      .reference value ∈ out ∨ value ∈ targets (tokens rest)) : Covered before suffix := by
  intro hcomplete hreads value hvalue hne
  rw [hscan] at hcomplete ⊢
  rw [htokens] at hreads hvalue
  rw [List.mem_append, not_or] at hcomplete
  rcases htargets value hvalue hne with hout | hrest
  · exact List.mem_append_left _ hout
  · exact List.mem_append_right _ (h hcomplete.2 (readsAlike_append hreads) value hrest hne)

theorem Covered.silent (h : Covered before' rest) (hscan : scanAfter before suffix = out ++ scanAfter before' rest)
    (htokens : tokens suffix = read ++ tokens rest) (hread : Silent read) : Covered before suffix :=
  h.step hscan htokens fun _ hvalue _ => .inr (hread _ ▸ hvalue)

theorem previousIsName_snoc : previousIsName (before ++ [c]) = cssNameByte c := by
  unfold previousIsName
  rw [List.getLast?_concat]
  rfl

theorem synced_snoc (h : cssNameByte c = false) : Synced (before ++ [c]) suffix := by
  intro hprevious
  rw [previousIsName_snoc, h] at hprevious
  cases hprevious

theorem lower_head {start more : Text} (h : lower start = "url".toList) : (start ++ more).head?.any isIdentStart := by
  cases start with
  | nil => cases h
  | cons c cs => exact keyword_chars url_letters h c List.mem_cons_self

theorem opensUrl_head (hplain : Plain suffix) (h : (tokens suffix).head?.any opensUrl) :
    suffix.head?.any isIdentStart := by
  cases suffix with
  | nil => cases h
  | cons c cs =>
    obtain ⟨token, rest, hfirst, htokens⟩ := tokens_first hplain
    rw [htokens] at h
    cases hfirst with
    | function heq hname hurl => exact absurd (beq_iff_eq.mp h) hurl
    | urlFunction heq hname hurl hquoted =>
      rw [heq]
      exact lower_head hurl
    | url heq hname hurl hquoted =>
      rw [heq]
      exact lower_head hurl
    | _ => cases h

theorem synced_of_head (hplain : Plain suffix) (h : suffix.head?.any isIdentStart = false) : Synced before suffix := by
  intro _
  cases hopens : (tokens suffix).head?.any opensUrl with
  | false => rfl
  | true =>
    rw [opensUrl_head hplain hopens] at h
    cases h

theorem synced_of_name (hplain : Plain rest) (hname : Name name rest) : Synced before rest := by
  refine synced_of_head hplain ?_
  have hstop := hname.stop
  cases rest with
  | nil => rfl
  | cons c cs =>
    cases hc : isIdentStart c with
    | false => simpa using hc
    | true => simp [isIdent_of_start hc] at hstop

/-- The scanner reads a name as `url` if it is, and if a parenthesis follows. -/
theorem urlArgument_name (hname : Name name rest) : urlArgument (name ++ rest) = some argument ↔
    lower name = "url".toList ∧ skipAsciiWhitespace rest = '(' :: argument := by
  have hkey : lower name = "url".toList → cssKeywordAt (name ++ rest) "url".toList ∧
      (name ++ rest).drop "url".toList.length = rest := by
    intro hurl
    have hlength : name.length = "url".toList.length := by rw [← hurl, lower, List.length_map]
    refine ⟨?_, by rw [← hlength, List.drop_left]⟩
    rw [cssKeywordAt, ← hlength, List.take_left, hurl]
    exact beq_self_eq_true _
  constructor
  · intro h
    unfold urlArgument at h
    split at h
    · next hkeyword =>
      obtain ⟨start, more, rfl, hlower, hdrop⟩ := name_keyword hname url_letters hkeyword
      rw [hdrop] at h
      cases more with
      | nil =>
        rw [List.append_nil]
        refine ⟨hlower, ?_⟩
        rw [List.nil_append] at h
        split at h
        · next argument' heq =>
          cases h
          exact heq
        · cases h
      | cons c cs =>
        have hc := hname.chars c (List.mem_append_right start List.mem_cons_self)
        have hspace := isIdent_not_space hc
        have hskip : skipAsciiWhitespace (c :: cs ++ rest) = c :: (cs ++ rest) :=
          List.dropWhile_cons_of_neg (by simp [hspace])
        rw [hskip] at h
        split at h
        · next heq =>
          cases heq
          cases hc
        · cases h
    · cases h
  · rintro ⟨hurl, hskip⟩
    obtain ⟨hkeyword, hdrop⟩ := hkey hurl
    rw [urlArgument, if_pos hkeyword, hdrop, hskip]
    rfl

theorem synced_part {part : Text} (hne : part ≠ []) (h : ∀ d ∈ part.getLast?, cssNameByte d = false) :
    Synced (before ++ part) rest := by
  intro hprevious
  obtain ⟨d, hd⟩ := Option.ne_none_iff_exists'.mp (mt List.getLast?_eq_none_iff.mp hne)
  unfold previousIsName at hprevious
  rw [List.getLast?_append, hd, Option.some_or, Option.any_some, h d hd] at hprevious
  cases hprevious

/-! ## Names -/

/-- After a hash or an at sign, or where no parenthesis follows at once, a name is not the one of a resource. -/
theorem covered_name {front : Token} (hname : Name name rest) (hplain : Plain (name ++ rest))
    (hscan : scanAfter before suffix = scanAfter before' (name ++ rest)) (htokens : tokens suffix = front :: tokens rest)
    (hfront : ∀ more, front.target more = [])
    (ih : ∀ after last, last.length ≤ rest.length → Plain last → Synced after last → Covered after last) :
    Covered before suffix := by
  by_cases hurl : previousIsName before' = true ∨ urlArgument (name ++ rest) = none
  · have hrest := ih (before' ++ name) rest (Nat.le_refl _) hplain.right (synced_of_name hplain.right hname)
    have hscan' : scanAfter before suffix = [] ++ scanAfter (before' ++ name) rest :=
      hscan.trans (scan_name hname hplain hurl)
    exact hrest.silent hscan' (show tokens suffix = [front] ++ tokens rest from htokens) (silent_one hfront)
  · rw [not_or, Bool.not_eq_true] at hurl
    obtain ⟨hprevious, hsome⟩ := hurl
    obtain ⟨argument, hargument⟩ := Option.ne_none_iff_exists'.mp hsome
    obtain ⟨hlower, hskip⟩ := (urlArgument_name hname).mp hargument
    refine Covered.of fun hcomplete hreads => ?_
    cases hvalue : cssUrlArgument argument with
    | none =>
      rw [hscan, scan_url_none hprevious hargument hvalue] at hcomplete
      exact absurd List.mem_cons_self hcomplete
    | some result =>
      obtain ⟨value, last⟩ := result
      have hlength := skipAsciiWhitespace_length rest
      rw [hskip, List.length_cons] at hlength
      have hlt := cssUrlArgument_length hvalue
      obtain ⟨spaces, hspaces, hrest⟩ := tokens_spaces hplain.right
      have hopen := hplain.right.dropWhile isAsciiWhitespace
      change rest.dropWhile isAsciiWhitespace = _ at hskip
      rw [hskip] at hrest hopen
      rw [tokens_open hopen] at hrest
      have hreadsArgument : readsAlike (tokens argument) := by
        rw [htokens, hrest] at hreads
        exact readsAlike_append (a := front :: spaces ++ [Token.symbol '(']) (by simpa using hreads)
      obtain ⟨silent, hsilent, htokensArgument⟩ := argument_tokens hopen.tail hreadsArgument hvalue
      obtain ⟨part, hpart⟩ := argument_part hvalue
      have hparts : name ++ rest =
          (name ++ rest.takeWhile isAsciiWhitespace ++ '(' :: part ++ [')']) ++ last := by
        conv_lhs => rw [← List.takeWhile_append_dropWhile (p := isAsciiWhitespace) (l := rest), hskip, hpart]
        simp
      have hlast := ih (before' ++ (name ++ rest.takeWhile isAsciiWhitespace ++ '(' :: part ++ [')'])) last (by omega)
        (hpart ▸ hopen.tail).right (by rw [← List.append_assoc]; exact synced_snoc rfl)
      refine hlast.silent (hscan.trans (scan_url hprevious hargument hvalue hparts))
        (show tokens suffix = ([front] ++ (spaces ++ ([Token.symbol '('] ++ silent))) ++ tokens last from ?_) ?_
      · rw [htokens, hrest, htokensArgument]
        simp
      · exact (silent_one hfront).append ((silent_spaces hspaces).append ((silent_one fun _ => rfl).append hsilent))

/-! ## Resources -/

/-- A `url()` that the tokenizer reads, the scanner reads up to the same place. -/
theorem covered_call (hname : Name name ('(' :: argument)) (hurl : lower name = "url".toList)
    (hplain : Plain (name ++ '(' :: argument)) (hsynced : previousIsName before = false)
    (htokens : readsAlike (tokens (name ++ '(' :: argument)) → ∀ value last, cssUrlArgument argument = some (value, last) →
      ∃ read, tokens (name ++ '(' :: argument) = read ++ tokens last ∧
        ∀ target ∈ targets (read ++ tokens last), target ≠ [] → target = value ∨ target ∈ targets (tokens last))
    (ih : ∀ after last, last.length < argument.length → Plain last → Synced after last → Covered after last) :
    Covered before (name ++ '(' :: argument) := by
  have hargument : urlArgument (name ++ '(' :: argument) = some argument := (urlArgument_name hname).mpr ⟨hurl, rfl⟩
  refine Covered.of fun hcomplete hreads => ?_
  cases hvalue : cssUrlArgument argument with
  | none =>
    rw [scan_url_none hsynced hargument hvalue] at hcomplete
    exact absurd List.mem_cons_self hcomplete
  | some result =>
    obtain ⟨value, last⟩ := result
    obtain ⟨read, hread, htargets⟩ := htokens hreads value last hvalue
    obtain ⟨part, hpart⟩ := argument_part hvalue
    have hparts : name ++ '(' :: argument = (name ++ '(' :: part ++ [')']) ++ last := by
      rw [hpart]
      simp
    have hlast := ih (before ++ (name ++ '(' :: part ++ [')'])) last (cssUrlArgument_length hvalue)
      (hpart ▸ hplain.right.tail).right (by rw [← List.append_assoc]; exact synced_snoc rfl)
    refine hlast.step (scan_url hsynced hargument hvalue hparts) hread fun target htarget hne => ?_
    refine (htargets target htarget hne).imp (fun heq => ?_) id
    subst heq
    unfold found
    rw [if_neg (by simpa using hne)]
    exact List.mem_singleton.mpr rfl

/-- The argument is a string. -/
theorem quoted_targets (hplain : Plain argument) (hquoted : (argument.dropWhile isAsciiWhitespace).head?.any isQuoteMark)
    (hurl : lower name = "url".toList)
    (htokens : tokens suffix = .function name :: tokens (leaveOneSpace argument)) (hreads : readsAlike (tokens suffix))
    {value last : Text} (hvalue : cssUrlArgument argument = some (value, last)) :
    ∃ read, tokens suffix = read ++ tokens last ∧
      ∀ target ∈ targets (read ++ tokens last), target ≠ [] → target = value ∨ target ∈ targets (tokens last) := by
  rcases cssUrlArgument_some hvalue with ⟨q, after, hquote, htext, hmem, hafter⟩ | ⟨inside, htext, -, -, hchars⟩
  · have hskip : skipAsciiWhitespace (leaveOneSpace argument) = q :: (value ++ q :: after) :=
      (leaveOneSpace_dropWhile argument).trans htext
    rw [htokens] at hreads
    have hreadsArgument : readsAlike (tokens (leaveOneSpace argument)) := readsAlike_append (a := [.function name]) hreads
    obtain ⟨spaces, hspaces, heq⟩ := quoted_tokens hplain.leaveOneSpace hreadsArgument hquote hskip hmem
    obtain ⟨spaces', hspaces', heq'⟩ := closing_tokens (plain_of_quoted hplain htext) hafter
    refine ⟨Token.function name :: (spaces ++ (Token.string value :: (spaces' ++ [Token.symbol ')']))), ?_,
      fun target htarget _ => ?_⟩
    · rw [htokens, heq, heq']
      simp
    · have htail : targets (spaces ++ (Token.string value :: (spaces' ++ [Token.symbol ')'])) ++ tokens last) =
          targets (tokens last) :=
        ((silent_spaces hspaces).append ((silent_one fun _ => rfl).append
          ((silent_spaces hspaces').append (silent_one fun _ => rfl)))) (tokens last)
      rw [List.cons_append, targets, htail] at htarget
      refine (List.mem_append.mp htarget).imp (fun hmem => ?_) id
      rw [Token.target, if_pos hurl, List.append_assoc, nextString_spaces hspaces] at hmem
      exact List.mem_singleton.mp hmem
  · change argument.dropWhile isAsciiWhitespace = _ at htext
    rw [htext] at hquoted
    cases inside with
    | nil => cases hquoted
    | cons c cs =>
      have hc := (hchars c List.mem_cons_self).1
      change isQuoteMark c = false at hc
      simp [hc] at hquoted

/-- The argument is not a string. -/
theorem unquoted_targets (hplain : Plain argument)
    (hquoted : (argument.dropWhile isAsciiWhitespace).head?.any isQuoteMark = false)
    (htokens : tokens suffix = (consumeUrl argument).1 :: tokens (consumeUrl argument).2)
    (hreads : readsAlike (tokens suffix)) {value last : Text} (hvalue : cssUrlArgument argument = some (value, last)) :
    ∃ read, tokens suffix = read ++ tokens last ∧
      ∀ target ∈ targets (read ++ tokens last), target ≠ [] → target = value ∨ target ∈ targets (tokens last) := by
  rcases cssUrlArgument_some hvalue with ⟨q, after, hquote, htext, -, -⟩ | ⟨inside, htext, hmem, rfl, -⟩
  · change argument.dropWhile isAsciiWhitespace = _ at htext
    change isQuoteMark q = true at hquote
    rw [htext] at hquoted
    simp [hquote] at hquoted
  · rcases consumeUrl_closed hplain htext hmem with ⟨url, spaces, rfl, hspaces, heq⟩ | heq
    · rw [heq] at htokens
      rw [htokens, readsAlike, Bool.and_eq_true] at hreads
      have htrim : trim url = url := beq_iff_eq.mp hreads.1
      refine ⟨[.url url], htokens, fun target htarget _ => (List.mem_append.mp htarget).imp (fun hmem => ?_) id⟩
      rw [trim_append htrim fun c hc => isWhitespace_of_ascii (hspaces c hc)]
      exact List.mem_singleton.mp hmem
    · rw [heq] at htokens
      exact ⟨[.badUrl], htokens, fun target htarget _ => .inr htarget⟩

/-! ## Imports -/

/-- What the scanner does with what follows `@import` and whitespace. -/
def importStep : Text → Step Empty CssFinding Char
  | [] => .halt [.incomplete]
  | q :: more =>
    if isQuote q then
      match splitOnce [q] more with
      | none => .halt [.incomplete]
      | some (value, rest) => .next (found value) rest
    else if cssKeywordAt (q :: more) "url".toList then .next [] (q :: more)
    else .halt [.incomplete]

theorem cssStep_import {cs : Text} (himport : imports '@' cs) : cssStep (before ++ '@' :: cs) ('@' :: cs) =
    importStep (skipAsciiWhitespace (cs.drop "import".toList.length)) := by
  unfold imports at himport
  rw [cssStep, himport]
  rfl

theorem imports_of_name (hname : Name name rest) (himport : lower name = "import".toList) : imports '@' (name ++ rest) ∧
    (name ++ rest).drop "import".toList.length = rest := by
  have hlength : name.length = "import".toList.length := by rw [← himport, lower, List.length_map]
  have hdrop : (name ++ rest).drop "import".toList.length = rest := by rw [← hlength, List.drop_left]
  refine ⟨?_, hdrop⟩
  have hkeyword : cssKeywordAt (name ++ rest) "import".toList := by
    rw [cssKeywordAt, ← hlength, List.take_left, himport]
    exact beq_self_eq_true _
  have hboundary : cssTokenBoundary rest.head? := by
    have hstop := hname.stop
    unfold cssTokenBoundary
    cases hhead : rest.head? with
    | none => rfl
    | some c =>
      rw [hhead] at hstop
      cases hc : cssNameByte c with
      | false => simp [hc]
      | true => simp [isIdent_of_cssNameByte hc] at hstop
  rw [imports, hkeyword, hdrop, hboundary]
  rfl

theorem not_imports_of_name (hname : Name name rest) (hplain : Plain (name ++ rest)) (himport : lower name ≠ "import".toList) :
    imports '@' (name ++ rest) = false := by
  cases h : imports '@' (name ++ rest) with
  | false => rfl
  | true =>
    simp only [imports, Bool.and_eq_true] at h
    obtain ⟨start, more, rfl, hlower, hdrop⟩ := name_keyword hname import_letters h.1.2
    cases more with
    | nil => exact absurd (by simpa using hlower) himport
    | cons c cs =>
      have hc := cssNameByte_of_ident (hname.chars c (List.mem_append_right start List.mem_cons_self))
        (hplain.nul c (by simp))
      have hboundary := h.2
      rw [hdrop] at hboundary
      simp [cssTokenBoundary, hc] at hboundary

theorem nextString_letter {more : Text} (hplain : Plain (c :: more)) (hc : isIdentStart c) :
    nextString (tokens (c :: more)) = [] := by
  obtain ⟨hquote, -⟩ := ident_quote (isIdent_of_start hc)
  obtain ⟨token, rest, hfirst, htokens⟩ := tokens_first hplain
  rw [htokens]
  cases hfirst with
  | whitespace heq hspace =>
    cases heq
    rw [isIdent_not_space (isIdent_of_start hc)] at hspace
    cases hspace
  | string heq hc' =>
    cases heq
    exact absurd hc' (by rw [show isQuoteMark c = false from hquote]; exact Bool.false_ne_true)
  | unclosed heq hc' =>
    cases heq
    exact absurd hc' (by rw [show isQuoteMark c = false from hquote]; exact Bool.false_ne_true)
  | url heq hname hurl hquoted =>
    rename_i argument
    rcases consumeUrl_token argument with hurl | ⟨value, hurl⟩
    · rw [hurl]
      rfl
    · rw [hurl]
      rfl
  | _ => rfl

theorem covered_import (hname : Name name rest) (himport : lower name = "import".toList)
    (hplain : Plain ('@' :: (name ++ rest)))
    (htokens : tokens ('@' :: (name ++ rest)) = .atKeyword name :: tokens rest)
    (ih : ∀ after last, last.length ≤ rest.length → Plain last → Synced after last → Covered after last) :
    Covered before ('@' :: (name ++ rest)) := by
  obtain ⟨himports, hdrop⟩ := imports_of_name hname himport
  have hstep : cssStep (before ++ '@' :: (name ++ rest)) ('@' :: (name ++ rest)) = importStep (skipAsciiWhitespace rest) := by
    rw [cssStep_import himports, hdrop]
  have hgivesUp : importStep (skipAsciiWhitespace rest) = .halt [.incomplete] → Covered before ('@' :: (name ++ rest)) := by
    intro hhalt hcomplete
    rw [scan_halt (hstep.trans hhalt)] at hcomplete
    exact absurd List.mem_cons_self hcomplete
  have hplainRest : Plain rest := hplain.tail.right
  have hskip := List.takeWhile_append_dropWhile (p := isAsciiWhitespace) (l := rest)
  have hlength := skipAsciiWhitespace_length rest
  obtain ⟨spaces, hspaces, hrest⟩ := tokens_spaces hplainRest
  change _ ++ skipAsciiWhitespace rest = rest at hskip
  change tokens rest = spaces ++ tokens (skipAsciiWhitespace rest) at hrest
  have hplainFollow : Plain (skipAsciiWhitespace rest) := hplainRest.dropWhile _
  cases hfollow : skipAsciiWhitespace rest with
  | nil => exact hgivesUp (by rw [hfollow]; rfl)
  | cons q more =>
    rw [hfollow] at hstep hgivesUp hskip hlength hrest hplainFollow
    rw [List.length_cons] at hlength
    by_cases hquote : isQuote q
    · cases hsplit : splitOnce [q] more with
      | none => exact hgivesUp (by rw [importStep, if_pos hquote, hsplit])
      | some result =>
        obtain ⟨value, last⟩ := result
        have hlt := splitOnce_length (by simp) hsplit
        obtain ⟨rfl, hmem⟩ := splitOnce_single_some hsplit
        rw [importStep, if_pos hquote, hsplit] at hstep
        refine Covered.of fun _ hreads => ?_
        rw [htokens] at hreads
        obtain ⟨spaces', hspaces', hstring⟩ := quoted_tokens hplainRest (readsAlike_append (a := [.atKeyword name]) hreads)
          hquote hfollow hmem
        have hparts : '@' :: (name ++ rest) =
            ('@' :: name ++ rest.takeWhile isAsciiWhitespace ++ q :: value ++ [q]) ++ last := by
          conv_lhs => rw [← hskip]
          simp
        have hq : cssNameByte q = false := by
          cases hq : cssNameByte q with
          | false => rfl
          | true =>
            rw [(ident_quote (isIdent_of_cssNameByte hq)).1] at hquote
            cases hquote
        have hlast := ih (before ++ ('@' :: name ++ rest.takeWhile isAsciiWhitespace ++ q :: value ++ [q])) last (by omega)
          hplainFollow.tail.right.tail (by rw [← List.append_assoc]; exact synced_snoc hq)
        refine hlast.step (scan_next hparts hstep)
          (show tokens ('@' :: (name ++ rest)) = (Token.atKeyword name :: (spaces' ++ [Token.string value])) ++ tokens last by
            rw [htokens, hstring]; simp) fun target htarget hne => ?_
        have htail : targets (spaces' ++ [Token.string value] ++ tokens last) = targets (tokens last) :=
          ((silent_spaces hspaces').append (silent_one fun _ => rfl)) (tokens last)
        rw [List.cons_append, targets, htail] at htarget
        refine (List.mem_append.mp htarget).imp (fun hmem => ?_) id
        rw [Token.target, if_pos himport, List.append_assoc, nextString_spaces hspaces'] at hmem
        obtain rfl : target = value := List.mem_singleton.mp hmem
        unfold found
        rw [if_neg (by simpa using hne)]
        exact List.mem_singleton.mpr rfl
    · by_cases hkeyword : cssKeywordAt (q :: more) "url".toList
      · rw [importStep, if_neg hquote, if_pos hkeyword] at hstep
        have hletter : isIdentStart q := by simpa using keyword_head (k := 'u') rfl (by decide) hkeyword
        have hne : rest.takeWhile isAsciiWhitespace ≠ [] := by
          intro hnone
          rw [hnone, List.nil_append] at hskip
          have hstop := hname.stop
          rw [← hskip] at hstop
          simp [isIdent_of_start hletter] at hstop
        have hparts : '@' :: (name ++ rest) = ('@' :: name ++ rest.takeWhile isAsciiWhitespace) ++ q :: more := by
          conv_lhs => rw [← hskip]
          simp
        have hsynced : Synced (before ++ ('@' :: name ++ rest.takeWhile isAsciiWhitespace)) (q :: more) := by
          rw [← List.append_assoc]
          refine synced_part hne fun d hd => ?_
          have hspace := List.mem_takeWhile_imp (List.mem_of_getLast? hd)
          cases hd' : cssNameByte d with
          | false => rfl
          | true =>
            rw [isIdent_not_space (isIdent_of_cssNameByte hd')] at hspace
            cases hspace
        have hlast := ih _ (q :: more) (by rw [List.length_cons]; omega) hplainFollow hsynced
        refine hlast.step (scan_next hparts hstep)
          (show tokens ('@' :: (name ++ rest)) = (.atKeyword name :: spaces) ++ tokens (q :: more) by
            rw [htokens, hrest]; rfl) fun target htarget _ => .inr ?_
        rw [List.cons_append, targets, targets_spaces hspaces, Token.target, if_pos himport, nextString_spaces hspaces,
          nextString_letter hplainFollow hletter, List.nil_append] at htarget
        exact htarget
      · exact hgivesUp (by rw [importStep, if_neg hquote, if_neg hkeyword])

end

end LpStudio.StaticExport
