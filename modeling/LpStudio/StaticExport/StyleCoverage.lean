import LpStudio.StaticExport.StyleResources

/-! # Complete scans of style sheets
One lemma for each kind of token takes the scanner to the beginning of a later one, and by induction to the end.
-/
namespace LpStudio.StaticExport
open Str Scanning CssSyntax

section
variable {before suffix rest name : Text} {c : Char}

/-! ## The tokens that name no resource -/

theorem plainChar_of_not_letter (hletter : isAsciiAlphabetic c = false) (hquote : isQuote c = false) (hat : c ≠ '@') :
    plainChar c := by
  have hu : c.toLower ≠ 'u' := by
    intro hu
    have : isAsciiAlphabetic c := isAsciiAlphabetic_of_lower (by rw [hu]; decide)
    rw [hletter] at this
    cases this
  simp [plainChar, hquote, hat, hu]

theorem plainChar_of_space (h : isAsciiWhitespace c) : plainChar c := by
  refine plainChar_of_not_letter ?_ (not_quote rfl rfl h) ?_
  · rw [← Bool.not_eq_true]
    intro hletter
    rw [isIdent_not_space (by simp [isIdent, isIdentStart, hletter])] at h
    cases h
  · rintro rfl
    cases h

theorem plainChar_of_numeric {number : Text} (h : Numeric number) : ∀ c ∈ number, plainChar c := by
  have hstart : ∀ c ∈ numberStart, plainChar c := List.all_eq_true.mp (by decide)
  intro c hc
  rcases h.chars c hc with hdigit | hc
  · refine plainChar_of_not_letter ?_ (not_quote rfl rfl hdigit) ?_
    · rw [← Bool.not_eq_true]
      intro hletter
      simp only [isAsciiAlphabetic, isAsciiDigit, Bool.or_eq_true, Bool.and_eq_true, decide_eq_true_eq] at hletter hdigit
      omega
    · rintro rfl
      cases hdigit
  · exact hstart c hc

theorem numeric_length {number last : Text} (hnumber : Numeric number) : last.length < (number ++ last).length := by
  have := List.length_pos_iff.mpr hnumber.ne_nil
  rw [List.length_append]
  omega

/-- The scanner goes past a token without a target. -/
theorem covered_token {token : Token} {part : Text} (h : Covered (before ++ part) rest)
    (hscan : scanAfter before suffix = scanAfter (before ++ part) rest) (htokens : tokens suffix = token :: tokens rest)
    (htoken : ∀ more, token.target more = []) : Covered before suffix := by
  have hscan' : scanAfter before suffix = [] ++ scanAfter (before ++ part) rest := hscan
  exact h.silent hscan' (show tokens suffix = [token] ++ tokens rest from htokens) (silent_one htoken)

/-- What is shorter is covered wherever the scanner is in step. -/
def Shorter (suffix : Text) : Prop :=
  ∀ after last, last.length < suffix.length → Plain last → Synced after last → Covered after last

theorem covered_spaces {cs : Text} (hspace : isAsciiWhitespace c) (hplain : Plain (c :: cs)) (hless : Shorter (c :: cs))
    (htokens : tokens (c :: cs) = .whitespace :: tokens (cs.dropWhile isAsciiWhitespace)) : Covered before (c :: cs) := by
  have hall : ∀ d ∈ c :: cs.takeWhile isAsciiWhitespace, isAsciiWhitespace d := by
    intro d hd
    rcases List.mem_cons.mp hd with rfl | hd
    · exact hspace
    · exact List.mem_takeWhile_imp hd
  have hsynced : Synced (before ++ (c :: cs.takeWhile isAsciiWhitespace)) (cs.dropWhile isAsciiWhitespace) := by
    refine synced_part (List.cons_ne_nil _ _) fun d hd => ?_
    have hd := hall d (List.mem_of_getLast? hd)
    rw [← Bool.not_eq_true]
    intro hname
    rw [isIdent_not_space (isIdent_of_cssNameByte hname)] at hd
    cases hd
  have hscan : scanAfter before ((c :: cs.takeWhile isAsciiWhitespace) ++ cs.dropWhile isAsciiWhitespace) =
      scanAfter (before ++ (c :: cs.takeWhile isAsciiWhitespace)) (cs.dropWhile isAsciiWhitespace) :=
    scan_plain fun d hd => plainChar_of_space (hall d hd)
  rw [List.cons_append, List.takeWhile_append_dropWhile] at hscan
  exact covered_token (hless _ _ (Nat.lt_succ_of_le (dropWhile_length _ cs)) (hplain.tail.dropWhile _) hsynced) hscan
    htokens fun _ => rfl

theorem covered_string {value : Text} (hquote : isQuote c) (hmem : c ∉ value) (hplain : Plain (c :: (value ++ c :: rest)))
    (hless : Shorter (c :: (value ++ c :: rest)))
    (htokens : tokens (c :: (value ++ c :: rest)) = .string value :: tokens rest) :
    Covered before (c :: (value ++ c :: rest)) := by
  have hc : cssNameByte c = false := by
    rw [← Bool.not_eq_true]
    intro hname
    rw [(ident_quote (isIdent_of_cssNameByte hname)).1] at hquote
    cases hquote
  refine covered_token (hless _ rest ?_ hplain.tail.right.tail ?_) (scan_quote hquote hmem) htokens fun _ => rfl
  · rw [List.length_cons, List.length_append, List.length_cons]
    omega
  · rw [← List.append_assoc]
    exact synced_snoc hc

theorem covered_hash (hname : Name name rest) (hplain : Plain ('#' :: (name ++ rest)))
    (hless : Shorter ('#' :: (name ++ rest))) {isId : Bool}
    (htokens : tokens ('#' :: (name ++ rest)) = .hash name isId :: tokens rest) : Covered before ('#' :: (name ++ rest)) := by
  have hscan : scanAfter before ('#' :: (name ++ rest)) = scanAfter (before ++ ['#']) (name ++ rest) :=
    scan_char rfl rfl (.inr (urlArgument_none (by decide)))
  refine covered_name hname hplain.tail hscan htokens (fun _ => rfl) fun after last hle => hless after last ?_
  rw [List.length_cons, List.length_append]
  omega

theorem covered_atKeyword (hname : Name name rest) (hplain : Plain ('@' :: (name ++ rest)))
    (hless : Shorter ('@' :: (name ++ rest))) (htokens : tokens ('@' :: (name ++ rest)) = .atKeyword name :: tokens rest) :
    Covered before ('@' :: (name ++ rest)) := by
  have hshorter : ∀ after last, last.length ≤ rest.length → Plain last → Synced after last → Covered after last := by
    intro after last hle
    refine hless after last ?_
    rw [List.length_cons, List.length_append]
    omega
  by_cases himport : lower name = "import".toList
  · exact covered_import hname himport hplain htokens hshorter
  · have hscan : scanAfter before ('@' :: (name ++ rest)) = scanAfter (before ++ ['@']) (name ++ rest) :=
      scan_char rfl (not_imports_of_name hname hplain.tail himport) (.inr (urlArgument_none (by decide)))
    exact covered_name hname hplain.tail hscan htokens (fun _ => if_neg himport) hshorter

theorem covered_dimension {number unit repr : Text} (hnumber : Numeric number) (hname : Name unit rest)
    (hplain : Plain (number ++ (unit ++ rest))) (hless : Shorter (number ++ (unit ++ rest)))
    (htokens : tokens (number ++ (unit ++ rest)) = .dimension repr unit :: tokens rest) :
    Covered before (number ++ (unit ++ rest)) := by
  have hprevious : previousIsName (before ++ number) := by
    have hlast := hnumber.last
    unfold previousIsName
    rw [List.getLast?_append]
    cases hgetLast : number.getLast? with
    | none => rw [hgetLast] at hlast; cases hlast
    | some d =>
      rw [hgetLast] at hlast
      have hd : isAsciiDigit d := hlast
      simp [cssNameByte, isAsciiAlphanumeric, hd]
  have hscan : scanAfter before (number ++ (unit ++ rest)) = scanAfter (before ++ (number ++ unit)) rest := by
    rw [scan_plain (plainChar_of_numeric hnumber), scan_name hname hplain.right (.inl hprevious), List.append_assoc]
  refine covered_token (hless _ rest ?_ hplain.right.right (synced_of_name hplain.right.right hname)) hscan htokens
    fun _ => rfl
  have : (unit ++ rest).length < (number ++ (unit ++ rest)).length := numeric_length hnumber
  rw [List.length_append] at this
  omega

theorem covered_percentage {number repr : Text} (hnumber : Numeric number) (hplain : Plain (number ++ '%' :: rest))
    (hless : Shorter (number ++ '%' :: rest))
    (htokens : tokens (number ++ '%' :: rest) = .percentage repr :: tokens rest) :
    Covered before (number ++ '%' :: rest) := by
  have hpercent : scanAfter (before ++ number) ('%' :: rest) = scanAfter (before ++ number ++ ['%']) rest :=
    scan_char rfl rfl (.inr (urlArgument_none (by decide)))
  have hscan : scanAfter before (number ++ '%' :: rest) = scanAfter (before ++ (number ++ ['%'])) rest := by
    rw [scan_plain (plainChar_of_numeric hnumber), hpercent, List.append_assoc]
  refine covered_token (hless _ rest ?_ hplain.right.tail ?_) hscan htokens fun _ => rfl
  · rw [List.length_append, List.length_cons]
    omega
  · rw [← List.append_assoc]
    exact synced_snoc rfl

theorem covered_function {argument : Text} (hname : Name name ('(' :: argument)) (hurl : lower name ≠ "url".toList)
    (hplain : Plain (name ++ '(' :: argument)) (hless : Shorter (name ++ '(' :: argument))
    (htokens : tokens (name ++ '(' :: argument) = .function name :: tokens argument) :
    Covered before (name ++ '(' :: argument) := by
  have hnone : urlArgument (name ++ '(' :: argument) = none := by
    cases h : urlArgument (name ++ '(' :: argument) with
    | none => rfl
    | some argument' => exact absurd ((urlArgument_name hname).mp h).1 hurl
  have hopen : scanAfter (before ++ name) ('(' :: argument) = scanAfter (before ++ name ++ ['(']) argument :=
    scan_char rfl rfl (.inr (urlArgument_none (by decide)))
  have hscan : scanAfter before (name ++ '(' :: argument) = scanAfter (before ++ (name ++ ['('])) argument := by
    rw [scan_name hname hplain (.inr hnone), hopen, List.append_assoc]
  refine covered_token (hless _ argument ?_ hplain.right.tail ?_) hscan htokens fun _ => if_neg hurl
  · rw [List.length_append, List.length_cons]
    omega
  · rw [← List.append_assoc]
    exact synced_snoc rfl

theorem covered_cdc (hplain : Plain ('-' :: '-' :: '>' :: rest)) (hless : Shorter ('-' :: '-' :: '>' :: rest))
    (htokens : tokens ('-' :: '-' :: '>' :: rest) = .cdc :: tokens rest) : Covered before ('-' :: '-' :: '>' :: rest) := by
  have hscan : scanAfter before (['-', '-', '>'] ++ rest) = scanAfter (before ++ ['-', '-', '>']) rest :=
    scan_plain (List.all_eq_true.mp (by decide))
  refine covered_token (hless _ rest ?_ hplain.tail.tail.tail ?_) hscan htokens fun _ => rfl
  · simp only [List.length_cons]
    omega
  · refine synced_part (List.cons_ne_nil _ _) fun d hd => ?_
    cases hd
    rfl

/-- Behind `<!--` the scanner does not see a `url`, since a hyphen may be part of a name. -/
theorem covered_cdo (hplain : Plain ('<' :: '!' :: '-' :: '-' :: rest)) (hless : Shorter ('<' :: '!' :: '-' :: '-' :: rest))
    (htokens : tokens ('<' :: '!' :: '-' :: '-' :: rest) = .cdo :: tokens rest) :
    Covered before ('<' :: '!' :: '-' :: '-' :: rest) := by
  have hscan : scanAfter before (['<', '!', '-', '-'] ++ rest) = scanAfter (before ++ ['<', '!', '-', '-']) rest :=
    scan_plain (List.all_eq_true.mp (by decide))
  refine Covered.of fun _ hreads => ?_
  rw [htokens, readsAlike, Bool.and_eq_true] at hreads
  refine covered_token (hless _ rest ?_ hplain.tail.tail.tail.tail ?_) hscan htokens fun _ => rfl
  · simp only [List.length_cons]
    omega
  · intro _
    have hopens := hreads.1
    simp only [readsToken, Bool.not_eq_true'] at hopens
    exact hopens

theorem covered_symbol (hquote : isQuote c = false) (hstart : isIdentStart c = false) (hdigit : isAsciiDigit c = false)
    (hsign : c = '-' ∨ c = '@' → rest.head?.any isIdentStart = false) (hplain : Plain (c :: rest))
    (hless : Shorter (c :: rest)) (htokens : tokens (c :: rest) = .symbol c :: tokens rest) :
    Covered before (c :: rest) := by
  have himport : imports c rest = false := by
    rw [← Bool.not_eq_true]
    intro himports
    simp only [imports, Bool.and_eq_true, beq_iff_eq] at himports
    have hhead := keyword_head (k := 'i') rfl (by decide) himports.1.2
    rw [hsign (.inr himports.1.1)] at hhead
    cases hhead
  have hurl : urlArgument (c :: rest) = none := by
    cases hurl : urlArgument (c :: rest) with
    | none => rfl
    | some argument =>
      have hhead := urlArgument_head (by rw [hurl]; rfl)
      simp [hstart] at hhead
  refine covered_token (hless _ rest (Nat.lt_succ_self _) hplain.tail fun hprevious => ?_)
    (scan_char hquote himport (.inr hurl)) htokens fun _ => rfl
  have hident := isIdent_of_cssNameByte (previousIsName_snoc ▸ hprevious)
  simp only [isIdent, hstart, hdigit, Bool.false_or, beq_iff_eq] at hident
  exact synced_of_head hplain.tail (hsign (.inl hident)) hprevious

/-! ## The whole text -/

/-- The scanner finds the resources of every text that both read alike. -/
theorem covered (hplain : Plain suffix) (hsynced : Synced before suffix) : Covered before suffix := by
  induction hlength : suffix.length using Nat.strong_induction_on generalizing before suffix with
  | _ n ih =>
    have hless : Shorter suffix := fun after last hlt hp hs => ih last.length (hlength ▸ hlt) hp hs rfl
    obtain rfl | ⟨token, rest, hfirst, htokens⟩ : suffix = [] ∨ ∃ token rest, First suffix token rest ∧
        tokens suffix = token :: tokens rest := by
      cases suffix with
      | nil => exact .inl rfl
      | cons c cs => exact .inr (tokens_first hplain)
    · intro _ _ value hvalue
      rw [tokens_nil] at hvalue
      cases hvalue
    · clear ih hlength
      have hopens : opensUrl token → previousIsName before = false := by
        intro hopens
        rw [← Bool.not_eq_true]
        intro hprevious
        have := hsynced hprevious
        rw [htokens] at this
        simp [hopens] at this
      cases hfirst with
      | whitespace heq hspace =>
        subst heq
        exact covered_spaces hspace hplain hless htokens
      | string heq hquote hmem =>
        subst heq
        exact covered_string hquote hmem hplain hless htokens
      | unclosed heq hquote hmem =>
        subst heq
        intro hcomplete
        rw [scan_unclosed hquote hmem] at hcomplete
        exact absurd List.mem_cons_self hcomplete
      | badString heq hquote =>
        intro _ hreads
        rw [htokens] at hreads
        cases hreads
      | hash heq hname =>
        subst heq
        exact covered_hash hname hplain hless htokens
      | atKeyword heq hname =>
        subst heq
        exact covered_atKeyword hname hplain hless htokens
      | number heq hnumber hstop =>
        subst heq
        exact covered_token (hless _ rest (numeric_length hnumber) hplain.right (synced_of_head hplain.right hstop))
          (scan_plain (plainChar_of_numeric hnumber)) htokens fun _ => rfl
      | percentage heq hnumber =>
        subst heq
        exact covered_percentage hnumber hplain hless htokens
      | dimension heq hnumber hname =>
        subst heq
        exact covered_dimension hnumber hname hplain hless htokens
      | cdc heq =>
        subst heq
        exact covered_cdc hplain hless htokens
      | cdo heq =>
        subst heq
        exact covered_cdo hplain hless htokens
      | ident heq hname hstop =>
        subst heq
        refine covered_name hname hplain rfl htokens (fun _ => rfl) fun after last hle => hless after last ?_
        have := List.length_pos_iff.mpr hname.ne_nil
        rw [List.length_append]
        omega
      | function heq hname hurl =>
        subst heq
        exact covered_function hname hurl hplain hless htokens
      | urlFunction heq hname hurl hquoted =>
        subst heq
        refine covered_call hname hurl hplain (hopens (beq_iff_eq.mpr hurl))
          (fun hreads value last hvalue => quoted_targets hplain.right.tail hquoted hurl htokens hreads hvalue)
          fun after last hlt => hless after last ?_
        rw [List.length_append, List.length_cons]
        omega
      | url heq hname hurl hquoted =>
        subst heq
        rename_i name argument
        have hopen : opensUrl (consumeUrl argument).1 := by
          rcases consumeUrl_token argument with hurl | ⟨value, hurl⟩
          · rw [hurl]
            rfl
          · rw [hurl]
            rfl
        refine covered_call hname hurl hplain (hopens hopen)
          (fun hreads value last hvalue => unquoted_targets hplain.right.tail hquoted htokens hreads hvalue)
          fun after last hlt => hless after last ?_
        rw [List.length_append, List.length_cons]
        omega
      | symbol heq hquote hstart hdigit hsign =>
        subst heq
        exact covered_symbol hquote hstart hdigit hsign hplain hless htokens

end

/-! ## `css_references` -/

/-- A complete scan has every resource of the tokenizer; an empty value names none. -/
def FindsResources (text : Text) : Prop :=
  (cssReferences text).analysisIncomplete = false →
    ∀ value ∈ targets (tokens text), value ≠ [] → value ∈ (cssReferences text).references

theorem cssReferences_findsResources (text : Text) (hnul : ∀ c ∈ text, c.toNat ≠ 0) (hreads : readsAlike (tokens text)) :
    FindsResources text := by
  intro hcomplete value hvalue hne
  unfold cssReferences at hcomplete ⊢
  split at hcomplete
  · cases hcomplete
  · next hclean =>
    rw [if_neg hclean]
    simp only [Bool.or_eq_true, not_or] at hclean
    have hplain : Plain text := ⟨by simpa using hclean.1.1, hnul, fun h => hclean.1.2 (contains_slice h)⟩
    have hscan : scanAfter [] text = collect (cssStep text) text := rfl
    simp only [Bool.or_eq_false_iff, decide_eq_false_iff_not] at hcomplete
    have hcovered : Covered [] text := covered hplain fun hprevious => by cases hprevious
    have hfound := hcovered (hscan ▸ hcomplete.2) hreads value hvalue hne
    exact List.mem_filterMap.mpr ⟨_, hfound, rfl⟩

/-- A style sheet with both kinds of resources. -/
theorem cssReferences_findsResources_both :
    "a.css".toList ∈ (cssReferences "@import \"a.css\";b{c:url( d )}".toList).references := by
  refine cssReferences_findsResources _ (fun c hc => ?_) (by decide) (by decide) _ (by decide) (by decide)
  have hall := List.all_eq_true.mp (show "@import \"a.css\";b{c:url( d )}".toList.all (·.toNat != 0) from by decide) c hc
  exact bne_iff_ne.mp hall

/-- A string that a newline ends hides the `url()` after it up to the next quote. -/
theorem cssReferences_misses_resource : ¬ FindsResources "\"a\nurl(//x)\"".toList := by
  intro h
  have hmem := h (by decide) "//x".toList (by decide) (by decide)
  exact absurd hmem (by decide)

end LpStudio.StaticExport
