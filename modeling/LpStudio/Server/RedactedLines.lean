import LpStudio.Server.Redaction

/-! # Redaction is a fixed point
A redacted text has nothing left to redact: no token, and no line with a sensitive name and a separator but those that
end in the marker. A redaction that reports nothing has changed nothing.
-/
namespace LpStudio.Server.Redaction
open Str Masking

def isSeparator (c : Char) : Bool := c == '=' || c == ':'

/-- A sensitive name stands in the line, in any case of its letters. -/
def isSensitive (line : Text) : Bool := sensitiveNames.any (contains · (lower line))

/-! ## The passes over the prefixes -/

section
variable {stop : Char → Bool} {gap : Text} {p : Pattern}

/-- Where there is no token, the loop replaces none. -/
theorem maskFrom_idle {fuel : ℕ} {t : Text} (h : p.hasToken stop t = false) : (p.maskFrom stop gap fuel t).2 = false := by
  induction fuel generalizing t with
  | zero => rfl
  | succ fuel ih =>
    rw [Pattern.maskFrom]
    split
    · rfl
    · rename_i before token hfind
      obtain ⟨rfl, hoccurs, hne, -⟩ := find_some hfind
      have htoken := hasToken_of_append h
      split
      · rw [← List.take_append_drop p.start.length token] at htoken
        exact ih (hasToken_of_append htoken)
      · rename_i hlong
        obtain ⟨c, rest, rfl⟩ := List.exists_cons_of_ne_nil hne
        rw [Pattern.hasToken, Pattern.headToken, hoccurs, Bool.eq_false_iff.mpr hlong] at htoken
        cases htoken

theorem mask_idle {t : Text} (h : p.hasToken stop t = false) : (p.mask stop gap t).1 = t :=
  maskFrom_unchanged (maskFrom_idle h)

end

theorem maskTokens_idle {patterns : List (Pattern × Text)} {t : Text}
    (h : ∀ entry ∈ patterns, entry.1.hasToken isDelimiter t = false) : (maskTokens patterns t).1 = t := by
  induction patterns with
  | nil => rfl
  | cons entry rest ih =>
    rw [maskTokens_cons, mask_idle (h entry List.mem_cons_self)]
    exact ih fun other hother => h other (List.mem_cons_of_mem _ hother)

theorem maskTokens_unlabelled {patterns : List (Pattern × Text)} {t : Text} (h : (maskTokens patterns t).2 = []) :
    (maskTokens patterns t).1 = t := by
  induction patterns generalizing t with
  | nil => rfl
  | cons entry rest ih =>
    rw [maskTokens] at h ⊢
    dsimp only at h ⊢
    by_cases hmasked : (entry.1.mask isDelimiter marker t).2 = true
    · rw [if_pos hmasked] at h
      cases h
    · simp only [if_neg hmasked] at h ⊢
      exact ih h

/-! ## One line -/

theorem contains_append {pat t : Text} (s : Text) (h : contains pat t = true) : contains pat (t ++ s) = true := by
  induction t with
  | nil =>
    have hnil : pat = [] := by
      by_contra hne
      rw [contains, splitOnce, if_neg hne] at h
      cases h
    subst hnil
    cases s <;> rfl
  | cons c t ih =>
    rw [contains, splitOnce] at h
    rw [List.cons_append, contains, splitOnce]
    split
    · rfl
    · rename_i hno
      rw [if_neg fun hhead => hno ?_, Option.isSome_map] at h
      · rw [Option.isSome_map]
        exact ih h
      · rw [List.isPrefixOf_iff_prefix] at hhead ⊢
        exact hhead.trans (List.prefix_append (c :: t) s)

theorem isSensitive_append {line : Text} (s : Text) (h : isSensitive line = true) : isSensitive (line ++ s) = true := by
  obtain ⟨name, hname, hcontains⟩ := List.any_eq_true.mp h
  refine List.any_eq_true.mpr ⟨name, hname, ?_⟩
  rw [lower, List.map_append]
  exact contains_append _ hcontains

/-- What ends a line, if anything does. -/
def lineEnd (line : Text) : Text := if line.getLast? = some '\n' then ['\n'] else []

theorem separators : (fun c : Char => c != '=' && c != ':') = fun c => !isSeparator c := by
  funext c
  rw [isSeparator, Bool.not_or]
  rfl

theorem redactLine_plain {line : Text} (h : ∀ c ∈ line, isSeparator c = false) : redactLine line = (line, false) := by
  have hnone : line.dropWhile (fun c => !isSeparator c) = [] :=
    List.dropWhile_eq_nil_iff.mpr fun c hc => congrArg not (h c hc)
  unfold redactLine
  simp only [separators, hnone]

/-- A line is split at its first separator. -/
theorem redactLine_split {before rest : Text} {separator : Char} (hbefore : ∀ c ∈ before, isSeparator c = false)
    (hseparator : isSeparator separator = true) : redactLine (before ++ separator :: rest) =
      if isSensitive (before ++ separator :: rest) then
        (before ++ separator :: (marker ++ lineEnd (before ++ separator :: rest)), true)
      else (before ++ separator :: rest, false) := by
  have hkept : ∀ c ∈ before, (!isSeparator c) = true := fun c hc => congrArg not (hbefore c hc)
  have hstop : ¬(!isSeparator separator) = true := Bool.eq_false_iff.mp (congrArg not hseparator)
  unfold redactLine
  rw [separators, List.takeWhile_append_of_pos hkept, List.dropWhile_append_of_pos hkept,
    List.takeWhile_cons, if_neg hstop, List.dropWhile_cons, if_neg hstop, List.append_nil]
  rfl

theorem plain_or_split (line : Text) : (∀ c ∈ line, isSeparator c = false) ∨
    ∃ before separator rest, line = before ++ separator :: rest ∧ (∀ c ∈ before, isSeparator c = false) ∧
      isSeparator separator = true := by
  induction line with
  | nil => exact Or.inl fun c hc => absurd hc List.not_mem_nil
  | cons c line ih =>
    cases hc : isSeparator c with
    | true => exact Or.inr ⟨[], c, line, rfl, fun d hd => absurd hd List.not_mem_nil, hc⟩
    | false =>
      rcases ih with hplain | ⟨before, separator, rest, rfl, hbefore, hseparator⟩
      · exact Or.inl (List.forall_mem_cons.mpr ⟨hc, hplain⟩)
      · exact Or.inr ⟨c :: before, separator, rest, rfl, List.forall_mem_cons.mpr ⟨hc, hbefore⟩, hseparator⟩

theorem lineEnd_redacted (before line : Text) (separator : Char) :
    lineEnd (before ++ separator :: (marker ++ lineEnd line)) = lineEnd line := by
  have hlast : ∀ tail : Text, tail ≠ [] → (before ++ separator :: tail).getLast? = tail.getLast? := by
    intro tail htail
    rw [List.getLast?_append_of_ne_nil _ (List.cons_ne_nil _ _), List.getLast?_cons_of_ne_nil htail]
  have hend : (marker ++ lineEnd line).getLast? = some '\n' ↔ line.getLast? = some '\n' := by
    rw [lineEnd]
    split
    · rename_i hnewline
      exact iff_of_true (List.getLast?_concat) hnewline
    · rename_i hnone
      rw [List.append_nil]
      exact iff_of_false (by decide) hnone
  have hmarker : marker ≠ [] := by decide
  rw [lineEnd, hlast _ (List.append_ne_nil_of_left_ne_nil hmarker _)]
  conv_rhs => rw [lineEnd]
  simp only [hend]

/-- A redacted line is redacted to itself. -/
theorem redactLine_final (line : Text) : (redactLine (redactLine line).1).1 = (redactLine line).1 := by
  rcases plain_or_split line with hplain | ⟨before, separator, rest, rfl, hbefore, hseparator⟩
  · rw [redactLine_plain hplain]
    rw [redactLine_plain hplain]
  · rw [redactLine_split hbefore hseparator]
    split
    · dsimp only
      rw [redactLine_split hbefore hseparator, lineEnd_redacted]
      split <;> rfl
    · rename_i hsafe
      dsimp only
      rw [redactLine_split hbefore hseparator, if_neg hsafe]

theorem redactLine_unmarked {line : Text} (h : (redactLine line).2 = false) : (redactLine line).1 = line := by
  rcases plain_or_split line with hplain | ⟨before, separator, rest, rfl, hbefore, hseparator⟩
  · rw [redactLine_plain hplain]
  · rw [redactLine_split hbefore hseparator] at h ⊢
    split at h
    · cases h
    · rename_i hsafe
      rw [if_neg hsafe]

/-! ## Line by line -/

/-- A line with a sensitive name and a separator shows nothing behind the first separator. -/
def Hidden (line : Text) : Prop :=
  isSensitive line = true → (∃ c ∈ line, isSeparator c = true) → ∃ before separator,
    (∀ c ∈ before, isSeparator c = false) ∧ isSeparator separator = true ∧ line = before ++ separator :: marker

theorem marker_line : '\n' ∉ marker := by
  unfold marker
  rw [String.toList_ofList]
  decide

theorem lineEnd_ended {body ending : Text} (h : '\n' ∉ body) (hend : ending = [] ∨ ending = ['\n']) :
    lineEnd (body ++ ending) = ending := by
  rcases hend with rfl | rfl
  · rw [List.append_nil, lineEnd, if_neg fun hlast => h (List.mem_of_getLast? hlast)]
  · rw [lineEnd, if_pos List.getLast?_concat]

/-- A line is redacted to a line. -/
theorem redactLine_ended {body ending : Text} (h : '\n' ∉ body) (hend : ending = [] ∨ ending = ['\n']) :
    ∃ shown, '\n' ∉ shown ∧ Hidden shown ∧ (redactLine (body ++ ending)).1 = shown ++ ending := by
  have hending : ∀ c ∈ ending, isSeparator c = false := by
    rcases hend with rfl | rfl
    · exact List.forall_mem_nil _
    · exact List.forall_mem_singleton.mpr rfl
  rcases plain_or_split body with hplain | ⟨before, separator, rest, rfl, hbefore, hseparator⟩
  · have hall := List.forall_mem_append.mpr ⟨hplain, hending⟩
    refine ⟨body, h, fun _ hfound => ?_, by rw [redactLine_plain hall]⟩
    obtain ⟨c, hc, hcut⟩ := hfound
    rw [hplain c hc] at hcut
    cases hcut
  · have hlineEnd := lineEnd_ended h hend
    rw [List.append_assoc, List.cons_append] at hlineEnd ⊢
    rw [redactLine_split hbefore hseparator, hlineEnd]
    by_cases hsensitive : isSensitive (before ++ separator :: (rest ++ ending)) = true
    · refine ⟨before ++ separator :: marker, fun hmem => ?_, fun _ _ => ⟨before, separator, hbefore, hseparator, rfl⟩, ?_⟩
      · rw [List.mem_append, List.mem_cons] at h hmem
        rcases hmem with hmem | rfl | hmem
        · exact h (Or.inl hmem)
        · cases hseparator
        · exact marker_line hmem
      · rw [if_pos hsensitive, List.append_assoc]
        rfl
    · refine ⟨before ++ separator :: rest, h, fun hshown => ?_, ?_⟩
      · have hagain := isSensitive_append ending hshown
        rw [List.append_assoc, List.cons_append] at hagain
        exact absurd hagain hsensitive
      · rw [if_neg hsensitive, List.append_assoc, List.cons_append]

/-- A text is its last line, or a line and a text. -/
@[elab_as_elim]
theorem lines_induct {motive : Text → Prop} (last : ∀ body, '\n' ∉ body → motive body)
    (line : ∀ body rest, '\n' ∉ body → motive rest → motive (body ++ '\n' :: rest)) (t : Text) : motive t := by
  induction hlength : t.length using Nat.strong_induction_on generalizing t with
  | _ n ih =>
    by_cases hmem : '\n' ∈ t
    · obtain ⟨body, rest, rfl, hbody⟩ := List.eq_append_cons_of_mem hmem
      refine line body rest hbody (ih rest.length ?_ rest rfl)
      rw [← hlength, List.length_append, List.length_cons]
      omega
    · exact last t hmem

theorem splitInclusive_line {body : Text} (h : '\n' ∉ body) (rest : Text) :
    splitInclusive (body ++ '\n' :: rest) = (body ++ ['\n']) :: splitInclusive rest := by
  induction body with
  | nil => rw [List.nil_append, splitInclusive, if_pos rfl, List.nil_append]
  | cons c body ih =>
    rw [List.mem_cons, not_or] at h
    rw [List.cons_append, splitInclusive, if_neg (Ne.symm h.1), ih h.2, List.cons_append]

theorem splitInclusive_last {body : Text} (h : '\n' ∉ body) (hne : body ≠ []) : splitInclusive body = [body] := by
  induction body with
  | nil => exact absurd rfl hne
  | cons c body ih =>
    rw [List.mem_cons, not_or] at h
    rw [splitInclusive, if_neg (Ne.symm h.1)]
    cases body with
    | nil => rfl
    | cons d body => rw [ih h.2 (List.cons_ne_nil d body)]

/-- The pass over the lines. -/
def redactLines (t : Text) : Text := ((splitInclusive t).map redactLine).flatMap (·.1)

theorem redactLines_line {body : Text} (h : '\n' ∉ body) (rest : Text) :
    redactLines (body ++ '\n' :: rest) = (redactLine (body ++ ['\n'])).1 ++ redactLines rest := by
  rw [redactLines, splitInclusive_line h, List.map_cons, List.flatMap_cons, redactLines]

theorem redactLines_last {body : Text} (h : '\n' ∉ body) : redactLines body = (redactLine body).1 := by
  by_cases hne : body = []
  · subst hne
    rfl
  · rw [redactLines, splitInclusive_last h hne, List.map_cons, List.map_nil, List.flatMap_singleton]

theorem redactLines_final (t : Text) : redactLines (redactLines t) = redactLines t := by
  induction t using lines_induct with
  | last body h =>
    obtain ⟨shown, hshown, -, heq⟩ := redactLine_ended h (Or.inl rfl)
    rw [List.append_nil, List.append_nil] at heq
    have hfinal := redactLine_final body
    rw [redactLines_last h, heq, redactLines_last hshown]
    rwa [heq] at hfinal
  | line body rest h ih =>
    obtain ⟨shown, hshown, -, heq⟩ := redactLine_ended h (Or.inr rfl)
    have hfinal := redactLine_final (body ++ ['\n'])
    rw [heq] at hfinal
    rw [redactLines_line h, heq, List.append_assoc, List.singleton_append, redactLines_line hshown, hfinal, ih,
      List.append_assoc, List.singleton_append]

theorem redactLines_hidden (t : Text) : ∀ line ∈ (redactLines t).splitOn '\n', Hidden line := by
  induction t using lines_induct with
  | last body h =>
    obtain ⟨shown, hshown, hhidden, heq⟩ := redactLine_ended h (Or.inl rfl)
    rw [List.append_nil, List.append_nil] at heq
    rw [redactLines_last h, heq, List.splitOn_eq_singleton hshown, List.forall_mem_singleton]
    exact hhidden
  | line body rest h ih =>
    obtain ⟨shown, hshown, hhidden, heq⟩ := redactLine_ended h (Or.inr rfl)
    rw [redactLines_line h, heq, List.append_assoc, List.singleton_append,
      List.splitOn_append_cons_self_of_not_mem hshown, List.forall_mem_cons]
    exact ⟨hhidden, ih⟩

theorem redactLines_unmarked {t : Text} (h : ((splitInclusive t).map redactLine).filter (·.2) = []) :
    redactLines t = t := by
  have hall : ∀ line ∈ splitInclusive t, (redactLine line).1 = line := by
    intro line hline
    rw [List.filter_eq_nil_iff, List.forall_mem_map] at h
    exact redactLine_unmarked (Bool.eq_false_iff.mpr (h line hline))
  rw [redactLines, List.flatMap_def, List.map_map]
  conv_rhs => rw [← splitInclusive_flatten t, ← List.map_id (splitInclusive t)]
  exact congrArg List.flatten (List.map_congr_left hall)

/-- The redaction of a text has no token left; its lines with a sensitive name show nothing behind their first separator;
redacting it again changes nothing; and a redaction without labels is the text itself. -/
theorem redaction_final (t : Text) :
    Redacted (redactSensitiveText t).1 ∧
      (∀ line ∈ (redactSensitiveText t).1.splitOn '\n', Hidden line) ∧
      (redactSensitiveText (redactSensitiveText t).1).1 = (redactSensitiveText t).1 ∧
      ((redactSensitiveText t).2 = [] → (redactSensitiveText t).1 = t) := by
  have hlines : ∀ t, (redactSensitiveText t).1 = redactLines (maskTokens tokenPrefixes t).1 := redactSensitiveText_fst
  have hredacted := redactSensitiveText_redacted t
  refine ⟨hredacted, ?_, ?_, fun hlabels => ?_⟩
  · rw [hlines]
    exact redactLines_hidden _
  · rw [hlines, maskTokens_idle hredacted, hlines, redactLines_final]
  · have hall : ∀ label, label ∉ (maskTokens tokenPrefixes t).2 ++
        (((splitInclusive (maskTokens tokenPrefixes t).1).map redactLine).filter (·.2)).map
          fun _ => "credential_assignment".toList := by
      intro label hlabel
      have hmem : label ∈ (redactSensitiveText t).2 := by
        rw [redactSensitiveText]
        exact mem_sorted.mpr hlabel
      rw [hlabels] at hmem
      exact absurd hmem List.not_mem_nil
    obtain ⟨htokens, hassignments⟩ := List.append_eq_nil_iff.mp (List.eq_nil_iff_forall_not_mem.mpr hall)
    rw [hlines, redactLines_unmarked (List.map_eq_nil_iff.mp hassignments)]
    exact maskTokens_unlabelled htokens

end LpStudio.Server.Redaction
