import LpStudio.Markup.Agreement

/-! # Agreement of the two attribute parsers
On input the parser of `static_export.rs` accepts, the parser of `change_set.rs` reads the same
attributes, but it ends an unquoted value at its first `/` and reads what follows as attribute names.
-/
namespace LpStudio.Markup
open Str Scanning

/-- The name of the attribute at `input`. -/
def attributeName (input : Text) : Text :=
  lower ((trimStart input).takeWhile (!StaticExport.nameEnd ·))

/-- An unquoted value with a `/` in it follows the attribute name in front of `input`. -/
def slashValue (input : Text) : Bool :=
  match trimStart input with
  | '=' :: rest =>
    match trimStart rest with
    | [] => false
    | c :: cs =>
      !(c == '\'' || c == '"') && ((c :: cs).takeWhile (!isWhitespace ·)).contains '/'
  | _ => false

/-- The attribute at `input` has an unquoted value with a `/` in it. -/
def unquotedSlash (input : Text) : Bool :=
  slashValue ((trimStart input).dropWhile (!StaticExport.nameEnd ·))

/-- The value that the strict parser reads at `input`. -/
def valueAt (sourcePath input : Text) : Option Text :=
  match StaticExport.attributeStep sourcePath input with
  | .next out _ => out.head?.map Prod.snd
  | _ => none

/-! ## One attribute -/

theorem badNameChar_slash {name : Text} (h : name.any StaticExport.badNameChar = false) :
    ∀ c ∈ name, c ≠ '/' ∧ c ≠ '>' := by
  intro c hc
  have := List.any_eq_false.mp h c hc
  constructor <;> rintro rfl <;> exact this (by decide)

theorem nameEnd_strict {c : Char} (h : (!ChangeSet.nameEnd c) = true) : (!StaticExport.nameEnd c) = true := by
  simp only [ChangeSet.nameEnd, StaticExport.nameEnd, Bool.not_eq_true', Bool.or_eq_false_iff] at h ⊢
  exact h.1.1

/-- Where the strict parser reads a name, the lenient one reads the same name. -/
theorem name_agree {input : Text}
    (hne : (trimStart input).takeWhile (!StaticExport.nameEnd ·) ≠ [])
    (hgood : ((trimStart input).takeWhile (!StaticExport.nameEnd ·)).any StaticExport.badNameChar = false) :
    input.dropWhile (fun c => isWhitespace c || c == '/') = trimStart input ∧
    (trimStart input).takeWhile (!ChangeSet.nameEnd ·) =
      (trimStart input).takeWhile (!StaticExport.nameEnd ·) ∧
    (trimStart input).dropWhile (!ChangeSet.nameEnd ·) =
      (trimStart input).dropWhile (!StaticExport.nameEnd ·) := by
  have hchars := badNameChar_slash hgood
  refine ⟨?_, split_congr (fun _ => nameEnd_strict) ?_⟩
  · refine dropWhile_mono_eq (p := isWhitespace) (fun a ha => by simp [ha]) ?_
    intro a ha
    change a ∈ (trimStart input).head? at ha
    cases htrim : trimStart input with
    | nil => rw [htrim] at ha; cases ha
    | cons c cs =>
      rw [htrim] at ha hne hchars
      obtain rfl : c = a := by simpa using ha
      cases hend : StaticExport.nameEnd c with
      | true => simp [hend] at hne
      | false =>
        have hslash := (hchars c (by simp [hend])).1
        simp only [StaticExport.nameEnd, Bool.or_eq_false_iff] at hend
        simp [hend.1, hslash]
  · intro c hc
    have hend := List.mem_takeWhile_imp hc
    have := hchars c hc
    simp only [StaticExport.nameEnd, Bool.not_or, Bool.and_eq_true] at hend
    simp [ChangeSet.nameEnd, this, hend.1]
    simpa using hend.2

/-- A character of an unquoted value the strict parser accepts. -/
def valueChar (c : Char) : Prop := isWhitespace c = false ∧ StaticExport.badValueChar c = false

theorem valueChar_ne {c : Char} (h : valueChar c) : c ≠ '>' ∧ c ≠ '=' := by
  constructor <;> rintro rfl <;> exact absurd h.2 (by decide)

/-- The values agree, up to the cut at a `/`. -/
theorem attributeValue_agree {input value rest : Text}
    (h : StaticExport.attributeValue input = some (value, rest)) :
    (slashValue input = false ∧ ChangeSet.attributeValue input = (value, rest)) ∨
    (slashValue input = true ∧ '/' ∈ value ∧ (∀ c ∈ value, valueChar c) ∧
      (∀ c ∈ rest.head?, isWhitespace c = true) ∧
      ChangeSet.attributeValue input =
        (value.takeWhile (· != '/'), value.dropWhile (· != '/') ++ rest)) := by
  simp only [StaticExport.attributeValue] at h
  split at h
  · rename_i tail heq
    split at h
    · rename_i hnil
      cases h
      exact .inl (by simp [slashValue, ChangeSet.attributeValue, heq, hnil])
    · rename_i c cs hcs
      split at h
      · rename_i hquote
        refine .inl ⟨?_, by simp [ChangeSet.attributeValue, heq, hcs, hquote, h]⟩
        rcases hquote with rfl | rfl <;> simp [slashValue, heq, hcs]
      · rename_i hquote
        split at h
        · cases h
        · rename_i hgood
          simp only [Option.some.injEq, Prod.mk.injEq] at h
          obtain ⟨hvalue, hrest⟩ := h
          have hchars : ∀ d ∈ value, valueChar d := by
            intro d hd
            rw [← hvalue] at hd
            have hbad := List.any_eq_false.mp (Bool.eq_false_of_not_eq_true hgood) d hd
            exact ⟨by simpa using List.mem_takeWhile_imp hd, Bool.eq_false_of_not_eq_true hbad⟩
          have hwhole : c :: cs = value ++ rest := by
            rw [← hvalue, ← hrest, List.takeWhile_append_dropWhile]
          have hspace : ∀ d ∈ rest.head?, isWhitespace d = true := by
            intro d hd
            have := List.head?_dropWhile_not (!isWhitespace ·) (c :: cs)
            rw [hrest, Option.mem_def.mp hd] at this
            simpa using this
          have hread : ChangeSet.attributeValue input =
              ((c :: cs).takeWhile (!ChangeSet.valueEnd ·),
                (c :: cs).dropWhile (!ChangeSet.valueEnd ·)) := by
            simp only [ChangeSet.attributeValue, heq, hcs, hquote, ↓reduceIte]
          have hslash : slashValue input = value.contains '/' := by
            have : (c == '\'' || c == '"') = false := by simpa using hquote
            simp only [slashValue, heq, hcs, this, Bool.not_false, Bool.true_and, hvalue]
          have hpre : ∀ d ∈ value.takeWhile (· != '/'), (!ChangeSet.valueEnd d) = true := by
            intro d hd
            have hd' := hchars d (List.takeWhile_subset _ hd)
            have hne := List.mem_takeWhile_imp hd
            simp only [bne_iff_ne] at hne
            simp [ChangeSet.valueEnd, hd'.1, hne, (valueChar_ne hd').1]
          have hsplit : value.takeWhile (· != '/') ++ (value.dropWhile (· != '/') ++ rest) = c :: cs := by
            rw [← List.append_assoc, List.takeWhile_append_dropWhile, hwhole]
          have hstop : ∀ d ∈ (value.dropWhile (· != '/') ++ rest).head?,
              (!ChangeSet.valueEnd d) = false := by
            intro d hd
            cases hdrop : value.dropWhile (· != '/') with
            | nil =>
              rw [hdrop, List.nil_append] at hd
              simp [ChangeSet.valueEnd, hspace d hd]
            | cons e es =>
              have := List.head?_dropWhile_not (· != '/') value
              rw [hdrop] at this
              rw [hdrop] at hd
              obtain rfl : e = d := by simpa using hd
              simp [ChangeSet.valueEnd, by simpa using this]
          obtain ⟨htake, hdrop⟩ := takeWhile_append_stop hpre hstop
          rw [hsplit] at htake hdrop
          rw [hread, htake, hdrop, hslash]
          by_cases hcontains : value.contains '/' = true
          · exact .inr ⟨hcontains, by simpa using hcontains, hchars, hspace, rfl⟩
          · refine .inl ⟨Bool.eq_false_of_not_eq_true hcontains, ?_⟩
            have hall : ∀ d ∈ value, (d != '/') = true := by
              intro d hd
              simp only [bne_iff_ne, ne_eq]
              rintro rfl
              exact hcontains (by simpa using hd)
            obtain ⟨ht, hd⟩ := takeWhile_append_stop (r := []) hall (by simp)
            simp only [List.append_nil] at ht hd
            rw [ht, hd, List.nil_append]
  · rename_i hne
    cases h
    refine .inl ⟨?_, ?_⟩
    · simp only [slashValue]
    · simp only [ChangeSet.attributeValue]

theorem strict_next {sourcePath input rest : Text} {out : List (Text × Text)}
    (h : StaticExport.attributeStep sourcePath input = .next out rest) :
    ∃ value, out = [(attributeName input, value)] ∧
      (trimStart input).takeWhile (!StaticExport.nameEnd ·) ≠ [] ∧
      ((trimStart input).takeWhile (!StaticExport.nameEnd ·)).any StaticExport.badNameChar = false ∧
      StaticExport.attributeValue ((trimStart input).dropWhile (!StaticExport.nameEnd ·)) =
        some (value, rest) := by
  simp only [StaticExport.attributeStep] at h
  split at h
  · cases h
  split at h
  · cases h
  rename_i hname
  obtain ⟨hne, hgood⟩ := not_or.mp hname
  split at h
  · cases h
  rename_i value rest' hvalue
  simp only [Step.next.injEq] at h
  obtain ⟨rfl, rfl⟩ := h
  exact ⟨value, rfl, hne, Bool.eq_false_of_not_eq_true hgood, hvalue⟩

theorem strict_halt {sourcePath input : Text} {out : List (Text × Text)}
    (h : StaticExport.attributeStep sourcePath input = .halt out) :
    out = [] ∧ ChangeSet.attributeStep input = .halt [] := by
  simp only [StaticExport.attributeStep] at h
  split at h
  · rename_i hend
    cases h
    have hdrop : input.dropWhile (fun c => isWhitespace c || c == '/') = [] := by
      have hsplit := List.takeWhile_append_dropWhile (p := isWhitespace) (l := input)
      change _ ++ trimStart input = _ at hsplit
      rw [List.dropWhile_eq_nil_iff, ← hsplit]
      intro c hc
      rcases List.mem_append.mp hc with hc | hc
      · simp [List.mem_takeWhile_imp hc]
      · rcases hend with hend | hend
        · rw [hend] at hc; cases hc
        · rw [hend] at hc
          simp [List.mem_singleton.mp hc]
    exact ⟨rfl, by simp [ChangeSet.attributeStep, hdrop]⟩
  split at h
  · cases h
  split at h <;> cases h

/-- What the lenient parser does where the strict one reads an attribute. -/
theorem lenient_next {sourcePath input rest : Text} {out : List (Text × Text)}
    (h : StaticExport.attributeStep sourcePath input = .next out rest) :
    (unquotedSlash input = false ∧ ChangeSet.attributeStep input = .next out rest) ∨
    ∃ value, unquotedSlash input = true ∧ out = [(attributeName input, value)] ∧
      '/' ∈ value ∧ (∀ c ∈ value, valueChar c) ∧ (∀ c ∈ rest.head?, isWhitespace c = true) ∧
      ChangeSet.attributeStep input =
        .next [(attributeName input, value.takeWhile (· != '/'))]
          (value.dropWhile (· != '/') ++ rest) := by
  obtain ⟨value, rfl, hne, hgood, hvalue⟩ := strict_next h
  obtain ⟨htrim, htake, hdrop⟩ := name_agree hne hgood
  have hread : ChangeSet.attributeStep input =
      .next [(attributeName input, (ChangeSet.attributeValue
        ((trimStart input).dropWhile (!StaticExport.nameEnd ·))).1)]
        (ChangeSet.attributeValue ((trimStart input).dropWhile (!StaticExport.nameEnd ·))).2 := by
    simp only [ChangeSet.attributeStep, htrim, htake, hdrop, hne, ↓reduceIte, attributeName]
  rcases attributeValue_agree hvalue with ⟨hslash, heq⟩ | ⟨hslash, hmem, hchars, hspace, heq⟩
  · exact .inl ⟨hslash, by rw [hread, heq]⟩
  · exact .inr ⟨value, hslash, rfl, hmem, hchars, hspace, by rw [hread, heq]⟩

/-! ## Whole attribute lists -/

/-- Without unquoted values holding a `/`, the parsers agree. -/
theorem parseAttributes_agree {sourcePath input : Text} {attributes : List (Text × Text)}
    (hok : StaticExport.parseAttributes sourcePath input = .ok attributes)
    (hplain : ∀ u, Visits (StaticExport.attributeStep sourcePath) input u → unquotedSlash u = false) :
    ChangeSet.parseAttributes input = attributes := by
  have hsame : List.Forall₂ Eq attributes (ChangeSet.parseAttributes input) := by
    refine run_inStep (StaticExport.attributeStep_productive sourcePath)
      ChangeSet.attributeStep_productive input ?_ hok
    intro u hu
    refine .inl ?_
    cases hs : StaticExport.attributeStep sourcePath u with
    | halt out =>
      obtain ⟨rfl, hstop⟩ := strict_halt hs
      rw [hstop]; exact .halt .nil
    | fail error => exact .fail
    | next out rest =>
      rcases lenient_next hs with ⟨-, hl⟩ | ⟨_, hslash, -⟩
      · rw [hl]; exact .next (List.forall₂_refl out)
      · rw [hplain u hu] at hslash; cases hslash
  exact (List.forall₂_eq_eq_eq ▸ hsame).symm

/-- No attribute that the strict parser reads has an unquoted value with a `/` in it. -/
def Uncut (sourcePath input : Text) : Prop :=
  ∀ u, Visits (StaticExport.attributeStep sourcePath) input u → unquotedSlash u = false

instance (sourcePath input : Text) : Decidable (Uncut sourcePath input) :=
  decidable_of_iff (∀ u ∈ trail (StaticExport.attributeStep sourcePath) input, unquotedSlash u = false)
    (by simp only [mem_trail (StaticExport.attributeStep_productive sourcePath)]; rfl)

theorem takeWhile_ne_self {value : Text} (hmem : '/' ∈ value) : value.takeWhile (· != '/') ≠ value := by
  intro heq
  rw [← heq] at hmem
  have := List.mem_takeWhile_imp hmem
  simp at this

theorem halt_uncut {sourcePath input : Text} {out : List (Text × Text)}
    (h : StaticExport.attributeStep sourcePath input = .halt out) : unquotedSlash input = false := by
  simp only [StaticExport.attributeStep] at h
  split at h
  · rename_i hend
    rcases hend with hend | hend
    · simp only [unquotedSlash, hend]
      rfl
    · simp only [unquotedSlash, hend]
      rfl
  split at h
  · cases h
  split at h <;> cases h

/-- A cut shows at its place in the list: up to there the lists agree, and the lenient value is shorter. -/
theorem uncut_of_agree {sourcePath input : Text} {attributes : List (Text × Text)}
    (hok : StaticExport.parseAttributes sourcePath input = .ok attributes)
    (hsame : ChangeSet.parseAttributes input = attributes) : Uncut sourcePath input := by
  have hp := StaticExport.attributeStep_productive sourcePath
  have hp' := ChangeSet.attributeStep_productive
  induction input using induct hp generalizing attributes with
  | _ input ih =>
  intro u hu
  cases hs : StaticExport.attributeStep sourcePath input with
  | halt out =>
    cases hu with
    | here => exact halt_uncut hs
    | next hs' _ =>
      rw [hs] at hs'
      cases hs'
  | fail error =>
    rw [StaticExport.parseAttributes, run_fail hs] at hok
    cases hok
  | next out rest =>
    obtain ⟨more, hmore, rfl⟩ := run_next_ok hp hs hok
    rcases lenient_next hs with ⟨hplain, hl⟩ | ⟨value, -, rfl, hmem, -, -, hl⟩
    · rw [ChangeSet.parseAttributes, collect_next hp' hl, List.append_cancel_left_eq] at hsame
      cases hu with
      | here => exact hplain
      | next hs' hu =>
        rw [hs] at hs'
        cases hs'
        exact ih out rest hs hmore hsame u hu
    · -- the lists differ at this attribute
      rw [ChangeSet.parseAttributes, collect_next hp' hl, List.singleton_append, List.singleton_append] at hsame
      have hhead := (List.cons.inj hsame).1
      exact absurd (Prod.mk.inj hhead).2 (takeWhile_ne_self hmem)

/-- The parsers agree exactly where the lenient one cuts no value. -/
theorem parseAttributes_agree_iff_uncut {sourcePath input : Text} {attributes : List (Text × Text)}
    (hok : StaticExport.parseAttributes sourcePath input = .ok attributes) :
    ChangeSet.parseAttributes input = attributes ↔ Uncut sourcePath input :=
  ⟨uncut_of_agree hok, parseAttributes_agree hok⟩

theorem parseAttributes_agree_iff_uncut_quoted :
    ChangeSet.parseAttributes " src='a/b' async /".toList =
      [("src".toList, "a/b".toList), ("async".toList, [])] := by
  have hok : StaticExport.parseAttributes "index.html".toList " src='a/b' async /".toList =
      .ok [("src".toList, "a/b".toList), ("async".toList, [])] := by decide
  exact (parseAttributes_agree_iff_uncut hok).mpr (by decide)

/-- The value `a/b` is read as `a`, and `b` as an attribute of its own. -/
theorem parseAttributes_cuts_value :
    StaticExport.parseAttributes "index.html".toList " href=a/b".toList =
      .ok [("href".toList, "a/b".toList)] ∧
    ChangeSet.parseAttributes " href=a/b".toList = [("href".toList, "a".toList), ("b".toList, [])] ∧
    StaticExport.parseAttributes "index.html".toList " href=a/b".toList ≠
      .ok (ChangeSet.parseAttributes " href=a/b".toList) := by
  decide

/-- What the lenient parser reads of the rest of a cut value: names without values. -/
theorem collect_remainder {keep : Text × Text → Bool} (hkeep : ∀ name, keep (name, []) = false)
    {w rest : Text} (hw : ∀ c ∈ w, valueChar c) (hspace : ∀ c ∈ rest.head?, isWhitespace c = true)
    (heq : (trimStart rest).head? ≠ some '=') :
    (ChangeSet.parseAttributes (w ++ rest)).filter keep =
      (ChangeSet.parseAttributes rest).filter keep := by
  have hp := ChangeSet.attributeStep_productive
  induction hn : w.length using Nat.strong_induction_on generalizing w with
  | _ n ih =>
  subst hn
  have hdrop : (w ++ rest).dropWhile (fun c => isWhitespace c || c == '/') =
      if w.dropWhile (· == '/') = [] then rest.dropWhile (fun c => isWhitespace c || c == '/')
      else w.dropWhile (· == '/') ++ rest := by
    have hslash : w.dropWhile (fun c => isWhitespace c || c == '/') = w.dropWhile (· == '/') := by
      refine dropWhile_mono_eq (fun a ha => by simp_all) ?_
      intro a ha
      have hmem : a ∈ w := (List.dropWhile_sublist _).subset (List.mem_of_mem_head? ha)
      have hne := List.head?_dropWhile_not (· == '/') w
      rw [Option.mem_def.mp ha] at hne
      simp [(hw a hmem).1, by simpa using hne]
    rw [List.dropWhile_append, hslash]
    simp [List.isEmpty_iff]
  by_cases hslashes : w.dropWhile (· == '/') = []
  · -- only slashes: the turn is the one at `rest`
    rw [if_pos hslashes] at hdrop
    have : ChangeSet.attributeStep (w ++ rest) = ChangeSet.attributeStep rest := by
      simp only [ChangeSet.attributeStep, hdrop]
    simp only [ChangeSet.parseAttributes, collect_congr hp this]
  · rw [if_neg hslashes] at hdrop
    generalize hw' : w.dropWhile (· == '/') = w' at hslashes hdrop
    have hlen : w'.length ≤ w.length := hw' ▸ (List.dropWhile_sublist _).length_le
    have hchars : ∀ c ∈ w', valueChar c := by
      intro c hc
      exact hw c (List.dropWhile_subset _ (hw' ▸ hc))
    have hhead : w'.head? ≠ some '/' := by
      intro h
      have := List.head?_dropWhile_not (· == '/') w
      rw [hw', h] at this
      cases this
    -- the name ends at the next slash, or with the value
    have hend : ∀ c, valueChar c → c ≠ '/' → (!ChangeSet.nameEnd c) = true := by
      intro c hc hne
      simp [ChangeSet.nameEnd, hc.1, (valueChar_ne hc).1, (valueChar_ne hc).2, hne]
    generalize hname : w'.takeWhile (!ChangeSet.nameEnd ·) = name
    generalize hmore : w'.dropWhile (!ChangeSet.nameEnd ·) = more
    have hsplit : name ++ more = w' := by rw [← hname, ← hmore, List.takeWhile_append_dropWhile]
    have hmoreHead : ∀ c ∈ more.head?, c = '/' := by
      intro c hc
      have hstop := List.head?_dropWhile_not (!ChangeSet.nameEnd ·) w'
      rw [hmore, Option.mem_def.mp hc] at hstop
      replace hstop : (!ChangeSet.nameEnd c) = false := hstop
      by_contra hne
      have hmem : c ∈ w' := hsplit ▸ List.mem_append_right _ (List.mem_of_mem_head? hc)
      rw [hend c (hchars c hmem) hne] at hstop
      cases hstop
    have hne : name ≠ [] := by
      cases w' with
      | nil => exact absurd rfl hslashes
      | cons c cs =>
        have hc : c ≠ '/' := by rintro rfl; exact hhead rfl
        rw [← hname, List.takeWhile_cons, hend c (hchars c (by simp)) hc]
        simp
    have hstop : ∀ c ∈ (more ++ rest).head?, (!ChangeSet.nameEnd c) = false := by
      intro c hc
      cases more with
      | nil => simp [ChangeSet.nameEnd, hspace c hc]
      | cons d ds =>
        obtain rfl : d = c := by simpa using hc
        rw [hmoreHead d (by simp)]; rfl
    have hnameChars : ∀ c ∈ name, (!ChangeSet.nameEnd c) = true := by
      intro c hc
      rw [← hname] at hc
      exact List.mem_takeWhile_imp (p := (!ChangeSet.nameEnd ·)) hc
    obtain ⟨htake, hleft⟩ := takeWhile_append_stop hnameChars hstop
    rw [← List.append_assoc, hsplit] at htake hleft
    have hstep : ChangeSet.attributeStep (w ++ rest) =
        .next [(lower name, (ChangeSet.attributeValue (more ++ rest)).1)]
          (ChangeSet.attributeValue (more ++ rest)).2 := by
      simp only [ChangeSet.attributeStep, hdrop, htake, hleft, hne, ↓reduceIte]
    have hdropped : ∀ {more' : Text}, ChangeSet.attributeValue (more ++ rest) = ([], more') →
        (ChangeSet.parseAttributes (w ++ rest)).filter keep =
          (ChangeSet.parseAttributes more').filter keep := by
      intro more' hvalue
      rw [hvalue] at hstep
      simp only [ChangeSet.parseAttributes, collect_next hp hstep, List.singleton_append,
        List.filter_cons, hkeep, Bool.false_eq_true, ↓reduceIte]
    cases more with
    | nil =>
      have hvalue : ChangeSet.attributeValue ([] ++ rest) = ([], trimStart rest) := by
        simp only [List.nil_append, ChangeSet.attributeValue]
        split
        · rename_i h; rw [h] at heq; exact absurd rfl heq
        · rfl
      have htrim : ChangeSet.attributeStep (trimStart rest) = ChangeSet.attributeStep rest := by
        have : (trimStart rest).dropWhile (fun c => isWhitespace c || c == '/') =
            rest.dropWhile (fun c => isWhitespace c || c == '/') :=
          dropWhile_absorb fun c hc => by simp [hc]
        simp only [ChangeSet.attributeStep, this]
      rw [hdropped hvalue]
      simp only [ChangeSet.parseAttributes, collect_congr hp htrim]
    | cons d ds =>
      obtain rfl : d = '/' := hmoreHead d (by simp)
      have hvalue : ChangeSet.attributeValue ('/' :: ds ++ rest) = ([], '/' :: ds ++ rest) := by
        simp only [List.cons_append, ChangeSet.attributeValue, trimStart_cons_not (c := '/') rfl]
        rfl
      rw [hdropped hvalue]
      refine ih ('/' :: ds).length ?_ ?_ rfl
      · have hpos := List.length_pos_iff.mpr hne
        have := congrArg List.length hsplit
        simp only [List.length_append] at this
        omega
      · intro c hc
        exact hchars c (hsplit ▸ List.mem_append_right _ hc)

theorem strict_rest {sourcePath rest : Text} {more : List (Text × Text)}
    (hok : StaticExport.parseAttributes sourcePath rest = .ok more) :
    (trimStart rest).head? ≠ some '=' := by
  intro h
  cases htrim : trimStart rest with
  | nil => rw [htrim] at h; cases h
  | cons c cs =>
    obtain rfl : c = '=' := by rw [htrim] at h; simpa using h
    have hfail : StaticExport.attributeStep sourcePath rest = .fail (.malformedMarkup sourcePath) := by
      simp [StaticExport.attributeStep, htrim, StaticExport.nameEnd]
    rw [StaticExport.parseAttributes, run_fail hfail] at hok
    cases hok

/-- The attributes worth keeping agree when none of them is cut, nor is what a cut leaves of another. -/
theorem parseAttributes_filter {sourcePath input : Text} {attributes : List (Text × Text)}
    {keep : Text × Text → Bool} (hkeep : ∀ name, keep (name, []) = false)
    (hok : StaticExport.parseAttributes sourcePath input = .ok attributes)
    (hcut : ∀ u, Visits (StaticExport.attributeStep sourcePath) input u → unquotedSlash u = true →
      ∀ value ∈ valueAt sourcePath u, keep (attributeName u, value) = false ∧
        keep (attributeName u, value.takeWhile (· != '/')) = false) :
    (ChangeSet.parseAttributes input).filter keep = attributes.filter keep := by
  have hp := StaticExport.attributeStep_productive sourcePath
  have hp' := ChangeSet.attributeStep_productive
  induction input using induct hp generalizing attributes with
  | _ input ih =>
  cases hs : StaticExport.attributeStep sourcePath input with
  | halt out =>
    obtain ⟨rfl, hstop⟩ := strict_halt hs
    rw [StaticExport.parseAttributes, run_halt hs] at hok
    cases hok
    rw [ChangeSet.parseAttributes, collect_halt hstop]
  | fail error =>
    rw [StaticExport.parseAttributes, run_fail hs] at hok
    cases hok
  | next out rest =>
    obtain ⟨more, hmore, rfl⟩ := run_next_ok hp hs hok
    have hrest := ih out rest hs hmore fun u hu => hcut u (.next hs hu)
    rcases lenient_next hs with ⟨-, hl⟩ | ⟨value, hslash, rfl, -, hchars, hspace, hl⟩
    · rw [ChangeSet.parseAttributes, collect_next hp' hl, List.filter_append, List.filter_append]
      rw [ChangeSet.parseAttributes] at hrest
      rw [hrest]
    · have hvalue : valueAt sourcePath input = some value := by
        unfold valueAt
        rw [hs]
        rfl
      have hdead := hcut input (.here _) hslash value hvalue
      have heq := strict_rest hmore
      have hchars' : ∀ c ∈ value.dropWhile (· != '/'), valueChar c :=
        fun c hc => hchars c (List.dropWhile_subset _ hc)
      have hjunk := collect_remainder hkeep hchars' hspace heq
      rw [ChangeSet.parseAttributes] at hjunk
      rw [ChangeSet.parseAttributes, collect_next hp' hl, List.filter_append, hjunk, hrest,
        List.filter_append]
      simp [hdead]

end LpStudio.Markup
