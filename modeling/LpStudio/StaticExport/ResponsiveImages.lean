import LpStudio.Lib.Srcset
import LpStudio.StaticExport.StyleSheets

/-! # `srcset_references` beside the parsing algorithm
`srcset_references` cuts the value at every comma, the algorithm only at commas that end a URL or stand outside the
parentheses of a descriptor. Each candidate of the algorithm is cut by itself, and it is read right if it is not cut.
-/
namespace LpStudio.StaticExport
open Str Scanning Srcset

/-- A URL that is not cut. -/
def plainUrl (url : Text) : Bool := url.all fun c => c != ',' && !isWhitespace c

/-- Nothing but the URL of the candidate stands in front of its commas, and nothing but white space behind them. -/
def separated (candidate : Candidate) : Bool :=
  plainUrl candidate.url && (candidate.text.splitOn ',').tail.all (·.all isWhitespace)

/-- The candidate is made up of white space and commas. -/
def blank (candidate : Candidate) : Bool := (candidate.text.splitOn ',').all (·.all isWhitespace)

/-- `split_whitespace().next()`, which is empty where there is none. -/
def firstWord (piece : Text) : Text := (trimStart piece).takeWhile (!isWhitespace ·)

def firstWords (pieces : List Text) : List Text := (pieces.map firstWord).filter (!List.isEmpty ·)

section
variable {value text url piece before rest : Text} {pieces : List Text} {candidate : Candidate} {c : Char}

/-! ## Pieces -/

theorem srcsetReferences_eq (value : Text) : srcsetReferences value = firstWords (value.splitOn ',') := rfl

theorem not_mem_of_splitOn {t : Text} (h : piece ∈ t.splitOn c) : c ∉ piece := by
  induction hn : t.length using Nat.strong_induction_on generalizing t with
  | _ n ih =>
  subst hn
  by_cases hc : c ∈ t
  · obtain ⟨before, after, rfl, hbefore⟩ := List.eq_append_cons_of_mem hc
    rw [List.splitOn_append_cons_self_of_not_mem hbefore] at h
    rcases List.mem_cons.mp h with rfl | h
    · exact hbefore
    · refine ih after.length ?_ h rfl
      rw [List.length_append, List.length_cons]
      omega
  · rw [List.splitOn_eq_singleton hc, List.mem_singleton] at h
    rw [h]
    exact hc

theorem firstWord_nil_iff : firstWord piece = [] ↔ piece.all isWhitespace = true := by
  rw [List.all_eq_true, ← List.dropWhile_eq_nil_iff]
  change (trimStart piece).takeWhile _ = [] ↔ trimStart piece = []
  constructor
  · intro hnil
    cases htrim : trimStart piece with
    | nil => rfl
    | cons c rest =>
      have hstop := List.head?_dropWhile_not isWhitespace piece
      have hrest : piece.dropWhile isWhitespace = c :: rest := htrim
      rw [hrest] at hstop
      have hspace : isWhitespace c = false := hstop
      rw [htrim, List.takeWhile_cons, hspace] at hnil
      cases hnil
  · intro hnil
    rw [hnil]
    rfl

theorem firstWords_nil_iff : firstWords pieces = [] ↔ pieces.all (·.all isWhitespace) = true := by
  simp only [firstWords, List.filter_eq_nil_iff, List.forall_mem_map, Bool.not_eq_true', Bool.not_eq_false,
    List.isEmpty_iff, firstWord_nil_iff, List.all_eq_true (l := pieces)]

/-- A word of the references holds neither a comma nor white space. -/
theorem srcsetReferences_plain {reference : Text} (h : reference ∈ srcsetReferences value) :
    plainUrl reference = true ∧ reference ≠ [] := by
  rw [srcsetReferences_eq, firstWords, List.mem_filter] at h
  obtain ⟨hmem, hne⟩ := h
  obtain ⟨piece, hpiece, rfl⟩ := List.mem_map.mp hmem
  refine ⟨List.all_eq_true.mpr fun c hc => ?_, by simpa using hne⟩
  have hspace : (!isWhitespace c) = true := List.mem_takeWhile_imp (p := (!isWhitespace ·)) hc
  have hpieceMem : c ∈ piece := (List.dropWhile_sublist _).subset ((List.takeWhile_sublist _).subset hc)
  have hcomma : c ≠ ',' := by
    rintro rfl
    exact not_mem_of_splitOn hpiece hpieceMem
  rw [hspace, Bool.and_true]
  exact bne_iff_ne.mpr hcomma

theorem srcsetReferences_comma (before rest : Text) :
    srcsetReferences (before ++ ',' :: rest) = srcsetReferences before ++ srcsetReferences rest := by
  rw [srcsetReferences_eq, List.splitOn_append_cons_self, firstWords, List.map_append, List.filter_append]
  rfl

theorem srcsetReferences_space (h : isWhitespace c = true) : srcsetReferences (c :: rest) = srcsetReferences rest := by
  have hcomma : ¬(c == ',') = true := by
    intro heq
    rw [eq_of_beq heq] at h
    cases h
  rw [srcsetReferences_eq, srcsetReferences_eq, List.splitOn_cons_eq_if_modifyHead, if_neg hcomma]
  obtain ⟨first, others, hsplit⟩ := List.exists_cons_of_ne_nil (List.splitOn_ne_nil ',' rest)
  have hfirst : firstWord (c :: first) = firstWord first := by
    rw [firstWord, trimStart, List.dropWhile_cons_of_pos h]
    rfl
  rw [hsplit, List.modifyHead_cons, firstWords, firstWords, List.map_cons, List.map_cons, hfirst]

theorem srcsetReferences_skip (value : Text) :
    srcsetReferences (value.dropWhile fun c => isAsciiWhitespace c || c == ',') = srcsetReferences value := by
  induction value with
  | nil => rfl
  | cons c value ih =>
    by_cases hspace : isAsciiWhitespace c = true
    · rw [List.dropWhile_cons_of_pos (by rw [hspace]; rfl), ih, srcsetReferences_space (isWhitespace_of_ascii hspace)]
    by_cases hcomma : c = ','
    · rw [List.dropWhile_cons_of_pos (by rw [hcomma]; rfl), ih, hcomma]
      exact (srcsetReferences_comma [] value).symm
    · rw [List.dropWhile_cons_of_neg]
      simp [hspace, hcomma]

/-! ## Candidates -/

theorem srcsetReferences_flatMap (value : Text) :
    srcsetReferences value = (candidates value).flatMap fun candidate => srcsetReferences candidate.text := by
  induction value using induct candidateStep_productive with
  | _ value ih =>
  cases hs : candidateStep value with
  | fail e => exact e.elim
  | halt found =>
    rw [candidates_halt hs, ← srcsetReferences_skip, (candidateStep_halt hs).2]
    rfl
  | next found rest =>
    obtain ⟨candidate, rfl, htaken⟩ := candidateStep_next hs
    rw [candidates_next hs, List.flatMap_cons, ← ih _ rest hs, ← srcsetReferences_skip]
    rcases htaken.parts with heq | ⟨heq, rfl⟩
    · rw [heq, srcsetReferences_comma]
    · rw [heq]
      exact (List.append_nil _).symm

theorem plainUrl_chars (h : plainUrl url = true) : ∀ c ∈ url, c ≠ ',' ∧ isWhitespace c = false := by
  intro c hc
  have := List.all_eq_true.mp h c hc
  simpa using this

/-- A URL that is not cut is the first word of its candidate. -/
theorem srcsetReferences_url {more : Text} (hplain : plainUrl url = true) (hne : url ≠ [])
    (hmore : ∀ c ∈ more.head?, c = ',' ∨ isAsciiWhitespace c = true) :
    srcsetReferences (url ++ more) = url :: firstWords ((url ++ more).splitOn ',').tail := by
  have hchars := plainUrl_chars hplain
  have hword : ∀ spaces : Text, (∀ c ∈ spaces.head?, isWhitespace c = true) → firstWord (url ++ spaces) = url := by
    intro spaces hspaces
    have hstart : trimStart (url ++ spaces) = url ++ spaces := by
      obtain ⟨c, cs, rfl⟩ := List.exists_cons_of_ne_nil hne
      exact trimStart_cons_not (hchars c List.mem_cons_self).2
    rw [firstWord, hstart]
    refine (takeWhile_append_stop (fun c hc => ?_) fun c hc => ?_).1
    · rw [(hchars c hc).2]
      rfl
    · rw [hspaces c hc]
      rfl
  have hfirst : ∃ spaces others, (url ++ more).splitOn ',' = (url ++ spaces) :: others ∧
      ∀ c ∈ spaces.head?, isWhitespace c = true := by
    have hurl : ',' ∉ url := fun hmem => (hchars ',' hmem).1 rfl
    by_cases hcomma : ',' ∈ more
    · obtain ⟨before, after, rfl, hbefore⟩ := List.eq_append_cons_of_mem hcomma
      refine ⟨before, after.splitOn ',', ?_, fun c hc => ?_⟩
      · rw [← List.append_assoc, List.splitOn_append_cons_self_of_not_mem]
        exact List.not_mem_append hurl hbefore
      · have hhead : c ∈ (before ++ ',' :: after).head? := by
          rw [List.head?_append, Option.mem_def.mp hc]
          rfl
        rcases hmore c hhead with rfl | hspace
        · exact absurd (List.mem_of_mem_head? hc) hbefore
        · exact isWhitespace_of_ascii hspace
    · refine ⟨more, [], List.splitOn_eq_singleton (List.not_mem_append hurl hcomma), fun c hc => ?_⟩
      rcases hmore c hc with rfl | hspace
      · exact absurd (List.mem_of_mem_head? hc) hcomma
      · exact isWhitespace_of_ascii hspace
  obtain ⟨spaces, others, hsplit, hspaces⟩ := hfirst
  rw [srcsetReferences_eq, hsplit, firstWords, List.map_cons, hword spaces hspaces, List.filter_cons_of_pos]
  · rfl
  · simpa using hne

/-! ## The whole value -/

theorem candidates_shape (value : Text) : ∀ candidate ∈ candidates value, candidate.url ≠ [] ∧
    ∃ more, candidate.text = candidate.url ++ more ∧ ∀ c ∈ more.head?, c = ',' ∨ isAsciiWhitespace c = true := by
  refine forall_collect candidateStep_productive ?_ ?_ value
  · intro rest found hs
    rw [(candidateStep_halt hs).1]
    exact fun candidate hcandidate => absurd hcandidate List.not_mem_nil
  · intro u found rest hs
    obtain ⟨candidate, rfl, htaken⟩ := candidateStep_next hs
    exact List.forall_mem_singleton.mpr ⟨htaken.url, htaken.text⟩

/-- How often a candidate is read at least: once, if its URL is not cut. -/
def plainCount (candidate : Candidate) : ℕ := if plainUrl candidate.url then 1 else 0

theorem plainCount_le (hcandidate : candidate ∈ candidates value) :
    plainCount candidate ≤ (srcsetReferences candidate.text).length := by
  obtain ⟨hne, more, htext, hmore⟩ := candidates_shape value candidate hcandidate
  unfold plainCount
  split
  · next hplain =>
    rw [htext, srcsetReferences_url hplain hne hmore, List.length_cons]
    omega
  · exact Nat.zero_le _

theorem separated_iff (hcandidate : candidate ∈ candidates value) :
    separated candidate = true ↔ srcsetReferences candidate.text = [candidate.url] := by
  obtain ⟨hne, more, htext, hmore⟩ := candidates_shape value candidate hcandidate
  rw [separated, Bool.and_eq_true]
  constructor
  · rintro ⟨hplain, hblank⟩
    rw [htext] at hblank ⊢
    rw [srcsetReferences_url hplain hne hmore, firstWords_nil_iff.mpr hblank]
  · intro hwords
    have hmem : candidate.url ∈ srcsetReferences candidate.text := by
      rw [hwords]
      exact List.mem_singleton_self _
    have hplain : plainUrl candidate.url = true := (srcsetReferences_plain hmem).1
    rw [htext, srcsetReferences_url hplain hne hmore, List.cons.injEq] at hwords
    rw [htext]
    exact ⟨hplain, firstWords_nil_iff.mp hwords.2⟩

theorem blank_iff : blank candidate = true ↔ srcsetReferences candidate.text = [] := firstWords_nil_iff.symm

theorem plainCount_sum (l : List Candidate) : ((l.map (·.url)).filter plainUrl).length = (l.map plainCount).sum := by
  induction l with
  | nil => rfl
  | cons candidate l ih =>
    rw [List.map_cons, List.map_cons, List.sum_cons, List.filter_cons, ← ih, plainCount]
    split
    · rw [List.length_cons, Nat.add_comm]
    · rw [Nat.zero_add]

theorem flatMap_sublist_map {α β : Type} {f : α → List β} {g : α → β} {l : List α} (h : ∀ a ∈ l, f a = [g a] ∨ f a = []) :
    (l.flatMap f).Sublist (l.map g) := by
  induction l with
  | nil => exact List.Sublist.slnil
  | cons a l ih =>
    obtain ⟨ha, hl⟩ := List.forall_mem_cons.mp h
    rw [List.flatMap_cons, List.map_cons]
    rcases ha with ha | ha
    · rw [ha]
      exact (ih hl).cons_cons (g a)
    · rw [ha]
      exact (ih hl).cons (g a)

/-- What is read is whole URLs, one for a candidate at most, exactly if no candidate is cut. -/
theorem sublist_iff : (srcsetReferences value).Sublist ((candidates value).map (·.url)) ↔
    ∀ candidate ∈ candidates value, separated candidate = true ∨ plainUrl candidate.url = false ∧ blank candidate = true := by
  constructor
  · intro hsublist
    have hreferences : (srcsetReferences value).filter plainUrl = srcsetReferences value :=
      List.filter_eq_self.mpr fun reference hreference => (srcsetReferences_plain hreference).1
    have hplain := hsublist.filter plainUrl
    rw [hreferences] at hplain
    have hcounts : ((candidates value).map fun candidate => (srcsetReferences candidate.text).length).sum ≤
        ((candidates value).map plainCount).sum := by
      have hlength := hplain.length_le
      rw [srcsetReferences_flatMap, List.length_flatMap] at hlength
      exact hlength.trans (Nat.le_of_eq (plainCount_sum _))
    intro candidate hcandidate
    have hequal : (srcsetReferences candidate.text).length = plainCount candidate := by
      by_contra hne
      have hlt : plainCount candidate < (srcsetReferences candidate.text).length :=
        Nat.lt_of_le_of_ne (plainCount_le hcandidate) (Ne.symm hne)
      have hsum := List.sum_lt_sum (l := candidates value) plainCount
        (fun candidate => (srcsetReferences candidate.text).length) (fun c hc => plainCount_le hc) ⟨candidate, hcandidate, hlt⟩
      omega
    obtain ⟨hne, more, htext, hmore⟩ := candidates_shape value candidate hcandidate
    rw [separated_iff hcandidate, blank_iff]
    cases hurl : plainUrl candidate.url with
    | false =>
      rw [plainCount, hurl] at hequal
      exact .inr ⟨rfl, List.length_eq_zero_iff.mp hequal⟩
    | true =>
      rw [plainCount, hurl, htext, srcsetReferences_url hurl hne hmore, List.length_cons] at hequal
      rw [htext, srcsetReferences_url hurl hne hmore]
      simp only [↓reduceIte, Nat.add_eq_right, List.length_eq_zero_iff] at hequal
      exact .inl (by rw [hequal])
  · intro hcandidates
    rw [srcsetReferences_flatMap]
    refine flatMap_sublist_map fun candidate hcandidate => ?_
    rcases hcandidates candidate hcandidate with hseparated | ⟨-, hblank⟩
    · exact .inl ((separated_iff hcandidate).mp hseparated)
    · exact .inr (blank_iff.mp hblank)

theorem srcsetReferences_candidates (negative : Text → Bool) (value : Text) :
    ((∀ url ∈ parse negative value, url ∈ srcsetReferences value) ∧
      (srcsetReferences value).Sublist ((candidates value).map (·.url))) ↔
    ∀ candidate ∈ candidates value, separated candidate = true ∨
      validDescriptors negative candidate.descriptors = false ∧ blank candidate = true := by
  rw [sublist_iff]
  constructor
  · rintro ⟨hreturned, hcut⟩ candidate hcandidate
    rcases hcut candidate hcandidate with hseparated | ⟨hplain, hblank⟩
    · exact .inl hseparated
    · refine .inr ⟨Bool.eq_false_of_not_eq_true fun hvalid => ?_, hblank⟩
      have hparse : candidate.url ∈ parse negative value :=
        List.mem_map.mpr ⟨candidate, List.mem_filter.mpr ⟨hcandidate, hvalid⟩, rfl⟩
      rw [(srcsetReferences_plain (hreturned _ hparse)).1] at hplain
      cases hplain
  · intro hcandidates
    refine ⟨fun url hurl => ?_, fun candidate hcandidate => ?_⟩
    · obtain ⟨candidate, hmem, rfl⟩ := List.mem_map.mp hurl
      obtain ⟨hcandidate, hvalid⟩ := List.mem_filter.mp hmem
      rcases hcandidates candidate hcandidate with hseparated | ⟨hinvalid, -⟩
      · rw [srcsetReferences_flatMap]
        refine List.mem_flatMap.mpr ⟨candidate, hcandidate, ?_⟩
        rw [(separated_iff hcandidate).mp hseparated]
        exact List.mem_singleton_self _
      · rw [hvalid] at hinvalid
        cases hinvalid
    · rcases hcandidates candidate hcandidate with hseparated | ⟨-, hblank⟩
      · exact .inl hseparated
      · refine .inr ⟨Bool.eq_false_of_not_eq_true fun hplain => ?_, hblank⟩
        obtain ⟨hne, more, htext, hmore⟩ := candidates_shape value candidate hcandidate
        have hnil := blank_iff.mp hblank
        rw [htext, srcsetReferences_url hplain hne hmore] at hnil
        cases hnil

end

/-- No floating-point number without a sign is read as less than zero. -/
def signed (number : Text) : Bool := number.head? == some '-'

/-- A `data:` URL is cut at its comma, and what is behind it is taken for the path of a file. -/
theorem srcsetReferences_cuts_data :
    parse signed "data:image/png;base64,AAAA 1x".toList = ["data:image/png;base64,AAAA".toList] ∧
    srcsetReferences "data:image/png;base64,AAAA 1x".toList = ["data:image/png;base64".toList, "AAAA".toList] ∧
    "data:image/png;base64,AAAA".toList ∉ srcsetReferences "data:image/png;base64,AAAA 1x".toList := by
  decide

end LpStudio.StaticExport
