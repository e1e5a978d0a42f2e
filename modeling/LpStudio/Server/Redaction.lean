import LpStudio.Lib.Masking
import LpStudio.Lib.Json

/-! # Redaction
`redact_sensitive_text` and `redact_json_strings`, which stand between a project and an AI provider.
-/
namespace LpStudio.Server.Redaction
open Str Masking

def isDelimiter (c : Char) : Bool :=
  isWhitespace c || c ∈ ['"', '\x27', '<', '>', '(', ')', '[', ']', '\x7b', '\x7d', ',', ';']

def marker : Text := "[LP_STUDIO_REDACTED]".toList

/-- The prefixes with their minimum suffix lengths, and the labels of the redactions. -/
def tokenPrefixes : List (Pattern × Text) := [
  (⟨"sk-".toList, 5⟩, "openai_key".toList),
  (⟨"bearer ".toList, 5⟩, "bearer_token".toList),
  (⟨"ghp_".toList, 8⟩, "github_token".toList),
  (⟨"github_pat_".toList, 8⟩, "github_token".toList),
  (⟨"gho_".toList, 8⟩, "github_token".toList),
  (⟨"ghu_".toList, 8⟩, "github_token".toList),
  (⟨"ghs_".toList, 8⟩, "github_token".toList),
  (⟨"ghr_".toList, 8⟩, "github_token".toList),
  (⟨"akia".toList, 16⟩, "aws_access_key".toList),
  (⟨"asia".toList, 16⟩, "aws_access_key".toList),
  (⟨"/home/".toList, 1⟩, "absolute_path".toList),
  (⟨"/users/".toList, 1⟩, "absolute_path".toList),
  (⟨"c:\\users\\".toList, 1⟩, "absolute_path".toList)]

def sensitiveNames : List Text := [
  "api_key".toList, "apikey".toList, "api-key".toList, "password".toList, "passwd".toList, "client_secret".toList,
  "client-secret".toList, "authorization".toList, "access_key".toList, "access-key".toList, "access_key_id".toList,
  "access-key-id".toList, "secret_access_key".toList, "secret-access-key".toList, "access_token".toList,
  "access-token".toList, "auth_token".toList, "auth-token".toList, "private_key".toList, "private-key".toList,
  "github_token".toList, "github-token".toList, "token".toList]

/-- `redact_prefixed_tokens`, prefix by prefix. -/
def maskTokens : List (Pattern × Text) → Text → Text × List Text
  | [], output => (output, [])
  | (pattern, label) :: rest, output =>
    let next := pattern.mask isDelimiter marker output
    let masked := maskTokens rest (if next.2 then next.1 else output)
    (masked.1, if next.2 then label :: masked.2 else masked.2)

/-- `split_inclusive('\n')` -/
def splitInclusive : Text → List Text
  | [] => []
  | c :: t =>
    if c = '\n' then [c] :: splitInclusive t
    else match splitInclusive t with
      | [] => [[c]]
      | line :: lines => (c :: line) :: lines

/-- The value of an assignment to a sensitive name goes. -/
def redactLine (line : Text) : Text × Bool :=
  let before := line.takeWhile fun c => c != '=' && c != ':'
  match line.dropWhile fun c => c != '=' && c != ':' with
  | [] => (line, false)
  | separator :: _ =>
    if sensitiveNames.any (contains · (lower line)) then
      (before ++ separator :: (marker ++ if line.getLast? = some '\n' then ['\n'] else []), true)
    else (line, false)

/-- `redactions.sort(); redactions.dedup();` -/
def sorted (redactions : List Text) : List Text :=
  (redactions.insertionSort fun a b => compare a b ≠ .gt).dedup

def redactSensitiveText (value : Text) : Text × List Text :=
  let masked := maskTokens tokenPrefixes value
  let lines := (splitInclusive masked.1).map redactLine
  (lines.flatMap (·.1),
    sorted (masked.2 ++ (lines.filter (·.2)).map fun _ => "credential_assignment".toList))

mutual
/-- The redactions found are threaded through. -/
def redactJsonStrings : Json → List Text → Json × List Text
  | .arr items, redactions =>
    let redacted := redactItems items redactions
    (.arr redacted.1, redacted.2)
  | .obj fields, redactions =>
    let redacted := redactFields fields redactions
    (.obj redacted.1, redacted.2)
  | .str value, redactions =>
    let redacted := redactSensitiveText value
    (.str redacted.1, sorted (redactions ++ redacted.2))
  | value, redactions => (value, redactions)

def redactItems : List Json → List Text → List Json × List Text
  | [], redactions => ([], redactions)
  | item :: items, redactions =>
    let head := redactJsonStrings item redactions
    let tail := redactItems items head.2
    (head.1 :: tail.1, tail.2)

def redactFields : List (Text × Json) → List Text → List (Text × Json) × List Text
  | [], redactions => ([], redactions)
  | (name, value) :: fields, redactions =>
    let head := redactJsonStrings value redactions
    let tail := redactFields fields head.2
    ((name, head.1) :: tail.1, tail.2)
end

/-! ## Redacted texts -/

/-- No prefix with its minimum of bytes before the next delimiter. -/
def Redacted (t : Text) : Prop := ∀ entry ∈ tokenPrefixes, entry.1.hasToken isDelimiter t = false

instance (t : Text) : Decidable (Redacted t) := inferInstanceAs (Decidable (∀ entry ∈ tokenPrefixes, _))

theorem letter_not_delimiter {c : Char} (h : 65 ≤ c.toNat ∧ c.toNat ≤ 90 ∨ 97 ≤ c.toNat ∧ c.toNat ≤ 122) :
    isDelimiter c = false := by
  rw [Bool.eq_false_iff]
  intro hd
  rw [isDelimiter, Bool.or_eq_true, decide_eq_true_eq] at hd
  rcases hd with hspace | hmem
  · simp only [isWhitespace, Bool.or_eq_true, Bool.and_eq_true, decide_eq_true_eq, beq_iff_eq] at hspace
    omega
  · simp only [List.mem_cons, List.not_mem_nil, or_false] at hmem
    rcases hmem with rfl | rfl | rfl | rfl | rfl | rfl | rfl | rfl | rfl | rfl | rfl | rfl <;> revert h <;> decide

theorem isDelimiter_toLower (c : Char) : isDelimiter c.toLower = isDelimiter c := by
  unfold Char.toLower
  split
  · rename_i hupper
    simp only [ge_iff_le, UInt32.le_iff_toNat_le] at hupper
    have hrange : 65 ≤ c.val.toNat ∧ c.val.toNat ≤ 90 := hupper
    have hsum : (c.val + ('a'.val - 'A'.val)).toNat = c.val.toNat + 32 := by
      rw [UInt32.toNat_add, Nat.mod_eq_of_lt]
      · rfl
      · exact Nat.lt_of_le_of_lt (Nat.add_le_add_right hrange.2 _) (by decide)
    rw [letter_not_delimiter (Or.inl hrange)]
    refine letter_not_delimiter (Or.inr ?_)
    show 97 ≤ (c.val + ('a'.val - 'A'.val)).toNat ∧ (c.val + ('a'.val - 'A'.val)).toNat ≤ 122
    omega
  · rfl

theorem tokenPrefixes_foreign : ∀ entry ∈ tokenPrefixes, Foreign isDelimiter marker entry.1 := by
  intro entry hentry
  exact {
    nonempty := (by decide : ∀ entry ∈ tokenPrefixes, entry.1.start ≠ []) entry hentry
    stops := isDelimiter_toLower
    opening := ⟨'[', rfl, rfl, (by decide : ∀ entry ∈ tokenPrefixes, '['.toLower ∉ entry.1.start) entry hentry⟩
    closing := ⟨']', rfl, (by decide : ∀ entry ∈ tokenPrefixes, ']'.toLower ∉ entry.1.start) entry hentry⟩
    inside := (by decide : ∀ entry ∈ tokenPrefixes, ∀ t ∈ marker.tails, entry.1.occurs t = false) entry hentry
    border := by
      intro i hlt hi hborder c hc
      have hstops : ∀ entry ∈ tokenPrefixes, ∀ i < entry.1.start.length, 0 < i →
          entry.1.start.drop i = entry.1.start.take (entry.1.start.length - i) →
          (entry.1.start.drop (entry.1.start.length - i)).all (!isDelimiter ·) = true := by
        decide
      have hone := List.all_eq_true.mp (hstops entry hentry i hlt hi hborder) c hc
      rwa [Bool.not_eq_true'] at hone }

theorem maskTokens_cons (pattern : Pattern) (label : Text) (rest : List (Pattern × Text)) (t : Text) :
    (maskTokens ((pattern, label) :: rest) t).1 = (maskTokens rest (pattern.mask isDelimiter marker t).1).1 := by
  rw [maskTokens]
  dsimp only
  split
  · rfl
  · rename_i hnone
    rw [Pattern.mask, maskFrom_unchanged (Bool.eq_false_iff.mpr hnone)]

theorem maskTokens_keeps {p : Pattern} (hp : Foreign isDelimiter marker p) (patterns : List (Pattern × Text)) {t : Text}
    (ht : p.hasToken isDelimiter t = false) : p.hasToken isDelimiter (maskTokens patterns t).1 = false := by
  induction patterns generalizing t with
  | nil => exact ht
  | cons entry rest ih =>
    rw [maskTokens_cons]
    exact ih ((mask_masks t).hasToken hp ht)

/-- A prefix that was cleaned away stays away while the others are. -/
theorem maskTokens_clean {patterns : List (Pattern × Text)}
    (hforeign : ∀ entry ∈ patterns, Foreign isDelimiter marker entry.1) (t : Text) :
    ∀ entry ∈ patterns, entry.1.hasToken isDelimiter (maskTokens patterns t).1 = false := by
  induction patterns generalizing t with
  | nil => exact fun entry h => absurd h List.not_mem_nil
  | cons first rest ih =>
    intro entry hentry
    rw [maskTokens_cons]
    rcases List.mem_cons.mp hentry with rfl | hrest
    · have hfirst := hforeign entry List.mem_cons_self
      exact maskTokens_keeps hfirst rest (mask_clean hfirst t)
    · exact ih (fun entry h => hforeign entry (List.mem_cons_of_mem _ h)) _ entry hrest

theorem splitInclusive_flatten (t : Text) : (splitInclusive t).flatten = t := by
  induction t with
  | nil => rfl
  | cons c t ih =>
    rw [splitInclusive]
    split
    · rw [List.flatten_cons, ih]
      rfl
    · split
      · rename_i hnil
        rw [← ih, hnil]
        rfl
      · rename_i line lines hlines
        rw [← ih, hlines]
        rfl

theorem redactLine_masks (line : Text) : Masks marker line (redactLine line).1 := by
  have hsplit := List.takeWhile_append_dropWhile (p := fun c => c != '=' && c != ':') (l := line)
  unfold redactLine
  dsimp only
  split
  · exact Masks.refl line
  · rename_i separator rest hrest
    split
    · rw [hrest] at hsplit
      conv => arg 2; rw [← hsplit]
      refine Masks.append_left _ (.keep separator ?_)
      split
      · rename_i hnewline
        have hne : separator ≠ '\n' := by
          rintro rfl
          have hhead := List.head?_dropWhile_not (fun c => c != '=' && c != ':') line
          rw [hrest] at hhead
          simp at hhead
        have hrest' : rest ≠ [] := by
          rintro rfl
          rw [← hsplit, List.getLast?_concat] at hnewline
          exact hne (Option.some.inj hnewline)
        have hlast : rest = rest.dropLast ++ ['\n'] := by
          rw [← hsplit, List.getLast?_append_of_ne_nil _ (by simp), List.getLast?_cons_of_ne_nil hrest'] at hnewline
          exact (List.dropLast_append_getLast? _ hnewline).symm
        rw [hlast]
        exact Masks.mask rest.dropLast (Masks.refl _)
      · have hgone := @Masks.mask marker [] [] rest Masks.nil
        rwa [List.append_nil] at hgone
    · exact Masks.refl line

theorem redactLines_masks (lines : List Text) :
    Masks marker lines.flatten ((lines.map redactLine).flatMap (·.1)) := by
  induction lines with
  | nil => exact .nil
  | cons line lines ih => exact (redactLine_masks line).append ih

theorem redactSensitiveText_fst (value : Text) : (redactSensitiveText value).1 =
    ((splitInclusive (maskTokens tokenPrefixes value).1).map redactLine).flatMap (·.1) := by
  simp only [redactSensitiveText]

/-- Whatever the text, its redaction is redacted. -/
theorem redactSensitiveText_redacted (value : Text) : Redacted (redactSensitiveText value).1 := by
  intro entry hentry
  have hclean := maskTokens_clean tokenPrefixes_foreign value entry hentry
  have hlines := redactLines_masks (splitInclusive (maskTokens tokenPrefixes value).1)
  rw [splitInclusive_flatten] at hlines
  rw [redactSensitiveText_fst]
  exact hlines.hasToken (tokenPrefixes_foreign entry hentry) hclean

/-! ## Labels and JSON -/

def labels : List Text := tokenPrefixes.map (·.2) ++ ["credential_assignment".toList]

theorem labels_redacted : ∀ label ∈ labels, Redacted label := by decide

theorem mem_sorted {label : Text} {redactions : List Text} : label ∈ sorted redactions ↔ label ∈ redactions := by
  rw [sorted, List.mem_dedup, (List.perm_insertionSort _ redactions).mem_iff]

theorem maskTokens_labels (patterns : List (Pattern × Text)) (t : Text) :
    ∀ label ∈ (maskTokens patterns t).2, label ∈ patterns.map (·.2) := by
  induction patterns generalizing t with
  | nil => exact fun label h => absurd h List.not_mem_nil
  | cons entry rest ih =>
    intro label hlabel
    rw [maskTokens] at hlabel
    dsimp only at hlabel
    rw [List.map_cons]
    split at hlabel
    · rcases List.mem_cons.mp hlabel with rfl | hlabel
      · exact List.mem_cons_self
      · exact List.mem_cons_of_mem _ (ih _ label hlabel)
    · exact List.mem_cons_of_mem _ (ih _ label hlabel)

theorem redactSensitiveText_labels (value : Text) : ∀ label ∈ (redactSensitiveText value).2, label ∈ labels := by
  intro label hlabel
  simp only [redactSensitiveText, mem_sorted, List.mem_append, List.mem_map] at hlabel
  rw [labels, List.mem_append]
  rcases hlabel with hlabel | ⟨line, -, rfl⟩
  · exact Or.inl (maskTokens_labels tokenPrefixes value label hlabel)
  · exact Or.inr List.mem_cons_self

mutual
/-- The string values of a JSON value, but for those of the fields with an exempt name. -/
def strings (exempt : List Text) : Json → List Text
  | .str value => [value]
  | .arr items => itemStrings exempt items
  | .obj fields => fieldStrings exempt fields
  | _ => []

def itemStrings (exempt : List Text) : List Json → List Text
  | [] => []
  | item :: items => strings exempt item ++ itemStrings exempt items

def fieldStrings (exempt : List Text) : List (Text × Json) → List Text
  | [] => []
  | (name, value) :: fields => (if name ∈ exempt then [] else strings exempt value) ++ fieldStrings exempt fields
end

mutual
theorem redactJsonStrings_redacted (exempt : List Text) (value : Json) (redactions : List Text) :
    (∀ t ∈ strings exempt (redactJsonStrings value redactions).1, Redacted t) ∧
      ∀ label ∈ (redactJsonStrings value redactions).2, label ∈ redactions ∨ label ∈ labels := by
  cases value with
  | arr items => simpa only [redactJsonStrings, strings] using redactItems_redacted exempt items redactions
  | obj fields => simpa only [redactJsonStrings, strings] using redactFields_redacted exempt fields redactions
  | str value =>
    simp only [redactJsonStrings, strings, List.mem_singleton, forall_eq, mem_sorted, List.mem_append]
    refine ⟨redactSensitiveText_redacted value, fun label h => ?_⟩
    exact h.imp_right (redactSensitiveText_labels value label)
  | _ => exact ⟨fun t h => absurd h List.not_mem_nil, fun label h => Or.inl h⟩

theorem redactItems_redacted (exempt : List Text) (items : List Json) (redactions : List Text) :
    (∀ t ∈ itemStrings exempt (redactItems items redactions).1, Redacted t) ∧
      ∀ label ∈ (redactItems items redactions).2, label ∈ redactions ∨ label ∈ labels := by
  cases items with
  | nil => exact ⟨fun t h => absurd h List.not_mem_nil, fun label h => Or.inl h⟩
  | cons item items =>
    obtain ⟨hhead, hheadLabels⟩ := redactJsonStrings_redacted exempt item redactions
    obtain ⟨htail, htailLabels⟩ := redactItems_redacted exempt items (redactJsonStrings item redactions).2
    simp only [redactItems, itemStrings, List.mem_append]
    refine ⟨fun t h => h.elim (hhead t) (htail t), fun label h => ?_⟩
    exact (htailLabels label h).elim (hheadLabels label) Or.inr

theorem redactFields_redacted (exempt : List Text) (fields : List (Text × Json)) (redactions : List Text) :
    (∀ t ∈ fieldStrings exempt (redactFields fields redactions).1, Redacted t) ∧
      ∀ label ∈ (redactFields fields redactions).2, label ∈ redactions ∨ label ∈ labels := by
  cases fields with
  | nil => exact ⟨fun t h => absurd h List.not_mem_nil, fun label h => Or.inl h⟩
  | cons field fields =>
    obtain ⟨name, value⟩ := field
    obtain ⟨hhead, hheadLabels⟩ := redactJsonStrings_redacted exempt value redactions
    obtain ⟨htail, htailLabels⟩ := redactFields_redacted exempt fields (redactJsonStrings value redactions).2
    simp only [redactFields, fieldStrings, List.mem_append]
    refine ⟨fun t h => h.elim (fun h => ?_) (htail t), fun label h => ?_⟩
    · split at h
      · cases h
      · exact hhead t h
    · exact (htailLabels label h).elim (hheadLabels label) Or.inr
end

end LpStudio.Server.Redaction
