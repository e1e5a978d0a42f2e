import LpStudio.Lib.Sweep
import LpStudio.Server.Redaction

/-! # What a redaction tells of a credential
Credentials behind the same prefix, between the same texts, are redacted alike as long as no pass before their own takes
a part of one of them away.
-/
namespace LpStudio.Server.Redaction
open Str Masking

/-- The pass takes each credential away whole, with one token that begins before it. -/
def Covered (q : Pattern) (credentials : List Text) (before after : Text) : Prop :=
  ∃ kept u, before = kept ++ u ∧ ∀ credential ∈ credentials,
    Closes isDelimiter q kept (u ++ credential ++ after) ∧ q.headToken isDelimiter (u ++ credential ++ after) = true ∧
      q.start.length ≤ (u ++ credential).length ∧ ∀ c ∈ (u ++ credential).drop q.start.length, isDelimiter c = false

/-- Each token that begins before the credentials ends before them, and none begins inside one of them. -/
def Spared (q : Pattern) (credentials : List Text) (before after : Text) : Prop :=
  ∀ credential ∈ credentials, Closes isDelimiter q before (credential ++ after) ∧ Free isDelimiter q credential after

/-- Each pass spares the credentials, until one covers them all or their own comes. -/
def Undisturbed (own : Pattern) (credentials : List Text) : List (Pattern × Text) → Text → Text → Prop
  | [], before, after => Covered own credentials before after ∨
    ∀ credential ∈ credentials, Closes isDelimiter own before (credential ++ after)
  | (q, _) :: passes, before, after => Covered q credentials before after ∨
    Spared q credentials before after ∧ Undisturbed own credentials passes (q.mask isDelimiter marker before).1
      (q.mask isDelimiter marker after).1

section
variable {q own : Pattern} {credentials : List Text} {before after : Text}

/-- A pass that covers the credentials leaves nothing of them. -/
theorem Covered.alike (hq : Foreign isDelimiter marker q) (h : Covered q credentials before after)
    (hafter : ∀ c ∈ after.head?, isDelimiter c = true) :
    ∃ masked, ∀ credential ∈ credentials, (q.mask isDelimiter marker (before ++ (credential ++ after))).1 = masked := by
  obtain ⟨kept, u, rfl, hall⟩ := h
  refine ⟨(q.mask isDelimiter marker kept).1 ++ (marker ++ (q.mask isDelimiter marker after).1), fun credential hmem => ?_⟩
  obtain ⟨hcloses, htoken, hlength, hopen⟩ := hall credential hmem
  rw [List.append_assoc, ← List.append_assoc u]
  exact (mask_swept hq _).unique hq (.cover hq hcloses htoken hlength hopen hafter (mask_swept hq kept) (mask_swept hq after))

theorem Spared.masked (hq : Foreign isDelimiter marker q) (h : Spared q credentials before after) {credential : Text}
    (hmem : credential ∈ credentials) : (q.mask isDelimiter marker (before ++ (credential ++ after))).1 =
      (q.mask isDelimiter marker before).1 ++ (credential ++ (q.mask isDelimiter marker after).1) := by
  obtain ⟨hcloses, hfree⟩ := h credential hmem
  exact (mask_swept hq _).unique hq ((mask_swept hq before).append hq hcloses (.append_left hfree (mask_swept hq after)))

/-- Credentials that begin with the prefix of their own pass are covered by it, if by nothing before. -/
theorem own_covered (hlower : lower own.start = own.start)
    (hcredentials : ∀ credential ∈ credentials, ∃ s, credential = own.start ++ s ∧ own.minimum ≤ (encode s).length ∧
      ∀ c ∈ s, isDelimiter c = false)
    (hcloses : ∀ credential ∈ credentials, Closes isDelimiter own before (credential ++ after))
    (hafter : ∀ c ∈ after.head?, isDelimiter c = true) : Covered own credentials before after := by
  refine ⟨before, [], (List.append_nil before).symm, fun credential hmem => ⟨hcloses credential hmem, ?_⟩⟩
  obtain ⟨s, rfl, hminimum, hopen⟩ := hcredentials credential hmem
  have hgo : ∀ c ∈ s, (!isDelimiter c) = true := fun c hc => congrArg not (hopen c hc)
  have hhalt : ∀ c ∈ after.head?, (!isDelimiter c) = false := fun c hc => congrArg not (hafter c hc)
  rw [List.nil_append, List.length_append, List.drop_left]
  refine ⟨?_, Nat.le_add_right _ _, hopen⟩
  rw [Pattern.headToken, Pattern.occurs, Pattern.short, Pattern.body, List.append_assoc, List.take_left, List.drop_left,
    (takeWhile_append_stop hgo hhalt).1, hlower, beq_self_eq_true, Bool.true_and, Bool.not_eq_true', decide_eq_false_iff_not,
    Nat.not_lt]
  exact hminimum

/-- The prefix occurs at `u`, before the credentials, and no delimiter stands behind it before them. -/
def Reaches (own : Pattern) (u : Text) : Prop :=
  own.occurs (u ++ own.start) = true ∧ ∀ c ∈ u.drop own.start.length, isDelimiter c = false

theorem occurs_before (u tail : Text) : own.occurs (u ++ (own.start ++ tail)) = own.occurs (u ++ own.start) := by
  have hlength : own.start.length ≤ (u ++ own.start).length := by
    rw [List.length_append]
    exact Nat.le_add_left _ _
  rw [Pattern.occurs, Pattern.occurs, ← List.append_assoc, List.take_append_of_le_length hlength]

section
variable {u s : Text} (hplain : ∀ c ∈ own.start, isDelimiter c = false)
include hplain

theorem Reaches.inside (hu : Reaches own u) : ∀ c ∈ u, isDelimiter c = false := by
  intro c hc
  rw [← List.take_append_drop own.start.length u] at hc
  rcases List.mem_append.mp hc with hc | hc
  · have hmem : c.toLower ∈ own.start := by
      rw [← occurs_iff.mp hu.1, List.take_append]
      exact List.mem_map_of_mem (List.mem_append_left _ hc)
    rw [← isDelimiter_toLower]
    exact hplain _ hmem
  · exact hu.2 c hc

theorem Reaches.unbroken (hu : Reaches own u) (hs : ∀ c ∈ s, isDelimiter c = false) :
    ∀ c ∈ (u ++ (own.start ++ s)).drop own.start.length, isDelimiter c = false := by
  intro c hc
  rw [List.drop_append] at hc
  rcases List.mem_append.mp hc with hc | hc
  · exact hu.2 c hc
  · rcases List.mem_append.mp (List.mem_of_mem_drop hc) with hc | hc
    · exact hplain c hc
    · exact hs c hc

/-- Such an occurrence is a token, whatever the credential. -/
theorem Reaches.token (hu : Reaches own u) (hminimum : own.minimum ≤ (encode s).length)
    (hs : ∀ c ∈ s, isDelimiter c = false) : own.headToken isDelimiter (u ++ (own.start ++ s) ++ after) = true := by
  have hopen := hu.unbroken hplain hs
  have hlength : own.start.length ≤ (u ++ own.start).length := by
    rw [List.length_append]
    exact Nat.le_add_left _ _
  rw [← List.append_assoc, List.drop_append_of_le_length hlength] at hopen
  have hbody : (u ++ own.start).drop own.start.length ++ s <+: own.body isDelimiter (u ++ (own.start ++ (s ++ after))) := by
    rw [Pattern.body, ← List.append_assoc, List.drop_append_of_le_length hlength, ← List.append_assoc]
    have hall := List.takeWhile_eq_self_iff.mpr fun c hc => congrArg not (hopen c hc)
    conv => arg 1; rw [← hall]
    exact takeWhile_prefix_append _ _ _
  have hlong := encode_length_mono hbody
  rw [encode, List.flatMap_append, List.length_append] at hlong
  rw [encode] at hminimum
  rw [Pattern.headToken, Bool.and_eq_true, List.append_assoc, List.append_assoc, occurs_before, Pattern.short,
    Bool.not_eq_true', decide_eq_false_iff_not, Nat.not_lt]
  exact ⟨hu.1, by omega⟩

end

/-- Nothing before the credentials disturbs the pass of a prefix without delimiters. -/
theorem own_undisturbed (hplain : ∀ c ∈ own.start, isDelimiter c = false)
    (hcredentials : ∀ credential ∈ credentials, ∃ s, credential = own.start ++ s ∧ own.minimum ≤ (encode s).length ∧
      ∀ c ∈ s, isDelimiter c = false) :
    Covered own credentials before after ∨ ∀ credential ∈ credentials, Closes isDelimiter own before (credential ++ after) := by
  have hreaches : ∀ u, ∀ credential ∈ credentials, own.headToken isDelimiter (u ++ (credential ++ after)) = true →
      (∀ c ∈ u.drop own.start.length, isDelimiter c = false) → Reaches own u := by
    intro u credential hmem hhead hopen
    obtain ⟨s, rfl, -⟩ := hcredentials credential hmem
    refine ⟨?_, hopen⟩
    rw [← occurs_before u (s ++ after), ← List.append_assoc own.start]
    exact headToken_occurs hhead
  by_cases hany : ∃ n kept u, kept.length = n ∧ before = kept ++ u ∧ Reaches own u
  · -- the first occurrence that reaches the credentials covers them
    left
    classical
    obtain ⟨kept, u, hlength, rfl, hu⟩ := Nat.find_spec hany
    have hfirst := fun m hm => @Nat.find_min _ _ hany m hm
    refine ⟨kept, u, rfl, fun credential hmem => ?_⟩
    obtain ⟨s, rfl, hminimum, hs⟩ := hcredentials credential hmem
    refine ⟨fun v hv hsuffix hhead => ?_, hu.token hplain hminimum hs, ?_, hu.unbroken hplain hs⟩
    · by_contra hnone
      obtain ⟨kept, rfl⟩ := hsuffix
      refine hfirst kept.length ?_ ⟨kept, v ++ u, rfl, List.append_assoc _ _ _, hreaches (v ++ u) _ hmem ?_ ?_⟩
      · have := List.length_pos_of_ne_nil hv
        rw [← hlength, List.length_append]
        omega
      · simpa only [List.append_assoc] using hhead
      · intro c hc
        rw [List.drop_append] at hc
        rcases List.mem_append.mp hc with hc | hc
        · exact Bool.eq_false_iff.mpr fun hstop => hnone ⟨c, hc, hstop⟩
        · exact hu.inside hplain c (List.mem_of_mem_drop hc)
    · rw [List.length_append, List.length_append]
      omega
  · right
    intro credential hmem u hu hsuffix hhead
    by_contra hnone
    obtain ⟨kept, rfl⟩ := hsuffix
    refine hany ⟨kept.length, kept, u, rfl, rfl, hreaches u credential hmem hhead fun c hc => ?_⟩
    exact Bool.eq_false_iff.mpr fun hstop => hnone ⟨c, hc, hstop⟩

theorem maskTokens_alike {earlier : List (Pattern × Text)} (later : List (Pattern × Text)) (label : Text)
    (hforeign : ∀ entry ∈ earlier, Foreign isDelimiter marker entry.1) (hown : Foreign isDelimiter marker own)
    (hlower : lower own.start = own.start)
    (hcredentials : ∀ credential ∈ credentials, ∃ s, credential = own.start ++ s ∧ own.minimum ≤ (encode s).length ∧
      ∀ c ∈ s, isDelimiter c = false)
    (hafter : ∀ c ∈ after.head?, isDelimiter c = true) (h : Undisturbed own credentials earlier before after) :
    ∃ masked, ∀ credential ∈ credentials,
      (maskTokens (earlier ++ (own, label) :: later) (before ++ (credential ++ after))).1 = masked := by
  have hpass : ∀ {q : Pattern} (label : Text) (rest : List (Pattern × Text)) {before after : Text},
      Foreign isDelimiter marker q → (∀ c ∈ after.head?, isDelimiter c = true) → Covered q credentials before after →
      ∃ masked, ∀ credential ∈ credentials, (maskTokens ((q, label) :: rest) (before ++ (credential ++ after))).1 = masked := by
    intro q label rest before after hq hafter hcovered
    obtain ⟨masked, hmasked⟩ := hcovered.alike hq hafter
    refine ⟨(maskTokens rest masked).1, fun credential hmem => ?_⟩
    rw [maskTokens_cons, hmasked credential hmem]
  induction earlier generalizing before after with
  | nil =>
    rcases h with hcovered | hcloses
    · exact hpass label later hown hafter hcovered
    · exact hpass label later hown hafter (own_covered hlower hcredentials hcloses hafter)
  | cons entry rest ih =>
    obtain ⟨q, name⟩ := entry
    have hq := hforeign (q, name) List.mem_cons_self
    rcases h with hcovered | ⟨hspared, hrest⟩
    · exact hpass name _ hq hafter hcovered
    · obtain ⟨masked, hmasked⟩ := ih (fun other hother => hforeign other (List.mem_cons_of_mem _ hother))
        ((mask_swept hq after).stops hq hafter) hrest
      refine ⟨masked, fun credential hmem => ?_⟩
      rw [List.cons_append, maskTokens_cons, hspared.masked hq hmem]
      exact hmasked credential hmem

end

theorem tokenPrefixes_lower : ∀ entry ∈ tokenPrefixes, lower entry.1.start = entry.1.start := by decide

/-- A credential of the prefix between two texts. -/
structure Credential (own : Pattern) (s b : Text) : Prop where
  long : own.minimum ≤ (encode s).length
  inside : ∀ c ∈ s, isDelimiter c = false
  ends : ∀ c ∈ b.head?, isDelimiter c = true

/-- Two credentials that the passes before their own do not disturb are redacted to the same text. -/
theorem alike_of_undisturbed {earlier later : List (Pattern × Text)} {own : Pattern} {label a s₁ s₂ b : Text}
    (hpasses : tokenPrefixes = earlier ++ (own, label) :: later) (h₁ : Credential own s₁ b) (h₂ : Credential own s₂ b)
    (h : Undisturbed own [own.start ++ s₁, own.start ++ s₂] earlier a b) :
    (redactSensitiveText (a ++ (own.start ++ s₁ ++ b))).1 = (redactSensitiveText (a ++ (own.start ++ s₂ ++ b))).1 := by
  have hmem : ∀ entry ∈ earlier ++ (own, label) :: later, entry ∈ tokenPrefixes := fun entry h => hpasses ▸ h
  have hown : (own, label) ∈ tokenPrefixes := hmem _ (List.mem_append_right _ List.mem_cons_self)
  obtain ⟨masked, hmasked⟩ := maskTokens_alike later label
    (fun entry hentry => tokenPrefixes_foreign entry (hmem entry (List.mem_append_left _ hentry)))
    (tokenPrefixes_foreign _ hown) (tokenPrefixes_lower _ hown)
    (List.forall_mem_cons.mpr ⟨⟨s₁, rfl, h₁.long, h₁.inside⟩, List.forall_mem_singleton.mpr ⟨s₂, rfl, h₂.long, h₂.inside⟩⟩)
    h₁.ends h
  rw [redactSensitiveText_fst, redactSensitiveText_fst, hpasses, hmasked _ List.mem_cons_self,
    hmasked _ (List.mem_cons_of_mem _ (List.mem_singleton_self _))]

/-- Without a token before the credentials or in them, they are spared. -/
theorem spared_of_hasToken {q : Pattern} {credentials : List Text} {before after : Text}
    (h : ∀ credential ∈ credentials, q.hasToken isDelimiter (before ++ (credential ++ after)) = false) :
    Spared q credentials before after := fun credential hmem =>
  ⟨(free_of_hasToken (h credential hmem)).closes, free_of_hasToken (hasToken_of_append (h credential hmem))⟩

/-- A credential with a token of the first pass behind its minimum. -/
def cutCredential : Text := List.replicate 16 'x' ++ "sk-abcde".toList

def plainCredential : Text := List.replicate 16 'x'

theorem cutCredential_shows : ∀ entry ∈ tokenPrefixes.tail, entry.1.start ≠ "sk-".toList ∧
    entry.1.minimum ≤ (encode cutCredential).length ∧ entry.1.minimum ≤ (encode plainCredential).length ∧
    (redactSensitiveText (entry.1.start ++ cutCredential)).1 ≠ (redactSensitiveText (entry.1.start ++ plainCredential)).1 := by
  decide

end LpStudio.Server.Redaction
