import LpStudio.Lib.Str

/-! # Masking tokens in a text
A token is a prefix, in any case of its letters, with enough bytes behind it before the next stop character. A loop
replaces the tokens by a marker. Masking only ever shortens what follows a prefix, so it brings no token about.
-/
namespace Masking
open Str

structure Pattern where
  start : Text
  minimum : ℕ

/-- The prefix stands at the head of the text. -/
def Pattern.occurs (p : Pattern) (t : Text) : Bool := lower (t.take p.start.length) == p.start

section
variable (stop : Char → Bool) (marker : Text) (p : Pattern)

/-- What stands between the prefix at the head of the text and the next stop character. -/
def Pattern.body (t : Text) : Text := (t.drop p.start.length).takeWhile (!stop ·)

def Pattern.short (t : Text) : Bool := (encode (p.body stop t)).length < p.minimum

/-- A token begins at the head of the text. -/
def Pattern.headToken (t : Text) : Bool := p.occurs t && !p.short stop t

def Pattern.hasToken : Text → Bool
  | [] => false
  | c :: t => p.headToken stop (c :: t) || Pattern.hasToken t

/-- What comes before the first occurrence of the prefix, and the text from it on. -/
def Pattern.find : Text → Option (Text × Text)
  | [] => none
  | c :: t => if p.occurs (c :: t) then some ([], c :: t) else (Pattern.find t).map fun found => (c :: found.1, found.2)

/-- The loop over the occurrences of the prefix, and whether it has replaced a token. -/
def Pattern.maskFrom : ℕ → Text → Text × Bool
  | 0, t => (t, false)
  | fuel + 1, t =>
    match p.find t with
    | none => (t, false)
    | some (before, token) =>
      if p.short stop token then
        let rest := Pattern.maskFrom fuel (token.drop p.start.length)
        (before ++ (token.take p.start.length ++ rest.1), rest.2)
      else
        let rest := Pattern.maskFrom fuel ((token.drop p.start.length).dropWhile (!stop ·))
        (before ++ (marker ++ rest.1), true)

/-- A round of the loop drops the prefix at least, so the length of the text is fuel enough. -/
def Pattern.mask (t : Text) : Text × Bool := p.maskFrom stop marker t.length t

end

/-! ## Masked texts -/

/-- The second text is the first one with some of its parts replaced by the marker. -/
inductive Masks (marker : Text) : Text → Text → Prop where
  | nil : Masks marker [] []
  | keep {t t' : Text} (c : Char) (h : Masks marker t t') : Masks marker (c :: t) (c :: t')
  | mask {t t' : Text} (gone : Text) (h : Masks marker t t') : Masks marker (gone ++ t) (marker ++ t')

section
variable {stop : Char → Bool} {marker : Text} {p : Pattern}

theorem Masks.refl (t : Text) : Masks marker t t := by
  induction t with
  | nil => exact .nil
  | cons c t ih => exact .keep c ih

theorem Masks.append_left {t t' : Text} (kept : Text) (h : Masks marker t t') : Masks marker (kept ++ t) (kept ++ t') := by
  induction kept with
  | nil => exact h
  | cons c kept ih => exact .keep c ih

theorem Masks.append {s s' t t' : Text} (h : Masks marker s s') (h' : Masks marker t t') :
    Masks marker (s ++ t) (s' ++ t') := by
  induction h with
  | nil => exact h'
  | keep c _ ih => exact .keep c ih
  | mask gone _ ih =>
    rw [List.append_assoc, List.append_assoc]
    exact .mask gone ih

/-- A prefix that does not get mixed up with the marker, nor with itself. -/
structure Foreign (stop : Char → Bool) (marker : Text) (p : Pattern) : Prop where
  nonempty : p.start ≠ []
  stops : ∀ c, stop c.toLower = stop c
  opening : ∃ c, marker.head? = some c ∧ stop c = true ∧ c.toLower ∉ p.start
  closing : ∃ c, marker.getLast? = some c ∧ c.toLower ∉ p.start
  inside : ∀ t ∈ marker.tails, p.occurs t = false
  border : ∀ i < p.start.length, 0 < i → p.start.drop i = p.start.take (p.start.length - i) →
    ∀ c ∈ p.start.drop (p.start.length - i), stop c = false

theorem occurs_iff {t : Text} : p.occurs t = true ↔ lower (t.take p.start.length) = p.start := by
  rw [Pattern.occurs, beq_iff_eq]

theorem find_none {t : Text} (h : p.find t = none) : p.hasToken stop t = false := by
  induction t with
  | nil => rfl
  | cons c t ih =>
    rw [Pattern.find] at h
    split at h
    · cases h
    · rename_i hno
      rw [Pattern.hasToken, Pattern.headToken, Bool.eq_false_iff.mpr hno, Bool.false_and, Bool.false_or]
      exact ih (Option.map_eq_none_iff.mp h)

/-- The first occurrence: none begins in what comes before it. -/
theorem find_some {t before token : Text} (h : p.find t = some (before, token)) :
    t = before ++ token ∧ p.occurs token = true ∧ token ≠ [] ∧
      ∀ u, u ≠ [] → u <:+ before → p.occurs (u ++ token) = false := by
  induction t generalizing before with
  | nil => cases h
  | cons c t ih =>
    rw [Pattern.find] at h
    split at h
    · rename_i hoccurs
      cases h
      exact ⟨rfl, hoccurs, by simp, fun u hu hsuffix => absurd (List.suffix_nil.mp hsuffix) hu⟩
    · rename_i hno
      obtain ⟨⟨before', token'⟩, hfound, heq⟩ := Option.map_eq_some_iff.mp h
      cases heq
      obtain ⟨rfl, hoccurs, hne, hfirst⟩ := ih hfound
      refine ⟨rfl, hoccurs, hne, fun u hu hsuffix => ?_⟩
      rcases List.suffix_cons_iff.mp hsuffix with rfl | hsuffix
      · simpa using hno
      · exact hfirst u hu hsuffix

/-- Without the opening character of the marker, a part of a masked text was there before. -/
theorem Masks.take_drop {t t' : Text} {c : Char} (hc : marker.head? = some c) (h : Masks marker t t') (n : ℕ)
    (hn : c ∉ t'.take n) : t.take n = t'.take n ∧ Masks marker (t.drop n) (t'.drop n) := by
  induction n generalizing t t' with
  | zero => exact ⟨rfl, h⟩
  | succ n ih =>
    cases h with
    | nil => exact ⟨rfl, .nil⟩
    | keep d h =>
      rw [List.take_succ_cons, List.mem_cons, not_or] at hn
      obtain ⟨htake, hdrop⟩ := ih h hn.2
      exact ⟨by rw [List.take_succ_cons, List.take_succ_cons, htake], hdrop⟩
    | mask gone h =>
      obtain ⟨rest, rfl⟩ := List.head?_eq_some_iff.mp hc
      exact absurd List.mem_cons_self hn

/-- The marker stops a body. -/
theorem Masks.takeWhile_prefix {t t' : Text} {c : Char} (hc : marker.head? = some c) (hstop : stop c = true)
    (h : Masks marker t t') : t'.takeWhile (!stop ·) <+: t.takeWhile (!stop ·) := by
  induction h with
  | nil => exact List.prefix_refl _
  | keep d _ ih =>
    rw [List.takeWhile_cons, List.takeWhile_cons]
    split
    · exact (List.prefix_cons_inj d).mpr ih
    · exact List.prefix_refl _
  | mask gone _ _ =>
    obtain ⟨rest, rfl⟩ := List.head?_eq_some_iff.mp hc
    simp [hstop]

theorem encode_length_mono {s t : Text} (h : s <+: t) : (encode s).length ≤ (encode t).length := by
  obtain ⟨rest, rfl⟩ := h
  rw [encode, encode, List.flatMap_append, List.length_append]
  exact Nat.le_add_right _ _

theorem not_mem_take_of_occurs {t : Text} {c : Char} (hc : c.toLower ∉ p.start) (h : p.occurs t = true) :
    c ∉ t.take p.start.length := by
  intro hmem
  rw [← occurs_iff.mp h] at hc
  exact hc (List.mem_map_of_mem hmem)

/-- Masking moves no prefix and lengthens no body. -/
theorem Masks.headToken (hp : Foreign stop marker p) {t t' : Text} (h : Masks marker t t') :
    (p.occurs t' = true → p.occurs t = true) ∧ (p.headToken stop t' = true → p.headToken stop t = true) := by
  obtain ⟨c, hc, hstop, hforeign⟩ := hp.opening
  have hoccurs : p.occurs t' = true → p.occurs t = true ∧ (p.body stop t') <+: p.body stop t := by
    intro hoccurs
    obtain ⟨htake, hdrop⟩ := h.take_drop hc _ (not_mem_take_of_occurs hforeign hoccurs)
    refine ⟨?_, hdrop.takeWhile_prefix hc hstop⟩
    rw [occurs_iff, htake]
    exact occurs_iff.mp hoccurs
  refine ⟨fun ho => (hoccurs ho).1, fun htoken => ?_⟩
  simp only [Pattern.headToken, Pattern.short, Bool.and_eq_true, Bool.not_eq_true', decide_eq_false_iff_not,
    not_lt] at htoken ⊢
  obtain ⟨ho, hbody⟩ := hoccurs htoken.1
  exact ⟨ho, htoken.2.trans (encode_length_mono hbody)⟩

/-- No prefix begins in the marker. -/
theorem occurs_marker (hp : Foreign stop marker p) {u t : Text} (hu : u ≠ []) (hsuffix : u <:+ marker) :
    p.occurs (u ++ t) = false := by
  rw [Bool.eq_false_iff]
  intro hoccurs
  by_cases hlong : p.start.length ≤ u.length
  · have hinside := hp.inside u ((List.mem_tails _ _).mpr hsuffix)
    rw [Pattern.occurs, List.take_append_of_le_length hlong] at hoccurs
    exact absurd hoccurs (by rw [← Pattern.occurs, hinside]; simp)
  · obtain ⟨c, hc, hforeign⟩ := hp.closing
    have hmem : c ∈ u := by
      obtain ⟨v, rfl⟩ := hsuffix
      rw [List.getLast?_append_of_ne_nil _ hu] at hc
      exact List.mem_of_getLast? hc
    refine not_mem_take_of_occurs hforeign hoccurs ?_
    rw [List.take_append]
    exact List.mem_append_left _ (by rwa [List.take_of_length_le (by omega)])

theorem hasToken_append {x y : Text} (hx : ∀ u, u ≠ [] → u <:+ x → p.headToken stop (u ++ y) = false)
    (hy : p.hasToken stop y = false) : p.hasToken stop (x ++ y) = false := by
  induction x with
  | nil => exact hy
  | cons c x ih =>
    rw [List.cons_append, Pattern.hasToken, ← List.cons_append, hx (c :: x) (by simp) (List.suffix_refl _),
      Bool.false_or]
    exact ih fun u hu hsuffix => hx u hu (hsuffix.trans (List.suffix_cons c x))

theorem headToken_of_occurs {t : Text} (h : p.occurs t = false) : p.headToken stop t = false := by
  rw [Pattern.headToken, h, Bool.false_and]

theorem hasToken_of_append {x y : Text} (h : p.hasToken stop (x ++ y) = false) : p.hasToken stop y = false := by
  induction x with
  | nil => exact h
  | cons c x ih =>
    rw [List.cons_append, Pattern.hasToken, Bool.or_eq_false_iff] at h
    exact ih h.2

/-- A masked text has no token that was not there before. -/
theorem Masks.hasToken (hp : Foreign stop marker p) {t t' : Text} (h : Masks marker t t')
    (ht : p.hasToken stop t = false) : p.hasToken stop t' = false := by
  induction h with
  | nil => rfl
  | keep c h ih =>
    rw [Pattern.hasToken, Bool.or_eq_false_iff] at ht ⊢
    refine ⟨?_, ih ht.2⟩
    rw [Bool.eq_false_iff] at ht ⊢
    exact fun htoken => ht.1 (((Masks.keep c h).headToken hp).2 htoken)
  | mask gone h ih =>
    refine hasToken_append (fun u hu hsuffix => headToken_of_occurs (occurs_marker hp hu hsuffix)) (ih ?_)
    exact hasToken_of_append ht

/-! ## The loop -/

theorem maskFrom_masks (fuel : ℕ) (t : Text) : Masks marker t (p.maskFrom stop marker fuel t).1 := by
  induction fuel generalizing t with
  | zero => exact Masks.refl t
  | succ fuel ih =>
    rw [Pattern.maskFrom]
    split
    · exact Masks.refl t
    · rename_i before token hfind
      obtain ⟨rfl, -⟩ := find_some hfind
      split
      · refine Masks.append_left before ?_
        have hkept := Masks.append_left (token.take p.start.length) (ih (token.drop p.start.length))
        rwa [List.take_append_drop] at hkept
      · refine Masks.append_left before ?_
        have hgone := Masks.mask ((token.take p.start.length) ++ p.body stop token)
          (ih ((token.drop p.start.length).dropWhile (!stop ·)))
        rwa [List.append_assoc, Pattern.body, List.takeWhile_append_dropWhile, List.take_append_drop] at hgone

/-- A loop that replaced nothing has changed nothing. -/
theorem maskFrom_unchanged {fuel : ℕ} {t : Text} (h : (p.maskFrom stop marker fuel t).2 = false) :
    (p.maskFrom stop marker fuel t).1 = t := by
  induction fuel generalizing t with
  | zero => rfl
  | succ fuel ih =>
    rw [Pattern.maskFrom] at h ⊢
    split
    · rfl
    · rename_i before token hfind
      obtain ⟨rfl, -⟩ := find_some hfind
      rw [hfind] at h
      dsimp only at h
      split at h
      · rename_i hshort
        rw [if_pos hshort]
        dsimp only
        rw [ih h, List.take_append_drop]
      · cases h

/-- An occurrence that overlaps a short one is short as well. -/
theorem overlap_short (hp : Foreign stop marker p) {token : Text} {i : ℕ} (hi : 0 < i) (hlt : i < p.start.length)
    (hoccurs : p.occurs token = true) (hoverlap : p.occurs (token.drop i) = true) (hshort : p.short stop token = true) :
    p.short stop (token.drop i) = true := by
  have hfirst := occurs_iff.mp hoccurs
  have hsecond := occurs_iff.mp hoverlap
  have hborder : p.start.drop i = p.start.take (p.start.length - i) := by
    have hleft := congrArg (List.drop i) hfirst
    have hright := congrArg (List.take (p.start.length - i)) hsecond
    rw [lower, ← List.map_drop, List.drop_take] at hleft
    rw [lower, ← List.map_take, List.take_take, Nat.min_eq_left (Nat.sub_le _ _)] at hright
    rw [← hleft, ← hright]
  have hgap : ∀ c ∈ (token.drop p.start.length).take i, stop c = false := by
    intro c hc
    rw [← hp.stops]
    refine hp.border i hlt hi hborder c.toLower ?_
    have hdrop := congrArg (List.drop (p.start.length - i)) hsecond
    rw [lower, ← List.map_drop, List.drop_take, List.drop_drop, Nat.sub_sub_self hlt.le,
      Nat.add_sub_cancel' hlt.le] at hdrop
    rw [← hdrop]
    exact List.mem_map_of_mem hc
  have hbody : p.body stop (token.drop i) <:+ p.body stop token := by
    refine ⟨(token.drop p.start.length).take i, ?_⟩
    have hsplit : token.drop p.start.length =
        (token.drop p.start.length).take i ++ (token.drop i).drop p.start.length := by
      rw [List.drop_drop, Nat.add_comm, ← List.drop_drop, List.take_append_drop]
    rw [Pattern.body, Pattern.body]
    conv_rhs => rw [hsplit]
    rw [List.takeWhile_append_of_pos fun c hc => by rw [hgap c hc]; rfl]
  obtain ⟨rest, hrest⟩ := hbody
  simp only [Pattern.short, decide_eq_true_eq] at hshort ⊢
  rw [← hrest, encode, List.flatMap_append, List.length_append] at hshort
  exact (Nat.le_add_left _ _).trans_lt hshort

theorem maskFrom_clean (hp : Foreign stop marker p) {fuel : ℕ} {t : Text} (hfuel : t.length ≤ fuel) :
    p.hasToken stop (p.maskFrom stop marker fuel t).1 = false := by
  induction fuel generalizing t with
  | zero =>
    obtain rfl := List.eq_nil_of_length_eq_zero (Nat.le_zero.mp hfuel)
    rfl
  | succ fuel ih =>
    rw [Pattern.maskFrom]
    split
    · exact find_none ‹_›
    · rename_i before token hfind
      obtain ⟨rfl, hoccurs, hne, hfirst⟩ := find_some hfind
      have hstart : 0 < p.start.length := List.length_pos_of_ne_nil hp.nonempty
      have htoken : 0 < token.length := List.length_pos_of_ne_nil hne
      rw [List.length_append] at hfuel
      have hdrop : (token.drop p.start.length).length ≤ fuel := by
        rw [List.length_drop]
        omega
      -- nothing begins before the first occurrence, whatever becomes of it
      have hbefore : ∀ masked, Masks marker token masked → ∀ u, u ≠ [] → u <:+ before →
          p.headToken stop (u ++ masked) = false := by
        intro masked hmasked u hu hsuffix
        refine headToken_of_occurs (Bool.eq_false_iff.mpr fun hagain => ?_)
        have hthen := ((Masks.append_left u hmasked).headToken hp).1 hagain
        rw [hfirst u hu hsuffix] at hthen
        cases hthen
      split
      · rename_i hshort
        have hrest := Masks.append_left (token.take p.start.length)
          (@maskFrom_masks stop marker p fuel (token.drop p.start.length))
        rw [List.take_append_drop] at hrest
        refine hasToken_append (hbefore _ hrest) (hasToken_append (fun u hu hsuffix => ?_) (ih hdrop))
        obtain ⟨v, hv⟩ := hsuffix
        have hsplit : token.drop v.length = u ++ token.drop p.start.length := by
          conv_lhs => rw [← List.take_append_drop p.start.length token, ← hv, List.append_assoc]
          rw [List.drop_left]
        have hmasked := Masks.append_left u
          (@maskFrom_masks stop marker p fuel (token.drop p.start.length))
        rw [← hsplit] at hmasked
        rw [Bool.eq_false_iff]
        intro hagain
        have hthen := (hmasked.headToken hp).2 hagain
        rw [Pattern.headToken, Bool.and_eq_true, Bool.not_eq_true'] at hthen
        have hlength : v.length < p.start.length := by
          have htake := congrArg List.length hv
          rw [List.length_append, List.length_take] at htake
          have := List.length_pos_of_ne_nil hu
          omega
        cases v with
        | nil => exact absurd hshort (by simpa using hthen.2)
        | cons c v =>
          have := overlap_short hp (Nat.succ_pos _) hlength hoccurs hthen.1 hshort
          rw [List.length_cons] at hthen
          exact absurd this (by simp [hthen.2])
      · have hlength : ((token.drop p.start.length).dropWhile (!stop ·)).length ≤ fuel :=
          (List.length_dropWhile_le _ _).trans hdrop
        have hrest := Masks.mask ((token.take p.start.length) ++ p.body stop token)
          (@maskFrom_masks stop marker p fuel
            ((token.drop p.start.length).dropWhile (!stop ·)))
        rw [List.append_assoc, Pattern.body, List.takeWhile_append_dropWhile, List.take_append_drop] at hrest
        refine hasToken_append (hbefore _ hrest) (hasToken_append (fun u hu hsuffix => ?_) (ih hlength))
        exact headToken_of_occurs (occurs_marker hp hu hsuffix)

theorem mask_masks (t : Text) : Masks marker t (p.mask stop marker t).1 := maskFrom_masks _ t

theorem mask_clean (hp : Foreign stop marker p) (t : Text) : p.hasToken stop (p.mask stop marker t).1 = false :=
  maskFrom_clean hp (Nat.le_refl _)

end

end Masking
