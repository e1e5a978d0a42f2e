import LpStudio.Lib.Masking

/-! # Masking, position by position
A walk over the positions of a text that masks each token it comes to. The loop over the occurrences does just that, and
the walk over two texts that no token joins is two walks.
-/
namespace Masking
open Str

/-- The text behind the token at its head. -/
def Pattern.behind (stop : Char → Bool) (p : Pattern) (t : Text) : Text :=
  (t.drop p.start.length).dropWhile (!stop ·)

/-- The walk over the first text leaves the second one. -/
inductive Swept (stop : Char → Bool) (marker : Text) (p : Pattern) : Text → Text → Prop where
  | nil : Swept stop marker p [] []
  | keep {c : Char} {t t' : Text} (htoken : p.headToken stop (c :: t) = false) (h : Swept stop marker p t t') :
      Swept stop marker p (c :: t) (c :: t')
  | mask {t t' : Text} (htoken : p.headToken stop t = true) (h : Swept stop marker p (p.behind stop t) t') :
      Swept stop marker p t (marker ++ t')

/-- A token that begins in the first part ends in it. -/
def Closes (stop : Char → Bool) (p : Pattern) (x y : Text) : Prop :=
  ∀ u, u ≠ [] → u <:+ x → p.headToken stop (u ++ y) = true → ∃ c ∈ u.drop p.start.length, stop c = true

/-- No token begins in the first part. -/
def Free (stop : Char → Bool) (p : Pattern) (x y : Text) : Prop :=
  ∀ u, u ≠ [] → u <:+ x → p.headToken stop (u ++ y) = false

section
variable {stop : Char → Bool} {marker : Text} {p : Pattern}

theorem headToken_occurs {t : Text} (h : p.headToken stop t = true) : p.occurs t = true :=
  ((Bool.and_eq_true _ _).mp h).1

theorem headToken_length {t : Text} (h : p.headToken stop t = true) : p.start.length ≤ t.length := by
  have hlower := congrArg List.length (occurs_iff.mp (headToken_occurs h))
  rw [lower, List.length_map, List.length_take] at hlower
  omega

/-- Without the empty prefix there is no token in the empty text. -/
theorem headToken_nil (hp : Foreign stop marker p) : p.headToken stop [] = false := by
  rw [Bool.eq_false_iff]
  intro h
  exact hp.nonempty (List.eq_nil_of_length_eq_zero (Nat.le_zero.mp (headToken_length h)))

theorem behind_suffix (t : Text) : p.behind stop t <:+ t :=
  (List.dropWhile_suffix _).trans (List.drop_suffix _ _)

/-- The walk has one outcome. -/
theorem Swept.unique (hp : Foreign stop marker p) {t s s' : Text} (h : Swept stop marker p t s)
    (h' : Swept stop marker p t s') : s = s' := by
  induction h generalizing s' with
  | nil =>
    cases h' with
    | nil => rfl
    | mask htoken _ =>
      rw [headToken_nil hp] at htoken
      cases htoken
  | keep htoken h ih =>
    cases h' with
    | keep _ h' => rw [ih h']
    | mask htoken' _ =>
      rw [htoken] at htoken'
      cases htoken'
  | mask htoken h ih =>
    cases h' with
    | nil =>
      rw [headToken_nil hp] at htoken
      cases htoken
    | keep htoken' _ =>
      rw [htoken] at htoken'
      cases htoken'
    | mask _ h' => rw [ih h']

/-- No token begins in the first part. -/
theorem Swept.append_left {x y y' : Text} (hx : Free stop p x y)
    (h : Swept stop marker p y y') : Swept stop marker p (x ++ y) (x ++ y') := by
  induction x with
  | nil => exact h
  | cons c x ih =>
    refine .keep (hx (c :: x) (List.cons_ne_nil c x) (List.suffix_refl _)) (ih fun u hu hsuffix => ?_)
    exact hx u hu (hsuffix.trans (List.suffix_cons c x))

/-! ## Two parts -/

theorem Closes.suffix {x x' y : Text} (h : Closes stop p x y) (hsuffix : x' <:+ x) : Closes stop p x' y :=
  fun u hu hin => h u hu (hin.trans hsuffix)

theorem Free.closes {x y : Text} (h : Free stop p x y) : Closes stop p x y := by
  intro u hu hsuffix htoken
  rw [h u hu hsuffix] at htoken
  cases htoken

theorem takeWhile_prefix_append (f : Char → Bool) (l m : Text) : l.takeWhile f <+: (l ++ m).takeWhile f := by
  induction l with
  | nil => exact List.nil_prefix
  | cons c l ih =>
    rw [List.cons_append, List.takeWhile_cons, List.takeWhile_cons]
    split
    · exact (List.prefix_cons_inj c).mpr ih
    · exact List.prefix_refl _

theorem headToken_append {x : Text} (y : Text) (h : p.headToken stop x = true) : p.headToken stop (x ++ y) = true := by
  have hlength := headToken_length h
  simp only [Pattern.headToken, Pattern.short, Bool.and_eq_true, Bool.not_eq_true', decide_eq_false_iff_not,
    not_lt] at h ⊢
  refine ⟨?_, h.2.trans (encode_length_mono ?_)⟩
  · rw [occurs_iff, List.take_append_of_le_length hlength]
    exact occurs_iff.mp h.1
  · rw [Pattern.body, Pattern.body, List.drop_append_of_le_length hlength]
    exact takeWhile_prefix_append _ _ _

/-- What follows the end of a token does not matter to it. -/
theorem headToken_closed {u : Text} (y : Text) (h : ∃ c ∈ u.drop p.start.length, stop c = true) :
    p.headToken stop (u ++ y) = p.headToken stop u ∧ p.behind stop (u ++ y) = p.behind stop u ++ y := by
  obtain ⟨c, hc, hstop⟩ := h
  have hlength : p.start.length ≤ u.length := by
    have := List.length_pos_of_mem hc
    rw [List.length_drop] at this
    omega
  have hends : ¬∀ c ∈ u.drop p.start.length, (!stop c) = true := by
    intro hall
    have := hall c hc
    rw [hstop] at this
    cases this
  constructor
  · have hbody : p.body stop (u ++ y) = p.body stop u := by
      rw [Pattern.body, Pattern.body, List.drop_append_of_le_length hlength, List.takeWhile_append, if_neg]
      intro heq
      refine hends (List.takeWhile_eq_self_iff.mp ?_)
      exact List.IsPrefix.eq_of_length (List.takeWhile_prefix _) heq
    rw [Pattern.headToken, Pattern.headToken, Pattern.short, Pattern.short, hbody, Pattern.occurs, Pattern.occurs,
      List.take_append_of_le_length hlength]
  · rw [Pattern.behind, Pattern.behind, List.drop_append_of_le_length hlength, List.dropWhile_append, if_neg]
    rw [List.isEmpty_iff, List.dropWhile_eq_nil_iff]
    exact hends

/-- Two walks. -/
theorem Swept.append {x x' y y' : Text} (hp : Foreign stop marker p) (hcloses : Closes stop p x y) (hx : Swept stop marker p x x')
    (hy : Swept stop marker p y y') : Swept stop marker p (x ++ y) (x' ++ y') := by
  induction hx with
  | nil => exact hy
  | @keep c x x' htoken hx ih =>
    refine .keep ?_ (ih (hcloses.suffix (List.suffix_cons c x)))
    rw [Bool.eq_false_iff]
    intro hjoined
    have hclosed := hcloses (c :: x) (List.cons_ne_nil c x) (List.suffix_refl _) hjoined
    have hsame := (headToken_closed y hclosed).1
    rw [htoken] at hsame
    exact absurd hjoined (Bool.eq_false_iff.mp hsame)
  | @mask x x' htoken hx ih =>
    have hne : x ≠ [] := by
      rintro rfl
      rw [headToken_nil hp] at htoken
      cases htoken
    have hclosed := hcloses x hne (List.suffix_refl _) (headToken_append y htoken)
    rw [List.append_assoc]
    refine .mask (headToken_append y htoken) ?_
    rw [(headToken_closed y hclosed).2]
    exact ih (hcloses.suffix (behind_suffix x))

/-- A token that nothing cuts short before the first stop character behind it. -/
theorem Swept.cover {x x' t y y' : Text} (hp : Foreign stop marker p) (hcloses : Closes stop p x (t ++ y))
    (htoken : p.headToken stop (t ++ y) = true) (hlength : p.start.length ≤ t.length)
    (hopen : ∀ c ∈ t.drop p.start.length, stop c = false) (hy : ∀ c ∈ y.head?, stop c = true)
    (hx : Swept stop marker p x x') (hrest : Swept stop marker p y y') :
    Swept stop marker p (x ++ (t ++ y)) (x' ++ (marker ++ y')) := by
  refine hx.append hp hcloses (.mask htoken ?_)
  have hgo : ∀ c ∈ t.drop p.start.length, (!stop c) = true := fun c hc => congrArg not (hopen c hc)
  have hhalt : ∀ c ∈ y.head?, (!stop c) = false := fun c hc => congrArg not (hy c hc)
  rw [Pattern.behind, List.drop_append_of_le_length hlength, (takeWhile_append_stop hgo hhalt).2]
  exact hrest

theorem Swept.idle {t : Text} (h : Free stop p t []) : Swept stop marker p t t := by
  have hall := Swept.append_left h (.nil : Swept stop marker p [] [])
  rwa [List.append_nil] at hall

theorem Free.alone {x y : Text} (h : Free stop p x y) : Free stop p x [] := by
  intro u hu hsuffix
  rw [List.append_nil, Bool.eq_false_iff]
  intro htoken
  have := h u hu hsuffix
  rw [headToken_append y htoken] at this
  cases this

/-- What is left of a text that a stop character begins begins with a stop character. -/
theorem Swept.stops (hp : Foreign stop marker p) {t t' : Text} (h : Swept stop marker p t t')
    (ht : ∀ c ∈ t.head?, stop c = true) : ∀ c ∈ t'.head?, stop c = true := by
  cases h with
  | nil => exact ht
  | keep _ _ => exact ht
  | mask _ _ =>
    obtain ⟨c, hc, hstop, -⟩ := hp.opening
    obtain ⟨rest, hmarker⟩ := List.head?_eq_some_iff.mp hc
    rw [hmarker]
    intro d hd
    obtain rfl := Option.some.inj hd
    exact hstop

/-! ## The loop -/

theorem free_of_hasToken {x y : Text} (h : p.hasToken stop (x ++ y) = false) : Free stop p x y := by
  intro u hu hsuffix
  obtain ⟨v, rfl⟩ := hsuffix
  rw [List.append_assoc] at h
  have hrest := hasToken_of_append h
  obtain ⟨c, u, rfl⟩ := List.exists_cons_of_ne_nil hu
  rw [List.cons_append, Pattern.hasToken, Bool.or_eq_false_iff] at hrest
  exact hrest.1

/-- No token begins inside a short occurrence. -/
theorem free_of_short (hp : Foreign stop marker p) {token : Text} (hoccurs : p.occurs token = true)
    (hshort : p.short stop token = true) : Free stop p (token.take p.start.length) (token.drop p.start.length) := by
  intro u hu hsuffix
  obtain ⟨v, hv⟩ := hsuffix
  have hsplit : u ++ token.drop p.start.length = token.drop v.length := by
    conv_rhs => rw [← List.take_append_drop p.start.length token, ← hv, List.append_assoc]
    rw [List.drop_left]
  have hlength : v.length < p.start.length := by
    have htake := congrArg List.length hv
    rw [List.length_append, List.length_take] at htake
    have := List.length_pos_of_ne_nil hu
    omega
  rw [hsplit, Bool.eq_false_iff]
  intro hagain
  have hlong := ((Bool.and_eq_true _ _).mp hagain).2
  have hstill : p.short stop (token.drop v.length) = true := by
    cases v with
    | nil => exact hshort
    | cons c v => exact overlap_short hp (Nat.succ_pos _) hlength hoccurs (headToken_occurs hagain) hshort
  rw [hstill] at hlong
  cases hlong

theorem maskFrom_swept (hp : Foreign stop marker p) {fuel : ℕ} {t : Text} (hfuel : t.length ≤ fuel) :
    Swept stop marker p t (p.maskFrom stop marker fuel t).1 := by
  induction fuel generalizing t with
  | zero =>
    obtain rfl := List.eq_nil_of_length_eq_zero (Nat.le_zero.mp hfuel)
    exact .nil
  | succ fuel ih =>
    rw [Pattern.maskFrom]
    split
    · rename_i hnone
      refine Swept.idle (free_of_hasToken ?_)
      rw [List.append_nil]
      exact find_none hnone
    · rename_i before token hfind
      obtain ⟨rfl, hoccurs, hne, hfirst⟩ := find_some hfind
      have hstart : 0 < p.start.length := List.length_pos_of_ne_nil hp.nonempty
      have htoken : 0 < token.length := List.length_pos_of_ne_nil hne
      rw [List.length_append] at hfuel
      have hdrop : (token.drop p.start.length).length ≤ fuel := by
        rw [List.length_drop]
        omega
      have hbefore : Free stop p before token := fun u hu hsuffix => headToken_of_occurs (hfirst u hu hsuffix)
      split
      · rename_i hshort
        refine Swept.append_left hbefore ?_
        have hkept := Swept.append_left (free_of_short hp hoccurs hshort) (ih hdrop)
        rwa [List.take_append_drop] at hkept
      · rename_i hlong
        refine Swept.append_left hbefore (.mask ?_ (ih ?_))
        · rw [Pattern.headToken, hoccurs, Bool.eq_false_iff.mpr hlong]
          rfl
        · exact (List.length_dropWhile_le _ _).trans hdrop

theorem mask_swept (hp : Foreign stop marker p) (t : Text) : Swept stop marker p t (p.mask stop marker t).1 :=
  maskFrom_swept hp (Nat.le_refl _)

end

end Masking
