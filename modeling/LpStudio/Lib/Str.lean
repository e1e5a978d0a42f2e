import Mathlib

/-! # String slices
A UTF-8 string slice is the list of its characters. A cursor into a slice is the suffix it leaves, so
a search returns what it passed over together with what follows.
-/
namespace Str

abbrev Text := List Char
abbrev Bytes := List UInt8

instance : LawfulBEq Text := inferInstanceAs (LawfulBEq (List Char))

/-! ## Character classes -/

/-- The Unicode property `White_Space`. -/
def isWhitespace (c : Char) : Bool :=
  (9 ≤ c.toNat && c.toNat ≤ 13) || c.toNat == 0x20 || c.toNat == 0x85 || c.toNat == 0xA0 ||
  c.toNat == 0x1680 || (0x2000 ≤ c.toNat && c.toNat ≤ 0x200A) || c.toNat == 0x2028 ||
  c.toNat == 0x2029 || c.toNat == 0x202F || c.toNat == 0x205F || c.toNat == 0x3000

/-- The Unicode category `Cc`. -/
def isControl (c : Char) : Bool := c.toNat ≤ 0x1F || (0x7F ≤ c.toNat && c.toNat ≤ 0x9F)

def isAsciiAlphabetic (c : Char) : Bool :=
  (0x41 ≤ c.toNat && c.toNat ≤ 0x5A) || (0x61 ≤ c.toNat && c.toNat ≤ 0x7A)

def isAsciiDigit (c : Char) : Bool := 0x30 ≤ c.toNat && c.toNat ≤ 0x39

def isAsciiAlphanumeric (c : Char) : Bool := isAsciiAlphabetic c || isAsciiDigit c

/-- Space, tab, line feed, form feed, carriage return; unlike `isWhitespace`, no vertical tab. -/
def isAsciiWhitespace (c : Char) : Bool :=
  c.toNat == 0x20 || c.toNat == 9 || c.toNat == 10 || c.toNat == 12 || c.toNat == 13

/-! ## Slices -/

def lower (t : Text) : Text := t.map Char.toLower

def trimStart (t : Text) : Text := t.dropWhile isWhitespace

def trimEnd (t : Text) : Text := t.rdropWhile isWhitespace

def trim (t : Text) : Text := trimEnd (trimStart t)

/-- Equality up to the case of ASCII letters. -/
def eqIgnoreCase (s t : Text) : Bool := lower s == lower t

/-- The text before and after the first occurrence of `pat`. -/
def splitOnce (pat : Text) : Text → Option (Text × Text)
  | [] => if pat = [] then some ([], []) else none
  | c :: cs =>
    if pat.isPrefixOf (c :: cs) then some ([], (c :: cs).drop pat.length)
    else (splitOnce pat cs).map fun (before, after) => (c :: before, after)

/-- The text before and after the last occurrence of `c`. -/
def rsplitOnce (c : Char) (t : Text) : Option (Text × Text) :=
  if c ∈ t then some ((t.rdropWhile (· != c)).dropLast, t.rtakeWhile (· != c)) else none

def stripPrefix (pat t : Text) : Option Text :=
  if pat.isPrefixOf t then some (t.drop pat.length) else none

def contains (pat t : Text) : Bool := (splitOnce pat t).isSome

theorem stripPrefix_append (pat t : Text) : stripPrefix pat (pat ++ t) = some t := by
  rw [stripPrefix, if_pos (List.isPrefixOf_iff_prefix.mpr (List.prefix_append pat t)), List.drop_left]

/-! ## UTF-8 -/

def encode (t : Text) : Bytes := t.flatMap String.utf8EncodeChar

/-- `None` where the bytes are no well-formed UTF-8. -/
def decode (b : Bytes) : Option Text := b.toByteArray.utf8Decode?.map Array.toList

theorem decode_encode (t : Text) : decode (encode t) = some t := by
  have h := List.utf8Decode?_utf8Encode (l := t)
  simp only [List.utf8Encode] at h
  simp [decode, encode, h]

theorem encode_injective : Function.Injective encode := by
  intro s t h
  have := congrArg decode h
  simpa [decode_encode] using this

theorem encode_of_decode {b : Bytes} {t : Text} (h : decode b = some t) : encode t = b := by
  simp only [decode, Option.map_eq_some_iff] at h
  obtain ⟨a, ha, rfl⟩ := h
  have hget : b.toByteArray.utf8Decode?.get (by simp [ha]) = a := by simp [ha]
  have := ByteArray.utf8Encode_get_utf8Decode? (b := b.toByteArray) (h := by simp [ha])
  rw [hget, List.utf8Encode] at this
  simpa [encode] using congrArg (fun x => x.data.toList) this

/-! ## Lengths -/

theorem trimStart_length_le (t : Text) : (trimStart t).length ≤ t.length :=
  (List.dropWhile_sublist _).length_le

theorem splitOnce_length {pat t before after : Text} (hp : pat ≠ [])
    (h : splitOnce pat t = some (before, after)) : after.length < t.length := by
  induction t generalizing before with
  | nil => simp [splitOnce, hp] at h
  | cons c cs ih =>
    simp only [splitOnce] at h
    split at h
    · have : 0 < pat.length := List.length_pos_iff.mpr hp
      simp only [Option.some.injEq, Prod.mk.injEq] at h
      rw [← h.2]; simp; omega
    · simp only [Option.map_eq_some_iff, Prod.mk.injEq, Prod.exists] at h
      obtain ⟨b, a, hba, -, rfl⟩ := h
      have := ih hba
      simp; omega

theorem trimStart_cons_not {c : Char} {t : Text} (h : isWhitespace c = false) :
    trimStart (c :: t) = c :: t := by
  simp [trimStart, h]

/-! ## Where a slice stops -/

theorem takeWhile_append_stop {p : α → Bool} {l r : List α} (hl : ∀ a ∈ l, p a = true)
    (hr : ∀ a ∈ r.head?, p a = false) : (l ++ r).takeWhile p = l ∧ (l ++ r).dropWhile p = r := by
  induction l with
  | nil => cases r with
    | nil => exact ⟨rfl, rfl⟩
    | cons a as => simp [hr a (by simp)]
  | cons a as ih =>
    obtain ⟨ht, hd⟩ := ih fun b hb => hl b (by simp [hb])
    simp [hl a (by simp), ht, hd]

/-- Two classes of stop characters split a text at the same place when no character before the first
stop of one is a stop of the other. -/
theorem split_congr {p q : α → Bool} {l : List α} (hpq : ∀ a, p a = true → q a = true)
    (h : ∀ a ∈ l.takeWhile q, p a = true) :
    l.takeWhile p = l.takeWhile q ∧ l.dropWhile p = l.dropWhile q := by
  have hstop : ∀ a ∈ (l.dropWhile q).head?, p a = false := by
    intro a ha
    have hq := List.head?_dropWhile_not q l
    rw [Option.mem_def.mp ha] at hq
    by_contra hp
    simp [hpq a (by simpa using hp)] at hq
  have := takeWhile_append_stop h hstop
  rwa [List.takeWhile_append_dropWhile] at this

theorem dropWhile_mono_eq {p q : α → Bool} {l : List α} (hpq : ∀ a, p a = true → q a = true)
    (h : ∀ a ∈ (l.dropWhile p).head?, q a = false) : l.dropWhile q = l.dropWhile p := by
  induction l with
  | nil => rfl
  | cons a as ih =>
    cases hp : p a with
    | true =>
      simp only [List.dropWhile_cons, hp, hpq a hp, ↓reduceIte] at h ⊢
      exact ih h
    | false =>
      have := h a (by simp [hp])
      simp [hp, this]

theorem dropWhile_absorb {p q : α → Bool} {l : List α} (hpq : ∀ a, p a = true → q a = true) :
    (l.dropWhile p).dropWhile q = l.dropWhile q := by
  induction l with
  | nil => rfl
  | cons a as ih =>
    cases hp : p a with
    | true => simpa [hp, hpq a hp] using ih
    | false => simp [hp]

theorem rsplitOnce_append {c : Char} {b e : Text} (he : c ∉ e) :
    rsplitOnce c (b ++ c :: e) = some (b, e) := by
  have hchars : ∀ d ∈ e.reverse, (d != c) = true := by
    intro d hd
    simp only [bne_iff_ne, ne_eq]
    rintro rfl
    exact he (List.mem_reverse.mp hd)
  obtain ⟨htake, hdrop⟩ := takeWhile_append_stop (r := c :: b.reverse) hchars (by simp)
  have hrev : (b ++ c :: e).reverse = e.reverse ++ c :: b.reverse := by simp
  simp [rsplitOnce, List.rtakeWhile, List.rdropWhile, hrev, htake, hdrop]

theorem rsplitOnce_eq_some {c : Char} {t b e : Text} :
    rsplitOnce c t = some (b, e) ↔ t = b ++ c :: e ∧ c ∉ e := by
  constructor
  · intro h
    by_cases hc : c ∈ t
    · obtain ⟨as, bs, hsplit, has⟩ := List.eq_append_cons_of_mem (List.mem_reverse.mpr hc)
      have ht : t = bs.reverse ++ c :: as.reverse := by
        rw [← List.reverse_reverse t, hsplit]; simp
      rw [ht, rsplitOnce_append (by simpa using has)] at h
      obtain ⟨rfl, rfl⟩ : bs.reverse = b ∧ as.reverse = e := by simpa using h
      exact ⟨ht, by simpa using has⟩
    · simp [rsplitOnce, hc] at h
  · rintro ⟨rfl, he⟩
    exact rsplitOnce_append he

theorem toLower_eq_dot {c : Char} : c.toLower = '.' ↔ c = '.' := by
  constructor
  · intro h
    unfold Char.toLower at h
    split at h
    · rename_i hupper
      have hval := congrArg UInt32.toNat (congrArg Char.val h)
      simp only [ge_iff_le, UInt32.le_iff_toNat_le] at hupper
      simp at hval hupper
      omega
    · exact h
  · rintro rfl; rfl

/-- The extension of a path, read in two ways. -/
theorem extension_suffix {path ext : Text} (hext : '.' ∉ ext) :
    ('.' :: ext).isSuffixOf (lower path) = true ↔
      ∃ b e, rsplitOnce '.' path = some (b, e) ∧ lower e = ext := by
  rw [List.isSuffixOf_iff_suffix]
  constructor
  · rintro ⟨b, hb⟩
    obtain ⟨b', e', rfl, -, he'⟩ := List.map_eq_append_iff.mp hb.symm
    obtain ⟨d, e, rfl, hd, he⟩ := List.map_eq_cons_iff.mp he'
    obtain rfl : d = '.' := toLower_eq_dot.mp hd
    refine ⟨b', e, rsplitOnce_append ?_, he⟩
    intro hmem
    refine hext ?_
    rw [← he]
    exact List.mem_map.mpr ⟨'.', hmem, rfl⟩
  · rintro ⟨b, e, h, rfl⟩
    obtain ⟨rfl, -⟩ := rsplitOnce_eq_some.mp h
    exact ⟨lower b, by simp [lower]⟩

theorem prefix_head {p tail : Text} {c : Char} (hp : p.head? = some c) (h : p.isPrefixOf tail) :
    tail.head? = some c := by
  cases p with
  | nil => simp at hp
  | cons d ds => cases tail with
    | nil => simp at h
    | cons e es => simp_all [List.isPrefixOf]

theorem not_prefix_of_head {p t : Text} {c d : Char} (hp : p.head? = some c) (ht : t.head? = some d)
    (hne : c ≠ d) : p.isPrefixOf t = false := by
  refine Bool.eq_false_of_not_eq_true fun h => hne ?_
  have hc := prefix_head hp h
  rw [ht] at hc
  exact (Option.some.inj hc).symm

/-- A lower-case hexadecimal digit. -/
def hexDigit (n : ℕ) : Char := if n < 10 then Char.ofNat (0x30 + n) else Char.ofNat (0x61 + (n - 10))

end Str
