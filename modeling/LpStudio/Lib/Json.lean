import LpStudio.Lib.Str

/-! # JSON
Values and their compact rendering, as `serde_json::to_vec` writes them: no blanks, the fields in the order
of their declaration.
-/
open Str

inductive Json where
  | null
  | bool (value : Bool)
  | num (value : ℕ)
  | str (value : Text)
  | arr (items : List Json)
  | obj (fields : List (Text × Json))

namespace Json

/-- A character as it stands between the quotes of a string. -/
def escape (c : Char) : Text :=
  if c = '"' then "\\\"".toList
  else if c = '\\' then "\\\\".toList
  else if c = '\x08' then "\\b".toList
  else if c = '\x09' then "\\t".toList
  else if c = '\n' then "\\n".toList
  else if c = '\x0c' then "\\f".toList
  else if c = '\r' then "\\r".toList
  else if c.toNat < 0x20 then "\\u00".toList ++ [hexDigit (c.toNat / 16), hexDigit (c.toNat % 16)]
  else [c]

def quote (value : Text) : Text := '"' :: (value.flatMap escape ++ ['"'])

mutual
def render : Json → Text
  | null => "null".toList
  | bool true => "true".toList
  | bool false => "false".toList
  | num value => Nat.toDigits 10 value
  | str value => quote value
  | arr items => '[' :: (renderItems items ++ [']'])
  | obj fields => '\x7b' :: (renderFields fields ++ ['\x7d'])

def renderItems : List Json → Text
  | [] => []
  | [item] => render item
  | item :: items => render item ++ ',' :: renderItems items

def renderFields : List (Text × Json) → Text
  | [] => []
  | [(name, value)] => quote name ++ ':' :: render value
  | (name, value) :: fields => quote name ++ ':' :: render value ++ ',' :: renderFields fields
end

example : (obj [("a".toList, arr [num 12, null]), ("b".toList, str ['"', '\x01'])]).render =
    "\x7b\"a\":[12,null],\"b\":\"\\\"\\u0001\"\x7d".toList := by
  decide

/-! ## Unique readability
A rendering followed by anything but a digit determines the value and where its rendering ends.
-/

/-- The text does not continue a number. -/
def Stops (rest : Text) : Prop := ∀ c ∈ rest.head?, c.isDigit = false

theorem stops_cons {c : Char} {rest : Text} (h : c.isDigit = false) : Stops (c :: rest) := by
  intro d hd
  obtain rfl := Option.some.inj hd
  exact h

theorem toDigits_append_inj {m n : ℕ} {r s : Text} (hr : Stops r) (hs : Stops s)
    (h : Nat.toDigits 10 m ++ r = Nat.toDigits 10 n ++ s) : m = n ∧ r = s := by
  have hdigits : ∀ k : ℕ, ∀ c ∈ Nat.toDigits 10 k, c.isDigit = true := fun k c hc =>
    Nat.isDigit_of_mem_toDigits (by decide) (by decide) hc
  obtain ⟨hm, hm'⟩ := takeWhile_append_stop (hdigits m) hr
  obtain ⟨hn, hn'⟩ := takeWhile_append_stop (hdigits n) hs
  rw [h] at hm hm'
  refine ⟨?_, hm'.symm.trans hn'⟩
  calc m = Nat.ofDigitChars 10 (Nat.toDigits 10 m) 0 := (Nat.ofDigitChars_toDigits (by decide) (by decide)).symm
    _ = Nat.ofDigitChars 10 (Nat.toDigits 10 n) 0 := by rw [hm.symm.trans hn]
    _ = n := Nat.ofDigitChars_toDigits (by decide) (by decide)

/-- The value of a lower-case hexadecimal digit. -/
def hexDigitValue (c : Char) : ℕ := if c.isDigit then c.toNat - 0x30 else c.toNat - 0x61 + 10

theorem hexDigitValue_hexDigit : ∀ {n : ℕ}, n < 16 → hexDigitValue (hexDigit n) = n := by decide

/-- The first character that a string's text stands for, and the rest of the text. -/
def unescape : Text → Option (Char × Text)
  | [] => none
  | '\\' :: 'b' :: rest => some ('\x08', rest)
  | '\\' :: 't' :: rest => some ('\x09', rest)
  | '\\' :: 'n' :: rest => some ('\n', rest)
  | '\\' :: 'f' :: rest => some ('\x0c', rest)
  | '\\' :: 'r' :: rest => some ('\r', rest)
  | '\\' :: 'u' :: _ :: _ :: high :: low :: rest =>
    some (Char.ofNat (hexDigitValue high * 16 + hexDigitValue low), rest)
  | '\\' :: c :: rest => some (c, rest)
  | c :: rest => some (c, rest)

theorem unescape_escape (c : Char) (rest : Text) : unescape (escape c ++ rest) = some (c, rest) := by
  unfold escape
  split_ifs with hquote hslash hb ht hn hf hr hcontrol
  · subst hquote; rfl
  · subst hslash; rfl
  · subst hb; rfl
  · subst ht; rfl
  · subst hn; rfl
  · subst hf; rfl
  · subst hr; rfl
  · show some (Char.ofNat (hexDigitValue (hexDigit (c.toNat / 16)) * 16 + hexDigitValue (hexDigit (c.toNat % 16))), rest)
      = some (c, rest)
    rw [hexDigitValue_hexDigit (by omega), hexDigitValue_hexDigit (by omega), Nat.div_add_mod', Char.ofNat_toNat]
  · rw [List.singleton_append]
    unfold unescape
    split <;> simp_all

theorem escape_append_inj {c d : Char} {r s : Text} (h : escape c ++ r = escape d ++ s) : c = d ∧ r = s := by
  have hboth := unescape_escape c r
  rw [h, unescape_escape] at hboth
  simp only [Option.some.injEq, Prod.mk.injEq] at hboth
  exact ⟨hboth.1.symm, hboth.2.symm⟩

theorem escape_ne_quote (c : Char) (r s : Text) : escape c ++ r ≠ '"' :: s := by
  unfold escape
  split_ifs <;> simp_all

theorem quote_append_inj {v w r s : Text} (h : quote v ++ r = quote w ++ s) : v = w ∧ r = s := by
  simp only [quote, List.cons_append, List.append_assoc, List.cons.injEq, true_and, List.nil_append] at h
  induction v generalizing w with
  | nil =>
    cases w with
    | nil => exact ⟨rfl, by simpa using h⟩
    | cons d w =>
      simp only [List.flatMap_nil, List.nil_append, List.flatMap_cons, List.append_assoc] at h
      exact absurd h.symm (escape_ne_quote d _ _)
  | cons c v ih =>
    cases w with
    | nil =>
      simp only [List.flatMap_nil, List.nil_append, List.flatMap_cons, List.append_assoc] at h
      exact absurd h (escape_ne_quote c _ _)
    | cons d w =>
      simp only [List.flatMap_cons, List.append_assoc] at h
      obtain ⟨rfl, htail⟩ := escape_append_inj h
      obtain ⟨rfl, hrest⟩ := ih htail
      exact ⟨rfl, hrest⟩

/-- The character that a rendering begins with, all digits taken as one. -/
def lead (c : Char) : Char := if c.isDigit then '0' else c

def leadOf : Json → Char
  | null => 'n'
  | bool true => 't'
  | bool false => 'f'
  | num _ => '0'
  | str _ => '"'
  | arr _ => '['
  | obj _ => '\x7b'

theorem lead_render (v : Json) : ∃ c rest, render v = c :: rest ∧ lead c = leadOf v := by
  cases v with
  | null => exact ⟨_, _, rfl, rfl⟩
  | bool value => cases value <;> exact ⟨_, _, rfl, rfl⟩
  | num value =>
    obtain ⟨c, rest, hc⟩ := List.exists_cons_of_ne_nil (Nat.toDigits_ne_nil (n := value) (b := 10))
    refine ⟨c, rest, by rw [render, hc], ?_⟩
    rw [lead, Nat.isDigit_of_mem_toDigits (by decide) (by decide) (hc ▸ List.mem_cons_self)]
    rfl
  | str value => exact ⟨_, _, by rw [render, quote], rfl⟩
  | arr items => exact ⟨_, _, by rw [render], rfl⟩
  | obj fields => exact ⟨_, _, by rw [render], rfl⟩

theorem lead_append_inj {v w : Json} {r s : Text} (h : render v ++ r = render w ++ s) : leadOf v = leadOf w := by
  obtain ⟨c, rest, hc, hlead⟩ := lead_render v
  obtain ⟨d, rest', hd, hlead'⟩ := lead_render w
  rw [hc, hd] at h
  rw [← hlead, ← hlead', (List.cons.inj h).1]

theorem render_ne_close {v : Json} {c : Char} {r s : Text} (hc : c = ']' ∨ c = '\x7d') : render v ++ r ≠ c :: s := by
  intro h
  obtain ⟨d, rest, hd, hlead⟩ := lead_render v
  rw [hd] at h
  rw [(List.cons.inj h).1] at hlead
  rcases hc with rfl | rfl
  · cases v with
    | bool value => cases value <;> exact absurd hlead (by decide)
    | _ => exact absurd hlead (by simp [lead, leadOf])
  · cases v with
    | bool value => cases value <;> exact absurd hlead (by decide)
    | _ => exact absurd hlead (by simp [lead, leadOf])

/-- What follows an item of an array. -/
def afterItem (items : List Json) (rest : Text) : Text :=
  if items.isEmpty then ']' :: rest else ',' :: (renderItems items ++ ']' :: rest)

theorem renderItems_cons (item : Json) (items : List Json) (rest : Text) :
    renderItems (item :: items) ++ ']' :: rest = render item ++ afterItem items rest := by
  cases items with
  | nil => rw [renderItems]; rfl
  | cons next items => simp [renderItems, afterItem]

/-- What follows a field of an object. -/
def afterField (fields : List (Text × Json)) (rest : Text) : Text :=
  if fields.isEmpty then '\x7d' :: rest else ',' :: (renderFields fields ++ '\x7d' :: rest)

theorem renderFields_cons (name : Text) (value : Json) (fields : List (Text × Json)) (rest : Text) :
    renderFields ((name, value) :: fields) ++ '\x7d' :: rest =
      quote name ++ ':' :: (render value ++ afterField fields rest) := by
  cases fields with
  | nil => simp [renderFields, afterField]
  | cons next fields => simp [renderFields, afterField]

theorem stops_afterItem (items : List Json) (rest : Text) : Stops (afterItem items rest) := by
  unfold afterItem
  split
  · exact stops_cons (by decide)
  · exact stops_cons (by decide)

theorem stops_afterField (fields : List (Text × Json)) (rest : Text) : Stops (afterField fields rest) := by
  unfold afterField
  split
  · exact stops_cons (by decide)
  · exact stops_cons (by decide)

mutual
theorem render_append_inj (v w : Json) {r s : Text} (hr : Stops r) (hs : Stops s)
    (h : render v ++ r = render w ++ s) : v = w ∧ r = s := by
  have hlead := lead_append_inj h
  cases v with
  | null =>
    cases w with
    | null => exact ⟨rfl, List.append_cancel_left h⟩
    | bool value => cases value <;> exact absurd hlead (by decide)
    | _ => exact absurd hlead (by simp [leadOf])
  | bool value =>
    cases w with
    | bool value' =>
      cases value with
      | false => 
        cases value' with
        | false => exact ⟨rfl, List.append_cancel_left h⟩
        | true => exact absurd hlead (by decide)
      | true => 
        cases value' with
        | false => exact absurd hlead (by decide)
        | true => exact ⟨rfl, List.append_cancel_left h⟩
    | _ => cases value <;> exact absurd hlead (by simp [leadOf])
  | num value =>
    cases w with
    | num value' =>
      obtain ⟨rfl, hrest⟩ := toDigits_append_inj hr hs (by simpa only [render] using h)
      exact ⟨rfl, hrest⟩
    | bool value' => cases value' <;> exact absurd hlead (by simp [leadOf])
    | _ => exact absurd hlead (by simp [leadOf])
  | str value =>
    cases w with
    | str value' =>
      obtain ⟨rfl, hrest⟩ := quote_append_inj (by simpa only [render] using h)
      exact ⟨rfl, hrest⟩
    | bool value' => cases value' <;> exact absurd hlead (by simp [leadOf])
    | _ => exact absurd hlead (by simp [leadOf])
  | arr items =>
    cases w with
    | arr items' =>
      simp only [render, List.cons_append, List.append_assoc, List.nil_append, List.cons.injEq, true_and] at h
      obtain ⟨rfl, hrest⟩ := renderItems_append_inj items items' h
      exact ⟨rfl, hrest⟩
    | bool value' => cases value' <;> exact absurd hlead (by simp [leadOf])
    | _ => exact absurd hlead (by simp [leadOf])
  | obj fields =>
    cases w with
    | obj fields' =>
      simp only [render, List.cons_append, List.append_assoc, List.nil_append, List.cons.injEq, true_and] at h
      obtain ⟨rfl, hrest⟩ := renderFields_append_inj fields fields' h
      exact ⟨rfl, hrest⟩
    | bool value' => cases value' <;> exact absurd hlead (by simp [leadOf])
    | _ => exact absurd hlead (by simp [leadOf])

theorem renderItems_append_inj (items items' : List Json) {r s : Text}
    (h : renderItems items ++ ']' :: r = renderItems items' ++ ']' :: s) : items = items' ∧ r = s := by
  cases items with
  | nil =>
    cases items' with
    | nil => exact ⟨rfl, by simpa [renderItems] using h⟩
    | cons item' items' =>
      rw [renderItems_cons] at h
      exact absurd h.symm (render_ne_close (Or.inl rfl))
  | cons item items =>
    cases items' with
    | nil =>
      rw [renderItems_cons] at h
      exact absurd h (render_ne_close (Or.inl rfl))
    | cons item' items' =>
      rw [renderItems_cons, renderItems_cons] at h
      obtain ⟨rfl, hafter⟩ := render_append_inj item item' (stops_afterItem _ _) (stops_afterItem _ _) h
      cases items with
      | nil =>
        cases items' with
        | nil => exact ⟨rfl, (List.cons.inj hafter).2⟩
        | cons next' items' => exact absurd (List.cons.inj hafter).1 (by decide)
      | cons next items =>
        cases items' with
        | nil => exact absurd (List.cons.inj hafter).1 (by decide)
        | cons next' items' =>
          obtain ⟨hitems, hrest⟩ := renderItems_append_inj (next :: items) (next' :: items') (List.cons.inj hafter).2
          exact ⟨by rw [hitems], hrest⟩

theorem renderFields_append_inj (fields fields' : List (Text × Json)) {r s : Text}
    (h : renderFields fields ++ '\x7d' :: r = renderFields fields' ++ '\x7d' :: s) : fields = fields' ∧ r = s := by
  cases fields with
  | nil =>
    cases fields' with
    | nil => exact ⟨rfl, by simpa [renderFields] using h⟩
    | cons field' fields' =>
      rw [renderFields_cons] at h
      simp [renderFields, quote] at h
  | cons field fields =>
    obtain ⟨name, value⟩ := field
    cases fields' with
    | nil =>
      rw [renderFields_cons] at h
      simp [renderFields, quote] at h
    | cons field' fields' =>
      obtain ⟨name', value'⟩ := field'
      rw [renderFields_cons, renderFields_cons] at h
      obtain ⟨rfl, hcolon⟩ := quote_append_inj h
      obtain ⟨rfl, hafter⟩ :=
        render_append_inj value value' (stops_afterField _ _) (stops_afterField _ _) (List.cons.inj hcolon).2
      cases fields with
      | nil =>
        cases fields' with
        | nil => exact ⟨rfl, (List.cons.inj hafter).2⟩
        | cons next' fields' => exact absurd (List.cons.inj hafter).1 (by decide)
      | cons next fields =>
        cases fields' with
        | nil => exact absurd (List.cons.inj hafter).1 (by decide)
        | cons next' fields' =>
          obtain ⟨hfields, hrest⟩ :=
            renderFields_append_inj (next :: fields) (next' :: fields') (List.cons.inj hafter).2
          exact ⟨by rw [hfields], hrest⟩
end

theorem render_injective : Function.Injective render := by
  intro v w h
  exact (render_append_inj v w (r := []) (s := []) (by intro c hc; cases hc) (by intro c hc; cases hc) (by rw [h])).1

end Json
