import LpStudio.Lib.Str

/-! # ASCII characters in UTF-8
An ASCII character is one byte of its own value, and such a byte is part of no other character, so that a text can be cut
at its bytes.
-/
namespace Str

def isAscii (c : Char) : Bool := c.toNat < 0x80

theorem utf8EncodeChar_ascii {c : Char} (h : isAscii c = true) : String.utf8EncodeChar c = [UInt8.ofNat c.toNat] := by
  have hle : c.val.toNat ≤ 0x7f := Nat.le_of_lt_succ (of_decide_eq_true h)
  simp only [String.utf8EncodeChar, hle, ↓reduceIte]
  rfl

theorem utf8EncodeChar_high {c : Char} (h : isAscii c = false) : ∀ b ∈ String.utf8EncodeChar c, 0x80 ≤ b.toNat := by
  have hnot : ¬c.val.toNat ≤ 0x7f := fun hle => of_decide_eq_false h (Nat.lt_succ_of_le hle)
  have hlead : ∀ n m k : ℕ, k ≤ 0x40 → 0x80 ≤ m → m + k ≤ 0x100 → 0 < k → 0x80 ≤ (UInt8.ofNat (n % k + m)).toNat := by
    intro n m k _ hm hfit hk
    have hlt := Nat.mod_lt n hk
    rw [UInt8.toNat_ofNat']
    omega
  intro b hb
  simp only [String.utf8EncodeChar, hnot, ↓reduceIte] at hb
  split at hb
  · rcases List.mem_pair.mp hb with rfl | rfl
    · exact hlead _ 0xc0 0x20 (by omega) (by omega) (by omega) (by omega)
    · exact hlead _ 0x80 0x40 (by omega) (by omega) (by omega) (by omega)
  split at hb
  · simp only [List.mem_cons, List.not_mem_nil, or_false] at hb
    rcases hb with rfl | rfl | rfl
    · exact hlead _ 0xe0 0x10 (by omega) (by omega) (by omega) (by omega)
    · exact hlead _ 0x80 0x40 (by omega) (by omega) (by omega) (by omega)
    · exact hlead _ 0x80 0x40 (by omega) (by omega) (by omega) (by omega)
  · simp only [List.mem_cons, List.not_mem_nil, or_false] at hb
    rcases hb with rfl | rfl | rfl | rfl
    · exact hlead _ 0xf0 0x08 (by omega) (by omega) (by omega) (by omega)
    · exact hlead _ 0x80 0x40 (by omega) (by omega) (by omega) (by omega)
    · exact hlead _ 0x80 0x40 (by omega) (by omega) (by omega) (by omega)
    · exact hlead _ 0x80 0x40 (by omega) (by omega) (by omega) (by omega)

theorem ascii_byte_injective {a c : Char} (ha : isAscii a = true) (hc : isAscii c = true)
    (h : UInt8.ofNat a.toNat = UInt8.ofNat c.toNat) : a = c := by
  have hnat := congrArg UInt8.toNat h
  rw [UInt8.toNat_ofNat', UInt8.toNat_ofNat'] at hnat
  have hlt := of_decide_eq_true ha
  have hlt' := of_decide_eq_true hc
  exact Char.toNat_inj.mp (by omega)

/-- The byte of an ASCII character cuts the text at the character. -/
theorem encode_cut {a : Char} (ha : isAscii a = true) {t : Text} {before after : Bytes}
    (h : encode t = before ++ UInt8.ofNat a.toNat :: after) :
    ∃ u v, t = u ++ a :: v ∧ encode u = before ∧ encode v = after := by
  induction t generalizing before with
  | nil => simp [encode] at h
  | cons c t ih =>
    rw [encode, List.flatMap_cons] at h
    change String.utf8EncodeChar c ++ encode t = _ at h
    rcases List.append_eq_append_iff.mp h with ⟨rest, rfl, hrest⟩ | ⟨rest, hchar, hrest⟩
    · obtain ⟨u, v, rfl, rfl, rfl⟩ := ih hrest
      exact ⟨c :: u, v, rfl, rfl, rfl⟩
    · cases rest with
      | nil =>
        rw [List.append_nil] at hchar
        have hnil : encode t = [] ++ UInt8.ofNat a.toNat :: after := hrest.symm
        obtain ⟨u, v, rfl, hu, rfl⟩ := ih hnil
        refine ⟨c :: u, v, rfl, ?_, rfl⟩
        rw [encode, List.flatMap_cons]
        change String.utf8EncodeChar c ++ encode u = _
        rw [hu, List.append_nil, hchar]
      | cons b rest =>
        obtain ⟨rfl, rfl⟩ := List.cons.inj hrest
        have hmem : UInt8.ofNat a.toNat ∈ String.utf8EncodeChar c := by
          rw [hchar]
          exact List.mem_append_right _ List.mem_cons_self
        have hascii : isAscii c = true := by
          refine Bool.eq_true_of_not_eq_false fun hhigh => ?_
          have hge := utf8EncodeChar_high hhigh _ hmem
          have hlt := of_decide_eq_true ha
          rw [UInt8.toNat_ofNat'] at hge
          omega
        rw [utf8EncodeChar_ascii hascii] at hchar
        obtain ⟨rfl, hnil⟩ : before = [] ∧ rest = [] := by
          have := congrArg List.length hchar
          simp only [List.length_cons, List.length_nil, List.length_append] at this
          exact ⟨List.length_eq_zero_iff.mp (by omega), List.length_eq_zero_iff.mp (by omega)⟩
        subst hnil
        rw [List.nil_append, List.cons.injEq] at hchar
        obtain rfl := ascii_byte_injective hascii ha hchar.1
        exact ⟨[], t, rfl, rfl, rfl⟩

theorem decode_cut {a : Char} (ha : isAscii a = true) {before after : Bytes} {t : Text} :
    decode (before ++ UInt8.ofNat a.toNat :: after) = some t ↔
      ∃ u v, decode before = some u ∧ decode after = some v ∧ t = u ++ a :: v := by
  constructor
  · intro h
    obtain ⟨u, v, rfl, rfl, rfl⟩ := encode_cut ha (encode_of_decode h)
    exact ⟨u, v, decode_encode u, decode_encode v, rfl⟩
  · rintro ⟨u, v, hu, hv, rfl⟩
    rw [← encode_of_decode hu, ← encode_of_decode hv]
    have hencode : encode (u ++ a :: v) = encode u ++ UInt8.ofNat a.toNat :: encode v := by
      rw [encode, List.flatMap_append, List.flatMap_cons, utf8EncodeChar_ascii ha]
      rfl
    rw [← hencode, decode_encode]

end Str
