import Mathlib

/-! # Length-framed byte strings
Behind its length in eight big-endian bytes, a byte string can be told from what follows it.
-/
namespace Framing

/-- `n` in eight bytes, the most significant first. -/
def bigEndian64 (n : ℕ) : List UInt8 := (List.range 8).map fun i => UInt8.ofNat (n / 256 ^ (7 - i))

def frame (bytes : List UInt8) : List UInt8 := bigEndian64 bytes.length ++ bytes

theorem bigEndian64_inj {m n : ℕ} (hm : m < 2 ^ 64) (hn : n < 2 ^ 64)
    (h : bigEndian64 m = bigEndian64 n) : m = n := by
  have hbyte : ∀ i < 8, m / 256 ^ (7 - i) % 256 = n / 256 ^ (7 - i) % 256 := by
    intro i hi
    have := congrArg (fun l => (l[i]?).map UInt8.toNat) h
    simpa [bigEndian64, hi] using this
  have h0 := hbyte 0 (by omega)
  have h1 := hbyte 1 (by omega)
  have h2 := hbyte 2 (by omega)
  have h3 := hbyte 3 (by omega)
  have h4 := hbyte 4 (by omega)
  have h5 := hbyte 5 (by omega)
  have h6 := hbyte 6 (by omega)
  have h7 := hbyte 7 (by omega)
  norm_num at h0 h1 h2 h3 h4 h5 h6 h7 hm hn
  omega

theorem frame_append_inj {a b x y : List UInt8} (ha : a.length < 2 ^ 64) (hb : b.length < 2 ^ 64)
    (h : frame a ++ x = frame b ++ y) : a = b ∧ x = y := by
  rw [frame, frame, List.append_assoc, List.append_assoc] at h
  have hwidth : (bigEndian64 a.length).length = (bigEndian64 b.length).length := by
    simp [bigEndian64]
  obtain ⟨hlength, hrest⟩ := List.append_inj h hwidth
  exact List.append_inj hrest (bigEndian64_inj ha hb hlength)

/-- A list of pairs is determined by its framed fields, one after the other. -/
theorem flatMap_frame_inj {xs ys : List (List UInt8 × List UInt8)}
    (hxs : ∀ x ∈ xs, x.1.length < 2 ^ 64 ∧ x.2.length < 2 ^ 64)
    (hys : ∀ y ∈ ys, y.1.length < 2 ^ 64 ∧ y.2.length < 2 ^ 64)
    (h : (xs.flatMap fun x => frame x.1 ++ frame x.2) = ys.flatMap fun y => frame y.1 ++ frame y.2) :
    xs = ys := by
  have hne : ∀ (a : List UInt8) (l : List UInt8), frame a ++ l ≠ [] := by
    intro a l
    simp [frame, bigEndian64]
  induction xs generalizing ys with
  | nil =>
    cases ys with
    | nil => rfl
    | cons y ys =>
      rw [List.flatMap_nil, List.flatMap_cons, List.append_assoc] at h
      exact absurd h.symm (hne _ _)
  | cons x xs ih =>
    cases ys with
    | nil =>
      rw [List.flatMap_nil, List.flatMap_cons, List.append_assoc] at h
      exact absurd h (hne _ _)
    | cons y ys =>
      rw [List.flatMap_cons, List.flatMap_cons, List.append_assoc, List.append_assoc] at h
      obtain ⟨hx1, hx2⟩ := hxs x List.mem_cons_self
      obtain ⟨hy1, hy2⟩ := hys y List.mem_cons_self
      obtain ⟨hfst, h⟩ := frame_append_inj hx1 hy1 h
      obtain ⟨hsnd, h⟩ := frame_append_inj hx2 hy2 h
      rw [Prod.ext hfst hsnd, ih (fun a ha => hxs a (List.mem_cons_of_mem _ ha))
        (fun b hb => hys b (List.mem_cons_of_mem _ hb)) h]

end Framing
