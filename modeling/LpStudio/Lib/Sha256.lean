import Mathlib

/-! # SHA-256
The digest by its published definition, on natural numbers below `2 ^ 32`, so that it can be evaluated.
-/
namespace Sha256

def word : ℕ := 2 ^ 32

def rotr (n x : ℕ) : ℕ := (x >>> n) ||| ((x <<< (32 - n)) % word)

def roundConstants : List ℕ := [
  0x428a2f98, 0x71374491, 0xb5c0fbcf, 0xe9b5dba5, 0x3956c25b, 0x59f111f1, 0x923f82a4, 0xab1c5ed5,
  0xd807aa98, 0x12835b01, 0x243185be, 0x550c7dc3, 0x72be5d74, 0x80deb1fe, 0x9bdc06a7, 0xc19bf174,
  0xe49b69c1, 0xefbe4786, 0x0fc19dc6, 0x240ca1cc, 0x2de92c6f, 0x4a7484aa, 0x5cb0a9dc, 0x76f988da,
  0x983e5152, 0xa831c66d, 0xb00327c8, 0xbf597fc7, 0xc6e00bf3, 0xd5a79147, 0x06ca6351, 0x14292967,
  0x27b70a85, 0x2e1b2138, 0x4d2c6dfc, 0x53380d13, 0x650a7354, 0x766a0abb, 0x81c2c92e, 0x92722c85,
  0xa2bfe8a1, 0xa81a664b, 0xc24b8b70, 0xc76c51a3, 0xd192e819, 0xd6990624, 0xf40e3585, 0x106aa070,
  0x19a4c116, 0x1e376c08, 0x2748774c, 0x34b0bcb5, 0x391c0cb3, 0x4ed8aa4a, 0x5b9cca4f, 0x682e6ff3,
  0x748f82ee, 0x78a5636f, 0x84c87814, 0x8cc70208, 0x90befffa, 0xa4506ceb, 0xbef9a3f7, 0xc67178f2]

/-- `n` more words of the message schedule, in front of the words so far, the last one first. -/
def extend : ℕ → List ℕ → List ℕ
  | 0, ws => ws
  | n + 1, ws =>
    let x := ws.getD 14 0
    let y := ws.getD 1 0
    extend n (((rotr 17 y ^^^ rotr 19 y ^^^ (y >>> 10)) + ws.getD 6 0 +
      (rotr 7 x ^^^ rotr 18 x ^^^ (x >>> 3)) + ws.getD 15 0) % word :: ws)

structure Registers where
  (a b c d e f g h : ℕ)

def start : Registers := ⟨0x6a09e667, 0xbb67ae85, 0x3c6ef372, 0xa54ff53a, 0x510e527f, 0x9b05688c,
  0x1f83d9ab, 0x5be0cd19⟩

def round (r : Registers) (kw : ℕ × ℕ) : Registers :=
  let t₁ := r.h + (rotr 6 r.e ^^^ rotr 11 r.e ^^^ rotr 25 r.e) +
    ((r.e &&& r.f) ^^^ ((word - 1 - r.e) &&& r.g)) + kw.1 + kw.2
  let t₂ := (rotr 2 r.a ^^^ rotr 13 r.a ^^^ rotr 22 r.a) +
    ((r.a &&& r.b) ^^^ (r.a &&& r.c) ^^^ (r.b &&& r.c))
  ⟨(t₁ + t₂) % word, r.a, r.b, r.c, (r.d + t₁) % word, r.e, r.f, r.g⟩

def compress (r : Registers) (ws : List ℕ) : Registers :=
  let s := (roundConstants.zip (extend 48 ws.reverse).reverse).foldl round r
  ⟨(r.a + s.a) % word, (r.b + s.b) % word, (r.c + s.c) % word, (r.d + s.d) % word,
    (r.e + s.e) % word, (r.f + s.f) % word, (r.g + s.g) % word, (r.h + s.h) % word⟩

def words : List UInt8 → List ℕ
  | a :: b :: c :: d :: rest =>
    (((a.toNat * 256 + b.toNat) * 256 + c.toNat) * 256 + d.toNat) :: words rest
  | _ => []

def pad (bytes : List UInt8) : List UInt8 :=
  bytes ++ [0x80] ++ List.replicate ((119 - bytes.length % 64) % 64) 0 ++
    (List.range 8).map fun i => UInt8.ofNat (8 * bytes.length / 256 ^ (7 - i))

def digest (bytes : List UInt8) : Vector UInt8 32 :=
  let r := ((words (pad bytes)).toChunks 16).foldl compress start
  let ws := [r.a, r.b, r.c, r.d, r.e, r.f, r.g, r.h]
  .ofFn fun i => UInt8.ofNat (ws.getD (i.val / 4) 0 / 256 ^ (3 - i.val % 4))

set_option maxRecDepth 100000 in
example : (digest [0x61, 0x62, 0x63]).toList.take 4 = [0xba, 0x78, 0x16, 0xbf] := by decide +kernel

end Sha256
