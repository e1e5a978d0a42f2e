import LpStudio.Lib.Sha256
import LpStudio.Lib.Zip

/-! # Third-party functions
The crates the server calls appear as parameters. A result that relies on one of them says on what.
-/
namespace LpStudio
open Str

/-- What the server reads of a `url::Url`. -/
structure Url where
  scheme : Text
  hostStr : Option Text
  username : Text
  password : Option Text
  query : Option Text
  fragment : Option Text
  /-- `origin().ascii_serialization()` -/
  origin : Text
  /-- The serialization once `set_username("")`, `set_password(None)`, `set_query(None)` and
  `set_fragment(None)` have run; `none` where a setter fails. -/
  cleared : Option Text
  deriving DecidableEq, Repr

structure Crates where
  /-- `Sha256::digest` of `sha2`. -/
  sha256Digest : Bytes → Vector UInt8 32
  /-- `nfc` of `unicode_normalization`. -/
  nfc : Text → Text
  /-- `UniCase::to_folded_case` of `unicase`. -/
  toFoldedCase : Text → Text
  /-- `str::to_lowercase`, by the Unicode tables. -/
  toLowercase : Text → Text
  /-- `Url::parse` of `url`. -/
  urlParse : Text → Option Url
  /-- `mime_guess::from_path(path).first_or_octet_stream().essence_str()`. -/
  mimeGuess : Text → Text
  /-- `ZipWriter` of `zip`, with stored entries and fixed metadata. -/
  zip : List (Text × Bytes) → Option Bytes

namespace Crates

/-- `format!("{byte:02x}")`. -/
def hexByte (b : UInt8) : Text := [hexDigit (b.toNat / 16), hexDigit (b.toNat % 16)]

/-- `sha256`: the digest in lower-case hexadecimal. -/
def sha256 (K : Crates) (bytes : Bytes) : Text := (K.sha256Digest bytes).toList.flatMap hexByte

theorem hexDigit_inj : ∀ {m : Nat}, m < 16 → ∀ {n : Nat}, n < 16 → hexDigit m = hexDigit n → m = n := by
  decide

theorem hexByte_inj {a b : UInt8} (h : hexByte a = hexByte b) : a = b := by
  simp only [hexByte, List.cons.injEq, and_true] at h
  have ha := a.toNat_lt
  have hb := b.toNat_lt
  have hi := hexDigit_inj (by omega) (by omega) h.1
  have lo := hexDigit_inj (Nat.mod_lt _ (by omega)) (Nat.mod_lt _ (by omega)) h.2
  exact UInt8.toNat_inj.mp (by omega)

theorem hex_injective : Function.Injective (List.flatMap hexByte) := by
  intro xs ys h
  induction xs generalizing ys with
  | nil => cases ys with
    | nil => rfl
    | cons y ys => simp [hexByte] at h
  | cons x xs ih => cases ys with
    | nil => simp [hexByte] at h
    | cons y ys =>
      simp only [List.flatMap_cons] at h
      have hlen : (hexByte x).length = (hexByte y).length := rfl
      obtain ⟨hx, hxs⟩ := List.append_inj h hlen
      rw [hexByte_inj hx, ih hxs]

theorem sha256_eq_iff (K : Crates) (x y : Bytes) :
    K.sha256 x = K.sha256 y ↔ K.sha256Digest x = K.sha256Digest y := by
  constructor
  · intro h
    exact Vector.toList_inj.mp (hex_injective h)
  · intro h; rw [sha256, sha256, h]

end Crates

/-- Crates for evaluation on ASCII text without URLs. -/
def sampleCrates : Crates where
  sha256Digest := Sha256.digest
  nfc := id
  toFoldedCase := lower
  toLowercase := lower
  urlParse _ := none
  mimeGuess path :=
    if ".html".toList.isSuffixOf path then "text/html".toList
    else if ".svg".toList.isSuffixOf path then "image/svg+xml".toList
    else "application/octet-stream".toList
  zip entries := some (Zip.stored entries)

end LpStudio
