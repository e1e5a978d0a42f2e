import LpStudio.Lib.Fault
import LpStudio.Site.Crates

/-! # Names and immutable files
The identifiers that name the entries of the managed root, and `write_immutable`, by which most of its files
come to be.
-/
namespace LpStudio.Storage
open Str Fault

/-- The order of paths, as lists of names. -/
instance transOrdPath : Std.TransOrd (List Text) := inferInstance

inductive StorageError where
  | io | corrupt | drift | unsafeImport | importLimit
  deriving DecidableEq, Repr

/-- `if !condition { return Err(error) }` -/
def ensure (condition : Prop) [Decidable condition] (error : StorageError) : Except StorageError Unit :=
  if condition then .ok () else .error error

theorem ensure_ok {condition : Prop} [Decidable condition] {error : StorageError} :
    ensure condition error = .ok () ↔ condition := by
  unfold ensure
  split
  · exact ⟨fun _ => ‹condition›, fun _ => rfl⟩
  · exact ⟨fun h => (by cases h), fun h => absurd h ‹_›⟩

def isLowerHex (c : Char) : Bool := isAsciiDigit c || (0x61 ≤ c.toNat && c.toNat ≤ 0x66)

def validateNonce (value : Text) : Except StorageError Unit :=
  if value.length = 32 ∧ value.all isLowerHex then .ok () else .error .corrupt

def validateSha256 (value : Text) : Except StorageError Unit :=
  if value.length = 64 ∧ value.all isLowerHex then .ok () else .error .corrupt

def validateIdentifier (value namePrefix : Text) : Except StorageError Unit :=
  match stripPrefix namePrefix value with
  | none => .error .corrupt
  | some suffix => validateNonce suffix

theorem hexDigit_lowerHex : ∀ {n : ℕ}, n < 16 → isLowerHex (hexDigit n) = true := by decide

theorem sha256_valid (K : Crates) (bytes : Bytes) : validateSha256 (K.sha256 bytes) = .ok () := by
  have hlength : ∀ digest : List UInt8, (digest.flatMap Crates.hexByte).length = 2 * digest.length := by
    intro digest
    induction digest with
    | nil => rfl
    | cons b bs ih =>
      rw [List.flatMap_cons, List.length_append, ih, List.length_cons]
      change 2 + _ = _
      omega
  refine if_pos ⟨?_, ?_⟩
  · rw [Crates.sha256, hlength, Vector.length_toList]
  · rw [Crates.sha256, List.all_flatMap, List.all_eq_true]
    intro b _
    have hb := b.toNat_lt
    simp only [Crates.hexByte, List.all_cons, List.all_nil, Bool.and_true, Bool.and_eq_true]
    exact ⟨hexDigit_lowerHex (by omega), hexDigit_lowerHex (Nat.mod_lt _ (by omega))⟩

/-- `bounded_directory_entries` of a directory with so many entries. -/
def boundedDirectoryEntries (entries maximumEntries : ℕ) : Except StorageError Unit :=
  if maximumEntries < entries then .error .corrupt else .ok ()

theorem boundedDirectoryEntries_ok {entries maximumEntries : ℕ} :
    boundedDirectoryEntries entries maximumEntries = .ok () ↔ entries ≤ maximumEntries := by
  unfold boundedDirectoryEntries
  split
  · exact ⟨fun h => (by cases h), fun h => absurd ‹_› (Nat.not_lt.mpr h)⟩
  · exact ⟨fun _ => Nat.not_lt.mp ‹_›, fun _ => rfl⟩

/-! ## Immutable files -/

/-- A path that `write_immutable` writes: what it holds, and what the steps of the write leave in its directory. -/
structure Place (σ α : Type) where
  held : σ → Option α
  /-- The temporary, written in part (0: not even created) or in full. -/
  draft : Option ℕ → α → σ → σ
  discard : σ → σ
  /-- The rename of the temporary onto the path. -/
  publish : α → σ → σ

inductive WriteStep where
  | stat | verify | write | fsync | discard | recheck | rename | sync
  deriving DecidableEq, Repr

section
variable {σ α : Type}

/-- `verify_immutable_bytes`. -/
def verifyImmutable [DecidableEq α] (held value : α) : Except StorageError Unit :=
  if held = value then .ok () else .error .corrupt

/-- `write_new_file` of the temporary. -/
def writeNewFile (place : Place σ α) (value : α) : Program WriteStep σ StorageError Unit := do
  .gradual .io .write (fun n => place.draft (some n) value) (place.draft none value)
  .atomic .io .fsync id

def writeImmutable [DecidableEq α] (place : Place σ α) (value : α) : Program WriteStep σ StorageError Unit := do
  match ← Program.look .io .stat (fun s => .ok (place.held s)) with
  | some held => Program.look .io .verify fun _ => verifyImmutable held value
  | none =>
    (writeNewFile place value).rescue fun e => do
      (Program.atomic .io .discard place.discard).ignore
      .throw e
    let rechecked ← (Program.look .io .recheck fun s => .ok (place.held s)).rescue fun e => do
      (Program.atomic .io .discard place.discard).ignore
      .throw e
    match rechecked with
    | some held => do
      (Program.atomic .io .discard place.discard).ignore
      Program.look .io .verify fun _ => verifyImmutable held value
    | none => do
      (Program.atomic .io .rename (place.publish value)).rescue fun e => do
        (Program.atomic .io .discard place.discard).ignore
        .throw e
      .atomic .io .sync id

/-! ## How a write ends -/

/-- The value is published, and the write reports an error all the same: the rename did so after it took effect (and
the clean-up went on), or the synchronization of the directory did. -/
def Misreported (faults : WriteStep → Fault.Outcome) : Prop :=
  (∀ step ∈ [WriteStep.stat, .write, .fsync, .recheck], faults step = .done) ∧
    ((∃ n, faults .rename = .failed (n + 1)) ∧ (∀ n, faults .discard ≠ .stopped n) ∨
      faults .rename = .done ∧ ∃ n, faults .sync = .failed n)

theorem not_misreported {faults : WriteStep → Fault.Outcome} {l : WriteStep}
    (hmem : l ∈ [WriteStep.stat, .write, .fsync, .recheck]) (hf : faults l ≠ .done) : ¬ Misreported faults :=
  fun h => hf (h.1 l hmem)

/-- The clean-up after an error of the write, from a state with `D` into one with `D`. -/
theorem discard_ends {place : Place σ α} {faults : WriteStep → Fault.Outcome} {s : σ} {D : σ → Prop}
    {e : StorageError} {E : σ → Prop} {S : σ → Prop} {β : Type} {V : β → σ → Prop} (hs : D s)
    (hdiscard : ∀ s, D s → D (place.discard s)) (hE : ∀ s, D s → (∀ n, faults .discard ≠ .stopped n) → E s)
    (hS : ∀ n s, D s → faults .discard = .stopped n → S s) :
    Program.Ends (do (Program.atomic .io .discard place.discard).ignore; Program.throw e :
      Program WriteStep σ StorageError β) faults s V (fun _ s => E s) S := by
  have hnot : ∀ {o}, faults .discard = o → (∀ n, o ≠ .stopped n) → ∀ n, faults .discard ≠ .stopped n := by
    intro o ho hne n hn
    exact hne n (ho ▸ hn)
  refine Program.Ends.bind (Program.Ends.ignore (Program.Ends.atomic (fun hf => ?_) (fun hf => ?_) (fun n hf => ?_)
    (fun hf => ?_) fun n hf => ?_))
  · exact Program.Ends.throw (hE _ (hdiscard s hs) (hnot hf fun _ => Outcome.noConfusion))
  · exact Program.Ends.throw (hE _ hs (hnot hf fun _ => Outcome.noConfusion))
  · exact Program.Ends.throw (hE _ (hdiscard s hs) (hnot hf fun _ => Outcome.noConfusion))
  · exact hS 0 s hs hf
  · exact hS (n + 1) _ (hdiscard s hs) hf

theorem writeNewFile_ends {place : Place σ α} {value : α} {faults : WriteStep → Fault.Outcome} {s : σ} {D : σ → Prop}
    (hdraft : ∀ n, D (place.draft n value s)) :
    Program.Ends (writeNewFile place value) faults s
      (fun _ s' => place.draft none value s = s' ∧ faults .write = .done ∧ faults .fsync = .done)
      (fun _ s' => D s' ∧ ∃ step ∈ [WriteStep.write, .fsync], faults step ≠ .done)
      (fun s' => D s' ∧ ∃ step ∈ [WriteStep.write, .fsync], faults step ≠ .done) := by
  unfold writeNewFile
  refine Program.Ends.bind (Program.Ends.gradual (fun hwrite => ?_) (fun n hn => ?_) fun n hn => ?_)
  · refine Program.Ends.gradual (fun hfsync => ⟨rfl, hwrite, hfsync⟩) (fun n hn => ?_) fun n hn => ?_
    · exact ⟨by split <;> exact hdraft none, .fsync, by simp, by simp [hn]⟩
    · exact ⟨by split <;> exact hdraft none, .fsync, by simp, by simp [hn]⟩
  · exact ⟨hdraft _, .write, by simp, by simp [hn]⟩
  · exact ⟨hdraft _, .write, by simp, by simp [hn]⟩

/-- Where nothing was, a write leaves the value published or only drafts of it. -/
theorem writeImmutable_ends [DecidableEq α] {place : Place σ α} {value : α} {faults : WriteStep → Fault.Outcome} {s : σ}
    {D P : σ → Prop} (hs : D s) (hheld : ∀ s, D s → place.held s = none)
    (hdraft : ∀ n, D (place.draft n value s)) (hdiscard : ∀ s, D s → D (place.discard s))
    (hpublish : P (place.publish value (place.draft none value s)))
    (hpublished : ∀ s, P s → P (place.discard s)) :
    Program.Ends (writeImmutable place value) faults s (fun _ s => ¬ Misreported faults ∧ P s)
      (fun _ s => Misreported faults ∧ P s ∨ ¬ Misreported faults ∧ D s)
      (fun s => ¬ Misreported faults ∧ (P s ∨ D s)) := by
  unfold writeImmutable
  refine Program.Ends.bind (Program.Ends.look (fun a ha hstat => ?_) ?_ (fun n hn => ?_) fun n hn => ?_)
  rotate_left
  · intro e he
    cases he
  · exact .inr ⟨not_misreported (l := .stat) (by simp) (by simp [hn]), hs⟩
  · exact ⟨not_misreported (l := .stat) (by simp) (by simp [hn]), .inr hs⟩
  rw [hheld s hs] at ha
  cases ha
  have hfail : ∀ {l} (s'), l ∈ [WriteStep.stat, .write, .fsync, .recheck] → faults l ≠ .done → D s' →
      Misreported faults ∧ P s' ∨ ¬ Misreported faults ∧ D s' :=
    fun s' hmem hf hD => .inr ⟨not_misreported hmem hf, hD⟩
  have hstop : ∀ {l} (s'), l ∈ [WriteStep.stat, .write, .fsync, .recheck] → faults l ≠ .done → D s' →
      ¬ Misreported faults ∧ (P s' ∨ D s') :=
    fun s' hmem hf hD => ⟨not_misreported hmem hf, .inr hD⟩
  have hsub : ∀ {step}, step ∈ [WriteStep.write, .fsync] → step ∈ [WriteStep.stat, .write, .fsync, .recheck] := by
    decide +revert
  -- The temporary.
  refine Program.Ends.bind (Program.Ends.rescue ((writeNewFile_ends hdraft).mono ?_ ?_ ?_))
  rotate_left
  · rintro e s' ⟨hD, step, hmem, hf⟩
    exact discard_ends hD hdiscard (fun s hD _ => hfail s (hsub hmem) hf hD)
      fun n s hD _ => hstop s (hsub hmem) hf hD
  · rintro s' ⟨hD, step, hmem, hf⟩
    exact hstop s' (hsub hmem) hf hD
  rintro - s' ⟨rfl, hwrite, hfsync⟩
  -- The path again.
  refine Program.Ends.bind (Program.Ends.rescue (Program.Ends.look (fun a ha hrecheck => ?_) ?_ (fun n hn => ?_)
    fun n hn => ?_))
  rotate_left
  · intro e he
    cases he
  · exact discard_ends (hdraft none) hdiscard (fun s hD _ => hfail s (l := .recheck) (by simp) (by simp [hn]) hD)
      fun _ s hD _ => hstop s (l := .recheck) (by simp) (by simp [hn]) hD
  · exact hstop _ (l := .recheck) (by simp) (by simp [hn]) (hdraft none)
  rw [hheld _ (hdraft none)] at ha
  cases ha
  have hdone : ∀ step ∈ [WriteStep.stat, .write, .fsync, .recheck], faults step = .done := by
    simp [hstat, hwrite, hfsync, hrecheck]
  -- The rename.
  refine Program.Ends.bind (Program.Ends.rescue (Program.Ends.atomic (fun hf => ?_) (fun hf => ?_) (fun n hf => ?_)
    (fun hf => ?_) fun n hf => ?_))
  · refine Program.Ends.atomic (fun hs => ?_) (fun hs => ?_) (fun n hs => ?_) (fun hs => ?_) fun n hs => ?_
    · exact ⟨fun h => by simp [Misreported, hf, hs] at h, hpublish⟩
    · exact .inl ⟨⟨hdone, .inr ⟨hf, 0, hs⟩⟩, hpublish⟩
    · exact .inl ⟨⟨hdone, .inr ⟨hf, n + 1, hs⟩⟩, hpublish⟩
    · exact ⟨fun h => by simp [Misreported, hf, hs] at h, .inl hpublish⟩
    · exact ⟨fun h => by simp [Misreported, hf, hs] at h, .inl hpublish⟩
  · have hnot : ¬ Misreported faults := fun h => by simp [Misreported, hf] at h
    exact discard_ends (hdraft none) hdiscard (fun s hD _ => .inr ⟨hnot, hD⟩) fun _ s hD _ => ⟨hnot, .inr hD⟩
  · exact discard_ends hpublish hpublished (fun s hP hn => .inl ⟨⟨hdone, .inl ⟨⟨n, hf⟩, hn⟩⟩, hP⟩)
      fun m s hP hm => ⟨fun h => by simp [Misreported, hf, hm] at h, .inl hP⟩
  · exact ⟨fun h => by simp [Misreported, hf] at h, .inr (hdraft none)⟩
  · exact ⟨fun h => by simp [Misreported, hf] at h, .inl hpublish⟩

end
end LpStudio.Storage
