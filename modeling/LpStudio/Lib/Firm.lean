import LpStudio.Lib.Replies

/-! # Programs that can be run again
A recovery has to do two things: whatever fails, it leaves a state that it can start from again, and if nothing fails it
ends. The rules follow the program, so that both are proved at once.
-/
namespace Fault.Program

universe u
variable {L M σ ε α β : Type u} {p : Program L σ ε α} {k : α → Program L σ ε β} {s : σ} {V V' : α → σ → Prop}
  {W : β → σ → Prop} {I J : σ → Prop}

/-- From `s` the program ends in a value with `V`, or before that with `I`; and in a value, if nothing fails. -/
structure Firm (p : Program L σ ε α) (s : σ) (V : α → σ → Prop) (I : σ → Prop) : Prop where
  ends : ∀ faults, Ends p faults s V (fun _ => I) I
  yields : Yields p s V

namespace Firm

theorem mono (h : Firm p s V I) (hV : ∀ a s, V a s → V' a s) (hI : ∀ s, I s → J s) : Firm p s V' J where
  ends faults := (h.ends faults).mono hV (fun _ => hI) hI
  yields := h.yields.mono hV

theorem pure {a : α} (h : V a s) : Firm (Pure.pure a : Program L σ ε α) s V I := ⟨fun _ => Ends.pure h, Yields.pure h⟩

theorem bind (h : Firm p s V I) (hk : ∀ a s, V a s → Firm (k a) s W I) : Firm (p >>= k) s W I where
  ends faults := Ends.bind ((h.ends faults).mono (fun a s hv => (hk a s hv).ends faults) (fun _ _ h => h) fun _ h => h)
  yields := Yields.bind (h.yields.mono fun a s hv => (hk a s hv).yields)

theorem relabel {f : M → L} {p : Program M σ ε α} (h : Firm p s V I) : Firm (p.relabel f) s V I :=
  ⟨fun faults => Ends.relabel (h.ends (faults ∘ f)), Yields.relabel h.yields⟩

/-- A look that sees what the state is known to show. -/
theorem look {io : ε} {label : L} {f : σ → Except ε α} {a : α} (hI : I s) (hf : f s = .ok a) (hV : V a s) :
    Firm (Program.look io label f) s V I where
  ends faults := by
    refine Ends.look (fun b hb _ => ?_) (fun e he => ?_) (fun _ _ => hI) fun _ _ => hI
    · cases hf.symm.trans hb
      exact hV
    · cases hf.symm.trans he
  yields := Yields.look hf hV

theorem gradual {io : ε} {label : L} {part : ℕ → σ → σ} {effect : σ → σ} {V : PUnit → σ → Prop} (hpart : ∀ n, I (part n s))
    (hV : V ⟨⟩ (effect s)) : Firm (Program.gradual io label part effect) s V I where
  ends _ := Ends.gradual (fun _ => hV) (fun n _ => hpart n) fun n _ => hpart n
  yields := Yields.gradual hV

theorem atomic {io : ε} {label : L} {effect : σ → σ} {V : PUnit → σ → Prop} (hI : I s) (hI' : I (effect s))
    (hV : V ⟨⟩ (effect s)) : Firm (Program.atomic io label effect) s V I := by
  refine gradual (fun n => ?_) hV
  split
  · exact hI
  · exact hI'

/-- Runs that end early may be repeated. -/
theorem repeats {p : Program L σ ε PUnit} (hp : ∀ s, I s → Firm p s (fun _ => I) I) (attempts : List (L → Outcome))
    (hs : I s) : I (attempts.foldl (fun s faults => (p faults s).2) s) := by
  induction attempts generalizing s with
  | nil => exact hs
  | cons faults attempts ih => exact ih (Ends.final ((hp s hs).ends faults))

end Firm
end Fault.Program
