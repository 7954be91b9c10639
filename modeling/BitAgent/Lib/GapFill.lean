/-
# Lib.GapFill — programs that only fill empty fields

A state has fields, each empty or with a value. A fallible program goes through a list of inputs, and each
step puts into every empty field what the input offers for it and leaves the other fields as they are.
Then a field that had a value keeps it, and an empty one gets the first offer.
-/
import BitAgent.Lib.Prelude

namespace BitAgent.Lib.GapFill

variable {σ α ε ι : Type} {V : ι → Type}

/-- A step fills gaps with its offers, and only gaps. -/
def Fills (get : σ → (i : ι) → Option (V i)) (step : σ → α → Except ε σ)
    (offer : σ → α → (i : ι) → Option (V i)) : Prop :=
  ∀ s a s', step s a = .ok s' → ∀ i, get s' i = (get s i).or (offer s a i)

/-- The first offer for a field, from a state on. -/
def firstOffer (step : σ → α → Except ε σ) (offer : σ → α → (i : ι) → Option (V i)) :
    σ → List α → (i : ι) → Option (V i)
  | _, [], _ => none
  | s, a :: as, i => (offer s a i).or
      (match step s a with
        | .ok s' => firstOffer step offer s' as i
        | .error _ => none)

/-- **A run fills gaps with first offers.** -/
theorem get_foldlM {get : σ → (i : ι) → Option (V i)} {step : σ → α → Except ε σ}
    {offer : σ → α → (i : ι) → Option (V i)} (hfills : Fills get step offer) {s s' : σ}
    {as : List α} (hrun : as.foldlM step s = .ok s') (i : ι) :
    get s' i = (get s i).or (firstOffer step offer s as i) := by
  induction as generalizing s with
  | nil =>
    obtain rfl : s = s' := Except.ok.inj hrun
    rw [firstOffer, Option.or_none]
  | cons a as ih =>
    rw [List.foldlM_cons] at hrun
    obtain ⟨mid, hmid, hrest⟩ := accepted_bind_iff.mp hrun
    rw [ih hrest, hfills s a mid hmid i, firstOffer, hmid, Option.or_assoc]

end BitAgent.Lib.GapFill
