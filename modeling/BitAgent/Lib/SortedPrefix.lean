/-
# Lib.SortedPrefix — when a prefix of a sorted list is a set of nearest elements

A list `T` is strictly sorted by `R`, and `key` is another measure. The first `n` elements of `T` are the `n` of least
`key`, in order of `key`, iff `R` and `key` agree on each pair whose first element is among the first `n`
(`take_nearest_iff`).
-/
import Mathlib.Data.List.Basic
import Mathlib.Data.List.Pairwise

namespace BitAgent.Lib.SortedPrefix

open List

variable {α : Type} {R : α → α → Prop} [DecidableRel R]

/-- `ys` are elements of `xs` of least `key`, in ascending order: none that is left out is strictly nearer. -/
structure Nearest (key : α → Nat) (xs ys : List α) : Prop where
  sorted : ys.Pairwise fun a b => key a ≤ key b
  minimal : ∀ x ∈ xs, x ∉ ys → ∀ y ∈ ys, ¬ key x < key y

/-- **Rank.** The first `n` elements of a strictly sorted list are those preceded by fewer than `n`. -/
theorem mem_take_iff_countP (hasymm : ∀ a b, R a b → ¬ R b a) {T : List α} (hT : T.Pairwise R) (n : Nat) (a : α) :
    a ∈ T.take n ↔ a ∈ T ∧ T.countP (fun c => decide (R c a)) < n := by
  have hirrefl : ∀ a, ¬ R a a := fun a h => hasymm a a h h
  induction T generalizing n with
  | nil => simp
  | cons hd tl ih =>
    obtain ⟨hhd, htl⟩ := pairwise_cons.mp hT
    -- the head is preceded by nothing
    have hzero : ∀ b, b = hd → (hd :: tl).countP (fun c => decide (R c b)) = 0 := by grind
    cases n with
    | zero => simp
    | succ n =>
      have htake : a ∈ tl.take n ↔ a ∈ tl ∧ tl.countP (fun c => decide (R c a)) < n := ih htl n
      rw [take_succ_cons, mem_cons, mem_cons, htake]
      grind

/-- **When the first `n` are the nearest**: exactly when the sort order and the measure agree on every pair whose
first element is among them. -/
theorem take_nearest_iff (hasymm : ∀ a b, R a b → ¬ R b a) {T : List α} (hT : T.Pairwise R)
    {key : α → Nat} (hkey : ∀ a ∈ T, ∀ b ∈ T, key a = key b → a = b) (n : Nat) :
    Nearest key T (T.take n) ↔ ∀ a ∈ T, ∀ b ∈ T, R a b → T.countP (fun c => decide (R c a)) < n → key a < key b := by
  constructor
  · rintro ⟨hsorted, hminimal⟩ a ha b hb hab hrank
    have hne : a ≠ b := by
      rintro rfl
      exact hasymm a a hab hab
    have hat : a ∈ T.take n := (mem_take_iff_countP hasymm hT n a).mpr ⟨ha, hrank⟩
    have hle : key a ≤ key b := by
      by_cases hbt : b ∈ T.take n
      · -- both are kept: their order in the list is `R`'s, so `a` is the earlier one
        have hboth : (T.take n).Pairwise fun x y =>
          (R x y ∧ key x ≤ key y) ∨ (R y x ∧ key y ≤ key x) :=
          ((hT.sublist (take_sublist n T)).and hsorted).imp fun h => Or.inl h
        have : Std.Symm fun x y : α => (R x y ∧ key x ≤ key y) ∨ (R y x ∧ key y ≤ key x) := ⟨fun _ _ h => h.symm⟩
        rcases hboth.forall hat hbt hne with h | h
        · exact h.2
        · exact absurd h.1 (hasymm _ _ hab)
      · exact Nat.le_of_not_lt (hminimal b hb hbt a hat)
    grind
  · intro h
    have hkept : ∀ a ∈ T.take n, ∀ b ∈ T, R a b → key a < key b := by grind [mem_take_iff_countP]
    refine ⟨?_, ?_⟩
    · refine (hT.sublist (take_sublist n T)).imp_of_mem ?_
      grind
    · grind [take_append_drop]

end BitAgent.Lib.SortedPrefix
