/-
# Lib.Run — runs of a transition function under a schedule

A system is a function `step : σ → ι → σ`, a schedule an infinite sequence of inputs, and `stateAt` the state before
each of them. An invariant of `step` holds along every run, and a fact that every step keeps except those of a given
kind holds until the first of them. A finite run is a fold. `Since on off` says that `on` held at some input and `off`
at none later. `Reaches` lists the inputs that were possible where one may have to wait.
-/
import Mathlib.Data.List.Induction
import Mathlib.Data.Nat.Init

namespace BitAgent.Lib.Run

open List

variable {σ ι : Type} (step : σ → ι → σ)

/-- The state before input `k` of a schedule. -/
def stateAt (start : σ) (schedule : Nat → ι) : Nat → σ
  | 0 => start
  | k + 1 => step (stateAt start schedule k) (schedule k)

variable {I : σ → Prop} {start : σ}

/-- **Invariant rule.** -/
theorem stateAt_invariant (hstart : I start) (hstep : ∀ s a, I s → I (step s a)) (schedule : Nat → ι) (k : Nat) :
    I (stateAt step start schedule k) := by
  induction k with
  | zero => exact hstart
  | succ k ih => exact hstep _ _ ih

theorem stateAt_invariant_of {ok : ι → Prop} (hstart : I start) (hstep : ∀ s a, ok a → I s → I (step s a))
    {schedule : Nat → ι} (hok : ∀ k, ok (schedule k)) (k : Nat) : I (stateAt step start schedule k) := by
  induction k with
  | zero => exact hstart
  | succ k ih => exact hstep _ _ (hok k) ih

def replay (inputs : List ι) (idle : ι) (k : Nat) : ι := (inputs[k]?).getD idle

theorem stateAt_replay (start : σ) (inputs : List ι) (idle : ι) :
    stateAt step start (replay inputs idle) inputs.length = inputs.foldl step start := by
  have htaken : ∀ k ≤ inputs.length, stateAt step start (replay inputs idle) k = (inputs.take k).foldl step start := by
    intro k hk
    induction k with
    | zero => rfl
    | succ k ih => grind [take_add_one, stateAt, replay]
  rw [htaken _ (Nat.le_refl _), take_length]

theorem replay_mem (inputs : List ι) (idle : ι) (k : Nat) :
    replay inputs idle k ∈ inputs ∨ replay inputs idle k = idle := by grind [replay]

/-- **Persistence rule.** A fact that each moment hands on unless an `event` happens holds from `i` to `j`, or one
happened. -/
theorem persists_until {P event : Nat → Prop} (hstep : ∀ k, P k → P (k + 1) ∨ event k)
    {i j : Nat} (hij : i ≤ j) (hi : P i) : P j ∨ ∃ k, i ≤ k ∧ k < j ∧ event k := by
  induction j, hij using Nat.le_induction with
  | base => exact .inl hi
  | succ j hij ih => grind

/-! ## Finite runs -/

theorem foldl_concat (start : σ) (inputs : List ι) (a : ι) :
    (inputs ++ [a]).foldl step start = step (inputs.foldl step start) a := by
  rw [foldl_append, foldl_cons, foldl_nil]

theorem foldl_invariant (hstart : I start) (hstep : ∀ s a, I s → I (step s a)) (inputs : List ι) :
    I (inputs.foldl step start) := by
  induction inputs using List.reverseRecOn with
  | nil => exact hstart
  | append_singleton inputs a ih =>
    rw [foldl_concat]
    exact hstep _ _ ih

/-- `on` held at some input of a finite run, and `off` at none after it. -/
def Since (on off : σ → ι → Prop) (start : σ) (inputs : List ι) : Prop :=
  ∃ before a after, inputs = before ++ a :: after ∧ on (before.foldl step start) a ∧
    ∀ mid b rest, after = mid ++ b :: rest → ¬ off ((before ++ a :: mid).foldl step start) b

variable {step} {on off : σ → ι → Prop} {start : σ}

theorem not_since_nil : ¬ Since step on off start [] := by
  rintro ⟨before, a, after, hsplit, -⟩
  simp at hsplit

theorem since_concat (inputs : List ι) (a : ι) : Since step on off start (inputs ++ [a]) ↔
      on (inputs.foldl step start) a ∨ (Since step on off start inputs ∧ ¬ off (inputs.foldl step start) a) := by
  constructor
  · rintro ⟨before, x, after, hsplit, hon, hoff⟩
    rcases eq_nil_or_concat after with rfl | ⟨after, last, rfl⟩
    · grind [append_inj']
    · rw [concat_eq_append, ← cons_append, ← append_assoc] at hsplit
      obtain ⟨rfl, hlast⟩ := append_inj' hsplit rfl
      rw [head_eq_of_cons_eq hlast]
      refine .inr ⟨⟨before, x, after, rfl, hon, ?_⟩, ?_⟩
      · grind
      · exact hoff after last [] (by simp)
  · rintro (hon | ⟨⟨before, x, after, rfl, hon, hoff⟩, hlast⟩)
    · refine ⟨inputs, a, [], rfl, hon, ?_⟩
      intro mid b rest hrest
      simp at hrest
    · refine ⟨before, x, after ++ [a], by simp, hon, ?_⟩
      intro mid b rest hrest
      rcases eq_nil_or_concat rest with rfl | ⟨rest, last, rfl⟩
      · grind [append_inj']
      · grind [append_inj']

/-- **Flag rule.** A flag that goes up with `on` and down with `off` is up exactly if `on` held and `off` did not
since. -/
theorem flag_iff_since (flag : σ → Prop) (hstart : I start) (hdown : ¬ flag start) (hstep : ∀ s a, I s → I (step s a))
    (hflag : ∀ s a, I s → (flag (step s a) ↔ on s a ∨ (flag s ∧ ¬ off s a))) (inputs : List ι) :
    flag (inputs.foldl step start) ↔ Since step on off start inputs := by
  induction inputs using List.reverseRecOn with
  | nil => exact iff_of_false hdown not_since_nil
  | append_singleton inputs a ih =>
    rw [foldl_concat, hflag _ _ (foldl_invariant step hstart hstep inputs), since_concat, ih]

/-! ## Steps that may have to wait -/

/-- The inputs lead from one state to another, each possible and allowed where it comes. -/
inductive Reaches (step : σ → ι → Option σ) (allowed : σ → ι → Prop) : σ → List ι → σ → Prop
  | nil {s : σ} : Reaches step allowed s [] s
  | cons {s t u : σ} {a : ι} {inputs : List ι} (ha : allowed s a) (hstep : step s a = some t)
      (hrest : Reaches step allowed t inputs u) : Reaches step allowed s (a :: inputs) u

theorem Reaches.invariant {step : σ → ι → Option σ} {allowed : σ → ι → Prop} {s u : σ} {inputs : List ι}
    (h : Reaches step allowed s inputs u) (hs : I s)
    (hstep : ∀ s a t, I s → allowed s a → step s a = some t → I t) : I u := by
  induction h with
  | nil => exact hs
  | cons ha ht _ ih => exact ih (hstep _ _ _ hs ha ht)

end BitAgent.Lib.Run
