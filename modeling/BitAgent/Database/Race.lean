/-
# Database.Race — the strategies that `doItems` leaves behind

`doItems` in `internal/database/query/query.go`: two strategies run in goroutines and call `done`, which under a mutex
checks whether the race is over and sends on a channel without room; `doItems` takes one outcome and cancels, or
returns when its context is done. The check comes before the send, so a strategy can be left behind.
-/
import BitAgent.Lib.Run

namespace BitAgent.Database

open Lib.Run

variable {ε τ : Type}

inductive StrategyName where
  | default
  | cte
  deriving DecidableEq

/-- Where a goroutine is. -/
inductive Strategy (ε τ : Type) where
  | querying
  | callsDone (outcome : Except ε (List τ))
  | sending (outcome : Except ε (List τ))
  | exited

inductive Racer where
  | selecting
  | received
  | returned
  deriving DecidableEq

structure Race (ε τ : Type) where
  strategy : StrategyName → Strategy ε τ
  mtx : Option StrategyName
  finalItems : Option (List τ)
  /-- `raceCtx` is done. -/
  done : Bool
  caller : Racer

def Race.start (shouldTryCteStrategy : Bool) : Race ε τ where
  strategy
    | .default => .querying
    | .cte => if shouldTryCteStrategy then .querying else .exited
  mtx := none
  finalItems := none
  done := false
  caller := .selecting

inductive RaceStep (ε τ : Type) where
  | outcome (name : StrategyName) (outcome : Except ε (List τ))
  | stoppingPoint
  | check (name : StrategyName)
  | handOver (name : StrategyName)
  | cancel
  | raceCancel
  | raceDone

def Race.move (s : Race ε τ) (name : StrategyName) (next : Strategy ε τ) : Race ε τ :=
  { s with strategy := Function.update s.strategy name next }

def Race.step (s : Race ε τ) : RaceStep ε τ → Option (Race ε τ)
  | .outcome name outcome =>
    match s.strategy name with
    | .querying => some (s.move name (.callsDone outcome))
    | _ => none
  | .stoppingPoint =>
    match s.strategy .cte with
    | .querying => some (s.move .cte .exited)
    | _ => none
  | .check name =>
    match s.strategy name, s.mtx with
    | .callsDone outcome, none =>
      if s.finalItems.isSome || s.done then some (s.move name .exited)
      else some { s.move name (.sending outcome) with mtx := some name, finalItems := outcome.toOption }
    | _, _ => none
  | .handOver name =>
    match s.strategy name, s.caller with
    | .sending _, .selecting => some { s.move name .exited with mtx := none, caller := .received }
    | _, _ => none
  | .cancel => some { s with done := true }
  | .raceCancel => if s.caller = .received then some { s with done := true, caller := .returned } else none
  | .raceDone => if s.caller = .selecting ∧ s.done = true then some { s with caller := .returned } else none

/-- `doItems` has returned, and a strategy waits at the channel. -/
def Race.LeavesBehind (s : Race ε τ) : Prop := s.caller = .returned ∧ ∃ name outcome, s.strategy name = .sending outcome

/-- No cancellation between a check and its send, and no check between the receipt of an error and the end of the
race. -/
def Race.Allows (s : Race ε τ) : RaceStep ε τ → Prop
  | .cancel => s.mtx = none
  | .check _ => s.caller = .received → s.finalItems.isSome = true
  | _ => True

/-- A strategy that sends holds the mutex, and somebody can receive. -/
structure Race.Inv (s : Race ε τ) : Prop where
  holds : ∀ name outcome, s.strategy name = .sending outcome → s.mtx = some name
  receiver : s.mtx ≠ none → s.caller = .selecting ∧ s.done = false
  ended : s.caller = .returned → s.done = true

theorem Race.Inv.step {s t : Race ε τ} {x : RaceStep ε τ} (h : s.Inv) (hallows : s.Allows x) (hx : s.step x = some t) :
    t.Inv := by
  obtain ⟨hholds, hreceiver, hended⟩ := h
  have hcaller : s.caller = .selecting ∨ s.caller = .received ∨ s.caller = .returned := by cases s.caller <;> simp
  unfold Race.step at hx
  repeat' split at hx
  all_goals
    cases hx <;> constructor <;> dsimp only [Race.move, Race.Allows] at * <;> grind [Function.update_apply]

/-- **When no strategy is left behind**: in every run of allowed steps no state has `doItems` returned and one at the
channel. -/
theorem leaves_none_behind {cte : Bool} {steps : List (RaceStep ε τ)} {s : Race ε τ}
    (h : Reaches Race.step Race.Allows (.start cte) steps s) : ¬ s.LeavesBehind := by
  rintro ⟨hreturned, name, outcome, hsending⟩
  have hstart : (Race.start cte : Race ε τ).Inv := by
    refine ⟨?_, nofun, nofun⟩
    rintro (_ | _) outcome h
    · cases h
    · cases cte <;> cases h
  have hinv := h.invariant hstart fun _ _ _ hs ha hx => hs.step ha hx
  have hselecting := (hinv.receiver (by simp [hinv.holds _ _ hsending])).1
  rw [hreturned] at hselecting
  cases hselecting

/-- The CTE strategy wins, and the query is cancelled when its items are there. -/
theorem won_leaves_none_behind : ∃ s : Race Nat Nat,
    Reaches Race.step Race.Allows (.start true)
      [.outcome .cte (.ok [1]), .check .cte, .handOver .cte, .cancel, .raceCancel] s ∧
    s.caller = .returned ∧ ¬ s.LeavesBehind :=
  have hrun : Reaches Race.step Race.Allows (.start true)
      [.outcome .cte (.ok [1]), .check .cte, .handOver .cte, .cancel, .raceCancel] _ :=
    .cons trivial rfl (.cons nofun rfl (.cons trivial rfl (.cons rfl rfl (.cons trivial rfl .nil))))
  ⟨_, hrun, rfl, leaves_none_behind hrun⟩

/-- The query is cancelled when a strategy has made its check. -/
theorem cancelled_leaves_behind : ∃ s : Race Nat Nat,
    Reaches Race.step (fun _ _ => True) (.start false)
      [.outcome .default (.ok [1]), .check .default, .cancel, .raceDone] s ∧ s.LeavesBehind :=
  ⟨_, .cons trivial rfl (.cons trivial rfl (.cons trivial rfl (.cons trivial rfl .nil))), rfl, .default, .ok [1], rfl⟩

end BitAgent.Database
