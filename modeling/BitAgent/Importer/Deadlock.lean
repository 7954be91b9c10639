/-
# Importer.Deadlock — who waits for whom in an import

`Import` sends its items while it holds the mutex, and the run loop, the only receiver, takes the mutex in `Close`
when its context is done. Goroutines that only hold the mutex for a while are single steps, as `Close` is when
another goroutine calls it.
-/
import BitAgent.Lib.Run

namespace BitAgent.Importer

open Lib.Run

variable {α : Type}

inductive Mutex (α : Type) where
  | free
  | run
  | imports (left : List α)

inductive RunLoop where
  | starting
  | selecting
  | closing
  | returned

structure Locks (α : Type) where
  mutex : Mutex α
  loop : RunLoop
  /-- `iCtx` is done. -/
  done : Bool
  stopped : Bool

/-- After `New`: `run` has locked the mutex for its goroutine. -/
def Locks.new : Locks α := ⟨.run, .starting, false, false⟩

inductive LockStep (α : Type) where
  | loopStarts
  | imports (items : List α)
  | send
  | importReturns
  | underMutex
  | close
  | cancel
  | loopDone
  | loopCloses
  | loopReturns

/-- One step, unless it has to wait. A stopped import returns an error; its channel is closed. -/
def Locks.step : Locks α → LockStep α → Option (Locks α)
  | ⟨.run, .starting, done, stopped⟩, .loopStarts => some ⟨.free, .selecting, done, stopped⟩
  | ⟨.free, loop, done, false⟩, .imports items => some ⟨.imports items, loop, done, false⟩
  | ⟨.free, loop, done, true⟩, .imports _ => some ⟨.free, loop, done, true⟩
  | ⟨.imports (_ :: left), .selecting, done, stopped⟩, .send => some ⟨.imports left, .selecting, done, stopped⟩
  | ⟨.imports [], loop, done, stopped⟩, .importReturns => some ⟨.free, loop, done, stopped⟩
  | ⟨.free, loop, done, stopped⟩, .underMutex => some ⟨.free, loop, done, stopped⟩
  | ⟨.free, loop, _, _⟩, .close => some ⟨.free, loop, true, true⟩
  | ⟨mutex, loop, _, stopped⟩, .cancel => some ⟨mutex, loop, true, stopped⟩
  | ⟨mutex, .selecting, true, stopped⟩, .loopDone => some ⟨mutex, .closing, true, stopped⟩
  | ⟨.free, .closing, _, _⟩, .loopCloses => some ⟨.free, .returned, true, true⟩
  | ⟨mutex, .selecting, done, true⟩, .loopReturns => some ⟨mutex, .returned, done, true⟩
  | _, _ => none

/-- `Import` holds the mutex with an item to send, and the run loop waits for it. -/
def Locks.Deadlocked (s : Locks α) : Prop := s.loop = .closing ∧ ∃ item left, s.mutex = .imports (item :: left)

/-- The context given to the import is not cancelled before it is closed. -/
def Locks.Allows (s : Locks α) (x : LockStep α) : Prop := x = .cancel → s.stopped = true

/-- The context is only done when the import is stopped, and then nobody sends. -/
structure Locks.Inv (s : Locks α) : Prop where
  stopped : s.done = true → s.stopped = true
  closing : s.loop = .closing → s.done = true
  sending : ∀ left, s.mutex = .imports left → s.stopped = false

theorem Locks.Inv.step {s t : Locks α} {x : LockStep α} (h : s.Inv) (hallows : s.Allows x) (hx : s.step x = some t) :
    t.Inv := by
  obtain ⟨hstopped, hclosing, hsending⟩ := h
  unfold Locks.step at hx
  split at hx <;> cases hx <;> constructor <;> simp_all [Locks.Allows]

/-- **No deadlock without a cancellation** before `Close`: the run loop never waits for the mutex of an `Import` that
sends. -/
theorem not_deadlocked {steps : List (LockStep α)} {s : Locks α} (h : Reaches Locks.step Locks.Allows .new steps s) :
    ¬ s.Deadlocked := by
  rintro ⟨hclosing, item, left, hsending⟩
  have hinv : s.Inv := h.invariant ⟨nofun, nofun, nofun⟩ fun _ _ _ hs ha hx => hs.step ha hx
  have hstopped := hinv.stopped (hinv.closing hclosing)
  rw [hinv.sending _ hsending] at hstopped
  cases hstopped

/-- One item is imported and the import closed. -/
theorem closed_not_deadlocked :
    Reaches Locks.step Locks.Allows .new
      [.loopStarts, .imports [1], .send, .importReturns, .close, .cancel, .loopDone, .loopCloses]
      (⟨.free, .returned, true, true⟩ : Locks Nat) ∧
    ¬ (⟨.free, .returned, true, true⟩ : Locks Nat).Deadlocked := by
  have hrun : Reaches Locks.step Locks.Allows .new
      [.loopStarts, .imports [1], .send, .importReturns, .close, .cancel, .loopDone, .loopCloses]
      (⟨.free, .returned, true, true⟩ : Locks Nat) := by
    repeat first | exact .nil | refine .cons (by simp [Locks.Allows]) rfl ?_
  exact ⟨hrun, not_deadlocked hrun⟩

/-- The context is cancelled while an `Import` has an item to send. -/
theorem cancelled_deadlocked : ∃ s : Locks Nat,
    Reaches Locks.step (fun _ _ => True) .new [.loopStarts, .imports [1], .cancel, .loopDone] s ∧ s.Deadlocked :=
  ⟨⟨.imports [1], .closing, true, false⟩,
    .cons trivial rfl (.cons trivial rfl (.cons trivial rfl (.cons trivial rfl .nil))), rfl, 1, [], rfl⟩

end BitAgent.Importer
