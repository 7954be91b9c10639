/-
# Queue.Exec — the goroutine that `Exec` leaves behind

`Exec` in `internal/queue/handler/handler.go`. A goroutine runs the function, sends its error or panic on `errCh`,
which has room for one value, and then on `done`, which has none. `Exec` takes from both, or returns when the context
ends.
-/
import Mathlib.Data.List.Induction

namespace BitAgent.Queue

variable {ε : Type}

inductive Goroutine (ε : Type) where
  | running
  | sendingErr (err : ε)
  | sendingDone
  | exited

inductive Caller where
  | selecting
  | receivingErr
  | returned

structure Exec (ε : Type) where
  goroutine : Goroutine ε
  caller : Caller
  errCh : Option ε

def Exec.start : Exec ε := ⟨.running, .selecting, none⟩

inductive ExecStep (ε : Type) where
  | handlerReturns (err : ε)
  | handlerPanics (err : ε)
  | sendErr
  | handOverDone
  | timeout
  | receiveErr

def Exec.step : Exec ε → ExecStep ε → Option (Exec ε)
  | ⟨.running, c, ch⟩, .handlerReturns err => some ⟨.sendingErr err, c, ch⟩
  | ⟨.running, c, ch⟩, .handlerPanics err => some ⟨.sendingErr err, c, ch⟩
  | ⟨.sendingErr err, c, none⟩, .sendErr => some ⟨.sendingDone, c, some err⟩
  | ⟨.sendingDone, .selecting, ch⟩, .handOverDone => some ⟨.exited, .receivingErr, ch⟩
  | ⟨g, .selecting, ch⟩, .timeout => some ⟨g, .returned, ch⟩
  | ⟨g, .receivingErr, some _⟩, .receiveErr => some ⟨g, .returned, none⟩
  | _, _ => none

def Exec.run (e : Exec ε) (steps : List (ExecStep ε)) : Option (Exec ε) := steps.foldlM Exec.step e

/-- The function has returned, and its goroutine stays at a channel whatever happens. -/
def Exec.WaitsForever (e : Exec ε) : Prop :=
  (e.goroutine = .sendingDone ∨ ∃ err, e.goroutine = .sendingErr err) ∧
    ∀ steps e', e.run steps = some e' → e'.goroutine = e.goroutine

/-- What holds after some steps: who has left, and what was sent. -/
structure Exec.Inv (steps : List (ExecStep ε)) (e : Exec ε) : Prop where
  left : .timeout ∈ steps ↔ e.caller = .returned ∧ e.goroutine ≠ .exited
  sent : e.goroutine ≠ .exited → (.sendErr ∈ steps ↔ e.goroutine = .sendingDone)
  room : e.goroutine ≠ .sendingDone → e.goroutine ≠ .exited → e.errCh = none
  alone : e.caller = .selecting → e.goroutine ≠ .exited
  met : e.caller = .receivingErr → e.goroutine = .exited

theorem Exec.Inv.step {steps : List (ExecStep ε)} {e e' : Exec ε} {x : ExecStep ε} (h : Inv steps e)
    (hx : e.step x = some e') : Inv (steps ++ [x]) e' := by
  obtain ⟨hleft, hsent, hroom, halone, hmet⟩ := h
  unfold Exec.step at hx
  split at hx <;> cases hx <;> constructor <;> simp_all

theorem Exec.inv_run {steps : List (ExecStep ε)} {e : Exec ε} (h : Exec.start.run steps = some e) : Inv steps e := by
  induction steps using List.reverseRecOn generalizing e with
  | nil =>
    cases h
    constructor <;> simp [Exec.start]
  | append_singleton steps x ih =>
    rw [Exec.run, List.foldlM_append] at h
    obtain ⟨mid, hmid, hx⟩ := Option.bind_eq_some_iff.mp h
    exact (ih hmid).step (by simpa using hx)

theorem waitsForever_sendingDone (ch : Option ε) : Exec.WaitsForever ⟨.sendingDone, .returned, ch⟩ := by
  refine ⟨.inl rfl, fun steps e' hrun => ?_⟩
  cases steps with
  | nil => cases hrun; rfl
  | cons x steps => cases x <;> cases hrun

/-- **When a goroutine is left behind**: exactly if the timeout was taken and the function ended. -/
theorem left_behind_iff (steps : List (ExecStep ε)) :
    (∃ e, Exec.start.run steps = some e ∧ e.caller = .returned ∧ e.WaitsForever) ↔
      (Exec.start.run steps).isSome = true ∧ .timeout ∈ steps ∧ .sendErr ∈ steps := by
  rw [Option.isSome_iff_exists, exists_and_right.symm]
  refine exists_congr fun e => and_congr_right fun h => ?_
  obtain ⟨hleft, hsent, hroom, -, -⟩ := Exec.inv_run h
  obtain ⟨g, c, ch⟩ := e
  constructor
  · rintro ⟨hreturned, hdone | ⟨err, herr⟩, hforever⟩
    · have hin : g ≠ .exited := by simp [show g = _ from hdone]
      exact ⟨hleft.mpr ⟨hreturned, hin⟩, (hsent hin).mpr hdone⟩
    · -- the channel has room, so the error can be sent
      cases herr
      cases hroom nofun nofun
      exact absurd (hforever [.sendErr] _ rfl) nofun
  · rintro ⟨htimeout, hsend⟩
    obtain ⟨hreturned, hin⟩ := hleft.mp htimeout
    cases hreturned
    cases (hsent hin).mp hsend
    exact ⟨rfl, waitsForever_sendingDone ch⟩

/-- The timeout, and then the function returns. -/
theorem late_handler_left_behind :
    ∃ e : Exec Nat, Exec.start.run [.timeout, .handlerReturns 0, .sendErr] = some e ∧ e.caller = .returned ∧
      e.WaitsForever :=
  ⟨_, rfl, rfl, waitsForever_sendingDone _⟩

end BitAgent.Queue
