/-
# Concurrency.BatchingChannel — the loop that sends batches

`batch` of `internal/concurrency/batching_channel.go`. What it sends are the inputs, in order, in batches of the right
size. The `break` on a closed input leaves the `select` and not the loop, so the deferred `close` never runs.
-/
import Mathlib.Data.List.Basic

namespace BitAgent.Concurrency

variable {T : Type} (maxBatchSize : Nat)

/-- `inputs` is all that was ever sent, `input` what the loop has not received of it. -/
structure BatchingChannel (T : Type) where
  inputs : List T := []
  input : List T := []
  inputClosed : Bool := false
  buffer : List T := []
  output : List (List T) := []
  returned : Bool := false

/-- The senders, and the two cases of the `select`. -/
inductive Event (T : Type) where
  | send (x : T)
  | close
  | receive
  | tick

def BatchingChannel.flush (ch : BatchingChannel T) : BatchingChannel T :=
  { ch with buffer := [], output := ch.output ++ [ch.buffer] }

def step (ch : BatchingChannel T) : Event T → BatchingChannel T
  | .send x => if ch.inputClosed then ch else { ch with inputs := ch.inputs ++ [x], input := ch.input ++ [x] }
  | .close => { ch with inputClosed := true }
  | .receive =>
    match ch.input with
    | next :: rest =>
      let ch := { ch with input := rest, buffer := ch.buffer ++ [next] }
      if ch.buffer.length ≥ maxBatchSize then ch.flush else ch
    -- an open input: the case is not ready; a closed one: `break`, and the loop goes on
    | [] => ch
  | .tick => if ch.buffer.length > 0 then ch.flush else ch

def run (events : List (Event T)) : BatchingChannel T := events.foldl (step maxBatchSize) {}

/-- The loop has received from a closed input without values. -/
def SeesClosed (events : List (Event T)) : Prop :=
  ∃ pre post, events = pre ++ .receive :: post ∧ (run maxBatchSize pre).input = [] ∧
    (run maxBatchSize pre).inputClosed = true

structure Correct (events : List (Event T)) : Prop where
  ordered : (run maxBatchSize events).output.flatten <+: (run maxBatchSize events).inputs
  sized : ∀ batch ∈ (run maxBatchSize events).output, batch ≠ [] ∧ batch.length ≤ maxBatchSize
  /-- After some turns, whatever the `select` chooses, all is sent and the output closed. -/
  ends : SeesClosed maxBatchSize events → ∃ n, ∀ turns : List (Event T), turns.length = n →
    (∀ e ∈ turns, e = .receive ∨ e = .tick) →
      (run maxBatchSize (events ++ turns)).returned = true ∧
        (run maxBatchSize (events ++ turns)).output.flatten = (run maxBatchSize events).inputs

structure Inv (ch : BatchingChannel T) : Prop where
  kept : ch.output.flatten ++ ch.buffer ++ ch.input = ch.inputs
  sized : ∀ batch ∈ ch.output, batch ≠ [] ∧ batch.length ≤ maxBatchSize
  room : ch.buffer.length < maxBatchSize
  running : ch.returned = false

variable {maxBatchSize}

theorem Inv.flush {ch : BatchingChannel T} {buffer : List T} (h : Inv maxBatchSize ch) (hne : buffer ≠ [])
    (hsize : buffer.length ≤ maxBatchSize) {input : List T}
    (hkept : ch.output.flatten ++ buffer ++ input = ch.inputs) :
    Inv maxBatchSize ({ ch with input := input, buffer := buffer } : BatchingChannel T).flush := by
  refine ⟨by simpa [BatchingChannel.flush] using hkept, ?_, Nat.zero_lt_of_lt h.room, h.running⟩
  intro batch hbatch
  rcases List.mem_append.mp hbatch with hold | hnew
  · exact h.sized batch hold
  · rw [List.mem_singleton.mp hnew]
    exact ⟨hne, hsize⟩

theorem Inv.step {ch : BatchingChannel T} (h : Inv maxBatchSize ch) (e : Event T) :
    Inv maxBatchSize (step maxBatchSize ch e) := by
  have hroom := h.room
  cases e with
  | send x =>
    simp only [Concurrency.step]
    split_ifs
    · exact h
    · exact { h with kept := by simp [← h.kept] }
  | close => exact { h with }
  | receive =>
    cases hinput : ch.input with
    | nil => simpa only [Concurrency.step, hinput] using h
    | cons next rest =>
      have hkept : ch.output.flatten ++ (ch.buffer ++ [next]) ++ rest = ch.inputs := by simp [← h.kept, hinput]
      simp only [Concurrency.step, hinput]
      split_ifs with hfull
      · exact h.flush (by simp) (by simp; omega) hkept
      · exact { h with kept := hkept, room := Nat.lt_of_not_le hfull }
  | tick =>
    simp only [Concurrency.step]
    split_ifs with hsome
    · exact h.flush (List.ne_nil_of_length_pos hsome) (Nat.le_of_lt hroom) h.kept
    · exact h

theorem inv_run (hmax : 0 < maxBatchSize) (events : List (Event T)) : Inv maxBatchSize (run maxBatchSize events) := by
  have hstart : Inv maxBatchSize ({} : BatchingChannel T) := ⟨rfl, nofun, hmax, rfl⟩
  exact List.foldlRecOn events _ hstart fun ch h e _ => h.step e

theorem Correct.unseen {n : Nat} {events : List (Event T)} (h : Correct (n + 1) events) :
    ¬ SeesClosed (n + 1) events := by
  intro hseen
  obtain ⟨turns, hturns⟩ := h.ends hseen
  have hreturned := (hturns (List.replicate turns .tick) List.length_replicate fun e he =>
    .inr (List.eq_of_mem_replicate he)).1
  rw [(inv_run (Nat.succ_pos n) _).running] at hreturned
  cases hreturned

/-- **When the loop is correct**: as long as it has not seen the closed input. -/
theorem correct_iff (n : Nat) (events : List (Event T)) : Correct (n + 1) events ↔ ¬ SeesClosed (n + 1) events := by
  refine ⟨Correct.unseen, fun hunseen => ?_⟩
  have hinv := inv_run (Nat.succ_pos n) events
  exact ⟨⟨_, (List.append_assoc _ _ _).symm.trans hinv.kept⟩, hinv.sized, fun hseen => absurd hseen hunseen⟩

/-- The input is closed at once, and the loop never ends. -/
theorem closed_never_ends : ¬ Correct 1 [Event.close (T := Nat), .receive] := fun h =>
  h.unseen ⟨[.close], [], rfl, rfl, rfl⟩

end BitAgent.Concurrency
