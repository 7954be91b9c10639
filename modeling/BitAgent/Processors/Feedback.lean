/-
# Processors.Feedback — recording feedback events

`insertFeedbackTx` stores an event under the digest of what identifies it, and then, without asking whether the row
was there, calibrates the learned state of a regex processor. The row is recorded once, the calibration as often as
the event is recorded (`registry_onceOnly_iff`).
-/
import BitAgent.Lib.GoString
import BitAgent.Lib.Prelude
import BitAgent.Lib.Table
import BitAgent.Processors.Selector

namespace BitAgent.Processors.Feedback

open Lib List ProcessorApi

/-! ## Calibration -/

/-- `v1.Result` with what its proposal says of the content type. -/
structure Prediction where
  outcome : Outcome
  proposal : Option String
  deriving DecidableEq

structure GroundTruth where
  outcome : String
  contentType : String := ""
  excluded : Option Bool := none
  claims : String := ""
  deriving DecidableEq

/-- `regexLearnedState`. -/
structure LearnedState where
  ruleAdjustments : NilMap String Float64 := none
  feedbackCount : Int64 := 0

/-- The reward of an outcome; zero says that there is nothing to learn. -/
def reward (prediction : Option Prediction) (gt : GroundTruth) : Int :=
  if gt.outcome = "applied" ∨ gt.outcome = "import_succeeded" then 1
  else if gt.outcome = "import_failed" ∨ gt.outcome = "rejected_policy" ∨ gt.outcome = "rejected_ambiguous" then -1
  else if gt.outcome = "teacher_consensus" ∨ gt.outcome = "operator_override" then
    match prediction with
    | some ⟨outcome, some contentType⟩ =>
      if gt.contentType ≠ "" ∧ contentType ≠ "" then if contentType = gt.contentType then 1 else -1
      else byExclusion outcome
    | some ⟨outcome, none⟩ => byExclusion outcome
    | none => 1
  else 0
where
  /-- Without two content types to compare, the exclusion is compared. -/
  byExclusion (outcome : Outcome) : Int :=
    match gt.excluded with
    | some excluded => if decide (outcome = .excluded) = excluded then 1 else -1
    | none => 1

def stepSize : Float64 := Float64.round (5 / 100)

def adjust (adjustment : Float64) (reward : Int) : Float64 :=
  let next := adjustment.add (stepSize.mul (.finite reward))
  ((next.mul (.finite 1000)).roundAway.divPos 1000).clamp (-2) 2

/-- `calibrateBuiltinRegex`. `trace` lists the matched rules, if at all; `none` is no new state. -/
def calibrateBuiltinRegex (state : LearnedState) (trace : Option (List String))
    (prediction : Option Prediction) (gt : GroundTruth) : Option LearnedState :=
  match trace with
  | none => none
  | some [] => none
  | some (rule :: rules) =>
    let reward := reward prediction gt
    if reward = 0 then none
    else
      let adjustments := (rule :: rules).foldl (fun (m : NilMap String Float64) id =>
        m.set id (adjust ((m.lookup id).getD (.finite 0)) reward)) state.ruleAdjustments
      -- JSON has no NaN and no infinity
      if adjustments.entries.all fun e => e.2.isFinite then some ⟨adjustments, state.feedbackCount + 1⟩
      else none

/-! ## The transaction -/

/-- `Driver` of a processor. -/
inductive Driver
  | unset
  | http
  | builtinFilter
  | builtinRegex
  | builtinLiveness
  | builtinLLM
  deriving DecidableEq

/-- `v1.LearningConfig.Mode`. -/
inductive LearningMode
  | disabled
  | logOnly
  | onlineCalibrate
  | accumulateBatch
  deriving DecidableEq

/-- What recording feedback reads of an `Entry` beside its id. -/
structure Learner extends Processors.Entry where
  driver : Driver
  /-- `Learning`: whether it is enabled, and its mode. -/
  learning : Option (Bool × LearningMode)
  deriving DecidableEq

structure Event where
  processorID : String
  execGen : Int64
  jobID : String
  hash : GoString
  tier : String
  prediction : Option Prediction
  trace : Option (List String)
  groundTruth : GroundTruth
  entry : Option Learner
  deriving DecidableEq

/-- What the digest of an event is taken of. -/
structure Identity where
  processorID : String
  execGen : Int64
  jobID : String
  hash : GoString
  tier : String
  groundTruth : GroundTruth
  deriving DecidableEq

def Event.identity (e : Event) : Identity := ⟨e.processorID, e.execGen, e.jobID, e.hash, e.tier, e.groundTruth⟩

/-- A row of `processor_feedback_events`. -/
structure Row where
  seq : Nat
  eventID : String
  event : Event
  deliveryState : String
  deriving DecidableEq

/-- A row of `processor_registry`. -/
structure Registered where
  id : String
  learnedState : LearnedState

structure Store where
  events : Serial Row.seq
  registry : Table Registered.id

def deliveryState (entry : Option Learner) : String :=
  match entry with
  | some e => if e.driver = .unset ∨ e.driver = .http then "pending" else "not_applicable"
  | none => "pending"

/-- `INSERT … ON CONFLICT(event_id) DO UPDATE SET event_id=…`: the row stays, the sequence moves on. -/
def insertEvent (events : Serial Row.seq) (eventID : String) (e : Event) : Serial Row.seq :=
  if events.table.rows.any fun row => decide (row.eventID = eventID) then events.draw
  else events.insert (fun seq => ⟨seq, eventID, e, deliveryState e.entry⟩) fun _ => rfl

def Event.calibrated (e : Event) : Option Learner :=
  e.entry.filter fun entry =>
    decide (entry.driver = .builtinRegex) && decide (entry.learning = some (true, .onlineCalibrate))

/-- The calibration: the processor's state is read, and written if there is a new one. -/
def calibrate (registry : Table Registered.id) (e : Event) : Table Registered.id :=
  match e.calibrated with
  | none => registry
  | some entry =>
    match registry.get? entry.id with
    | none => registry
    | some current =>
      match calibrateBuiltinRegex current.learnedState e.trace e.prediction e.groundTruth with
      | none => registry
      | some next =>
        registry.update (fun row => decide (row.id = entry.id))
          (fun row => { row with learnedState := next }) fun _ => rfl

/-- `insertFeedbackTx`; `digest` is the digest of an event's identity. -/
def insertFeedbackTx (digest : Identity → String) (s : Store) (e : Event) : Store where
  events := insertEvent s.events (digest e.identity) e
  registry := calibrate s.registry e

def recordAll (digest : Identity → String) (s : Store) (es : List Event) : Store := es.foldl (insertFeedbackTx digest) s

/-! ## Recording an event again -/

/-- The recordings without those of `e` after the first. -/
def onceOnly (e : Event) : List Event → List Event
  | [] => []
  | x :: es => if x = e then x :: es.filter (fun y => decide (y ≠ e)) else x :: onceOnly e es

def Event.Calibrates (e : Event) : Prop :=
  e.calibrated.isSome = true ∧ (∃ rule rules, e.trace = some (rule :: rules)) ∧ reward e.prediction e.groundTruth ≠ 0

theorem registry_recordAll (digest : Identity → String) (s : Store) (es : List Event) :
    (recordAll digest s es).registry = es.foldl calibrate s.registry := by
  induction es generalizing s with
  | nil => rfl
  | cons e es ih => exact ih (insertFeedbackTx digest s e)

variable {e : Event}

theorem calibrate_eq_self (h : ¬ e.Calibrates) (registry : Table Registered.id) :
    calibrate registry e = registry := by
  rw [calibrate]
  cases hentry : e.calibrated with
  | none => rfl
  | some entry =>
    dsimp only
    cases hrow : registry.get? entry.id with
    | none => rfl
    | some current =>
      have hnone : calibrateBuiltinRegex current.learnedState e.trace e.prediction e.groundTruth =
          none := by
        unfold calibrateBuiltinRegex
        match htrace : e.trace with
        | none => rfl
        | some [] => rfl
        | some (rule :: rules) =>
          have hreward : reward e.prediction e.groundTruth = 0 := by
            by_contra hne
            exact h ⟨by rw [hentry]; rfl, ⟨rule, rules, htrace⟩, hne⟩
          dsimp only
          rw [if_pos hreward]
      dsimp only
      rw [hnone]

theorem foldl_calibrate_filter (h : ¬ e.Calibrates) (es : List Event) (registry : Table Registered.id) :
    (es.filter fun y => decide (y ≠ e)).foldl calibrate registry = es.foldl calibrate registry := by
  induction es generalizing registry with
  | nil => rfl
  | cons x es ih => grind [calibrate_eq_self]

theorem foldl_calibrate_onceOnly (h : ¬ e.Calibrates) (es : List Event) (registry : Table Registered.id) :
    (onceOnly e es).foldl calibrate registry = es.foldl calibrate registry := by
  induction es generalizing registry with
  | nil => rfl
  | cons x es ih => grind [onceOnly, foldl_calibrate_filter]

/-! A calibration from finite adjustments gives finite adjustments: the arithmetic meets no NaN, and the
clamp removes the infinities. -/

theorem round_ne_nan (q : Rat) : Float64.round q ≠ .nan := by grind [Float64.round]

variable {x : Float64}

theorem add_ne_nan {a : Rat} (hx : x ≠ .nan) : (Float64.finite a).add x ≠ .nan := by
  cases x with
  | nan => exact absurd rfl hx
  | inf n => exact nofun
  | finite q => exact round_ne_nan _

theorem mul_ne_nan (hx : x ≠ .nan) {q : Rat} (hq : q ≠ 0) : x.mul (.finite q) ≠ .nan := by
  cases x with
  | nan => exact absurd rfl hx
  | inf n =>
    rw [Float64.mul, if_neg hq]
    exact nofun
  | finite p => exact round_ne_nan _

theorem isFinite_clamp {lo hi : Rat} (hx : x ≠ .nan) : (x.clamp lo hi).isFinite = true := by
  cases x with
  | nan => exact absurd rfl hx
  | inf negative =>
    cases negative with
    | true => rfl
    | false =>
      show Float64.isFinite (if Float64.lt (.finite lo) (.finite hi) then .finite hi else .finite lo) = _
      split_ifs <;> rfl
  | finite q =>
    show Float64.isFinite (if Float64.lt (.finite lo)
      (if Float64.lt (.finite q) (.finite hi) then .finite q else .finite hi) then
        (if Float64.lt (.finite q) (.finite hi) then .finite q else .finite hi) else .finite lo) = _
    split_ifs <;> rfl

theorem isFinite_adjust {a : Float64} (ha : a.isFinite = true) (r : Int) : (adjust a r).isFinite = true := by
  obtain ⟨q, rfl⟩ : ∃ q, a = .finite q := by
    cases a with
    | finite q => exact ⟨q, rfl⟩
    | nan => exact nomatch ha
    | inf n => exact nomatch ha
  have hstep : stepSize.mul (.finite r) ≠ .nan := by
    have hfinite : stepSize.isFinite = true := by decide +kernel
    cases hs : stepSize with
    | finite s => exact round_ne_nan _
    | nan => rw [hs] at hfinite; exact nomatch hfinite
    | inf n => rw [hs] at hfinite; exact nomatch hfinite
  have hnext := mul_ne_nan (add_ne_nan (a := q) hstep) (q := 1000) (by decide)
  refine isFinite_clamp ?_
  cases hx : (Float64.add (.finite q) (stepSize.mul (.finite r))).mul (.finite 1000) with
  | nan => exact absurd hx hnext
  | inf n => exact nofun
  | finite p => exact round_ne_nan _

/-- All adjustments are numbers that JSON can hold. -/
def LearnedState.Finite (state : LearnedState) : Prop := ∀ e ∈ state.ruleAdjustments.entries, e.2.isFinite = true

theorem finite_foldl_adjust (r : Int) (rules : List String) (m : NilMap String Float64)
    (hm : ∀ e ∈ m.entries, e.2.isFinite = true) :
    ∀ e ∈ (rules.foldl (fun (m : NilMap String Float64) id =>
      m.set id (adjust ((m.lookup id).getD (.finite 0)) r)) m).entries, e.2.isFinite = true := by
  induction rules generalizing m with
  | nil => exact hm
  | cons id rules ih =>
    refine ih _ fun e he => ?_
    have hcases : e ∈ m.entries.filter (fun e => decide (e.1 ≠ id)) ++
        [(id, adjust ((m.lookup id).getD (.finite 0)) r)] := he
    rcases mem_append.mp hcases with hold | hnew
    · exact hm e (mem_filter.mp hold).1
    · rw [mem_singleton.mp hnew]
      refine isFinite_adjust ?_ r
      cases hlookup : m.lookup id with
      | none => rfl
      | some v => exact hm _ (NilMap.lookup_eq_some_iff.mp hlookup)

theorem calibrateBuiltinRegex_of_calibrates (h : e.Calibrates) {state : LearnedState} (hstate : state.Finite) :
    ∃ next, calibrateBuiltinRegex state e.trace e.prediction e.groundTruth = some next ∧
      next.Finite ∧ next.feedbackCount = state.feedbackCount + 1 := by
  obtain ⟨_, ⟨rule, rules, htrace⟩, hreward⟩ := h
  have hfinite := finite_foldl_adjust (reward e.prediction e.groundTruth) (rule :: rules) state.ruleAdjustments hstate
  refine ⟨⟨_, state.feedbackCount + 1⟩, ?_, hfinite, rfl⟩
  grind [calibrateBuiltinRegex]

def single (id : String) (state : LearnedState) : Table Registered.id := ⟨[⟨id, state⟩], nodup_singleton _⟩

theorem calibrate_single (h : e.Calibrates) {entry : Learner} (hentry : e.calibrated = some entry)
    {state : LearnedState} (hstate : state.Finite) :
    ∃ next, calibrate (single entry.id state) e = single entry.id next ∧ next.Finite ∧
      next.feedbackCount = state.feedbackCount + 1 := by
  obtain ⟨next, hnext, hfinite, hcount⟩ := calibrateBuiltinRegex_of_calibrates h hstate
  refine ⟨next, ?_, hfinite, hcount⟩
  have hget : (single entry.id state).get? entry.id = some ⟨entry.id, state⟩ := by simp [single, Table.get?]
  grind [calibrate, single, Table.update]

/-- **Recording an event again** leaves the learned states as recording it once does, exactly if it does not
calibrate. -/
theorem registry_onceOnly_iff (digest : Identity → String) (e : Event) :
    (∀ s es, (recordAll digest s es).registry = (recordAll digest s (onceOnly e es)).registry) ↔ ¬ e.Calibrates := by
  constructor
  · intro hlaw hcal
    obtain ⟨entry, hentry⟩ := Option.isSome_iff_exists.mp hcal.1
    have hempty : ({} : LearnedState).Finite := nofun
    obtain ⟨first, hfirst, hfinite, _⟩ := calibrate_single hcal hentry hempty
    obtain ⟨second, hsecond, _, hcount⟩ := calibrate_single hcal hentry hfinite
    have honce : onceOnly e [e, e] = [e] := by simp [onceOnly]
    have htwice := hlaw ⟨.empty, single entry.id {}⟩ [e, e]
    grind [registry_recordAll, single]
  · grind [registry_recordAll, foldl_calibrate_onceOnly]

/-- A learning regex processor, and a successful import of a torrent on which a rule had matched. -/
def importSucceeded : Event where
  processorID := "regex"
  execGen := 1
  jobID := "job"
  hash := []
  tier := "verified_import"
  prediction := none
  trace := some ["resolution"]
  groundTruth := { outcome := "import_succeeded" }
  entry := some {
    id := "regex", generation := 1, executionGeneration := 1, mode := .apply, state := .active, priority := 0
    selector := none, capabilities := [], driver := .builtinRegex, learning := some (true, .onlineCalibrate) }

/-- Recorded twice, it is counted twice. -/
theorem import_counted_twice :
    ((recordAll (fun _ => "") ⟨.empty, single "regex" {}⟩ [importSucceeded]).registry.get? "regex").map
        (fun row => row.learnedState.feedbackCount) = some 1 ∧
      ((recordAll (fun _ => "") ⟨.empty, single "regex" {}⟩
          [importSucceeded, importSucceeded]).registry.get? "regex").map
        (fun row => row.learnedState.feedbackCount) = some 2 := by
  decide +kernel

end BitAgent.Processors.Feedback
