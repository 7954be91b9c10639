/-
# Evidence.Outcomes — grab attempts and the priors learned from them

`internal/evidence/priors`: the attempts and priors of `store.go`, the handlers of `resolver.go` and the expirer of
`expirer.go`. A grab opens a pending attempt with the features of its release; an import closes it as a success, the
expirer as a failure, and either moves the counts of its features.

An import does both in one transaction. The expirer closes a batch and moves the counts in another one; between the
two the batch is in flight, and may be lost (`Step.lose`). `applied`, `dropped` and `lost` are histories. A transaction
that fails is no step. The features come back from JSON as they were.
-/
import BitAgent.Evidence.Store
import BitAgent.Lib.Run

namespace BitAgent.Priors

open Lib LabelEvidence

/-! ## Tables -/

inductive Outcome where
  | success
  | failure
  deriving DecidableEq

/-- `Prior`, a row of `grab_outcome_priors`. -/
structure Prior where
  key : FeatureKey
  alpha : Nat := 1
  beta : Nat := 1

/-- `GrabAttempt`, a row of `torrent_grab_attempts`. -/
structure GrabAttempt where
  id : Nat
  infoHash : InfoHash
  source : Source
  sourceInstance : String
  releaseTitle : String
  features : List FeatureKey
  grabbedAt : Time
  resolvedAt : Option Time := none
  outcome : Option Outcome := none
  deriving DecidableEq

def GrabAttempt.pending (a : GrabAttempt) : Bool := a.resolvedAt.isNone

def GrabAttempt.resolve (outcome : Outcome) (resolvedAt : Time) (a : GrabAttempt) : GrabAttempt :=
  { a with resolvedAt := some resolvedAt, outcome := some outcome }

/-- `grab_outcome_priors`. -/
abbrev PriorTable := Table Prior.key

/-- `torrent_grab_attempts`. -/
abbrev Attempts := Serial GrabAttempt.id

structure Store where
  attempts : Attempts
  priors : PriorTable

/-! ## Counting -/

def uniqueKeys (keys : List FeatureKey) : List FeatureKey :=
  keys.foldl (fun out k => if k ∈ out then out else out ++ [k]) []

def mergeFeatures (attempts : List GrabAttempt) : List FeatureKey := uniqueKeys (attempts.flatMap (·.features))

/-- The row that `upsertCounts` leaves: `alpha` counts successes, `beta` failures, from 1 and 1. -/
def bump (side : Outcome) (old : Option Prior) (k : FeatureKey) : Prior :=
  let p := old.getD { key := k }
  match side with
  | .success => { p with alpha := p.alpha + 1 }
  | .failure => { p with beta := p.beta + 1 }

def upsertCounts (t : PriorTable) (keys : List FeatureKey) (side : Outcome) : PriorTable :=
  (uniqueKeys keys).foldl (fun t k => t.upsert (bump side (t.get? k) k)) t

def incrementPriors (t : PriorTable) (successKeys failureKeys : List FeatureKey) : PriorTable :=
  upsertCounts (upsertCounts t successKeys .success) failureKeys .failure

/-! ## Attempts -/

namespace Store

def recordGrab (s : Store) (a : GrabAttempt) : Store :=
  let row : Nat → GrabAttempt := fun n => { a with id := n, resolvedAt := none, outcome := none }
  { s with attempts := s.attempts.insert row }

/-- `ResolvePendingAndIncrement`, with the attempts it closes. -/
def resolvePendingAndIncrement (s : Store) (hash : InfoHash) (outcome : Outcome) (resolvedAt : Time) :
    Store × List GrabAttempt :=
  if hash.isEmpty then (s, [])
  else
    let selects : GrabAttempt → Bool := fun a => a.pending && a.infoHash == hash
    let resolved := (s.attempts.table.rows.filter selects).map (·.resolve outcome resolvedAt)
    ({ attempts := s.attempts.update selects (·.resolve outcome resolvedAt)
       priors := upsertCounts s.priors (mergeFeatures resolved) outcome }, resolved)

/-- `DeletePendingByInfoHash`, with the attempts it deletes. -/
def deletePendingByInfoHash (s : Store) (hash : InfoHash) : Store × List GrabAttempt :=
  if hash.isEmpty then (s, [])
  else
    let selects : GrabAttempt → Bool := fun a => a.pending && a.infoHash == hash
    ({ s with attempts := s.attempts.delete selects }, s.attempts.table.rows.filter selects)

/-- `ExpirePending`, with the attempts it closes: any that are old enough and not locked, up to the limit. -/
def expirePending (s : Store) (cutoff resolvedAt : Time) (limit : Nat) (chosen : Nat → Bool) :
    Store × List GrabAttempt :=
  let selects : GrabAttempt → Bool := fun a => a.pending && decide (a.grabbedAt < cutoff) && chosen a.id
  let expired := (s.attempts.table.rows.filter selects).map (·.resolve .failure resolvedAt)
  if expired.length ≤ limit then
    ({ s with attempts := s.attempts.update selects (·.resolve .failure resolvedAt) }, expired)
  else (s, [])

def purgeResolved (s : Store) (cutoff : Time) : Store :=
  { s with attempts := s.attempts.delete fun a => a.resolvedAt.any fun t => decide (t < cutoff) }

end Store

/-! ## The resolver and the expirer -/

/-- `OutcomePriorsConfig`, as far as the resolver decides by it. -/
structure OutcomePriorsConfig where
  enabled : Bool
  excludePrivateTrackerGrabs : Bool

def expireBatchSize : Nat := 200

inductive Closed where
  | nothing
  | success (attempts : List GrabAttempt)
  | dropped (attempts : List GrabAttempt)

section Resolver

variable (u : Lowering) (cfg : OutcomePriorsConfig)

def isPrivateCategory (category : String) : Bool := privateLabel u category

/-- `handleGrab`; the sources are what the lookup finds, nothing if it fails. -/
def handleGrab (s : Store) (e : Evidence) (sources : List String) (primaryExt : String) : Store :=
  s.recordGrab
    { id := 0, infoHash := e.infoHash, source := e.source, sourceInstance := e.sourceInstance,
      releaseTitle := e.title, features := extract u e.title sources primaryExt, grabbedAt := e.observedAt }

def handleEvidence (s : Store) (e : Evidence) (sources : List String) (primaryExt : String) (now : Time) :
    Store × Closed :=
  if !cfg.enabled then (s, .nothing)
  else if e.infoHash.isEmpty then (s, .nothing)
  else
    match e.kind with
    | .webhookGrab => (handleGrab u s e sources primaryExt, .nothing)
    | .webhookImport =>
      if cfg.excludePrivateTrackerGrabs && isPrivateCategory u e.category then
        let (s, deleted) := s.deletePendingByInfoHash e.infoHash
        (s, .dropped deleted)
      else
        let (s, resolved) := s.resolvePendingAndIncrement e.infoHash .success now
        (s, .success resolved)
    | .pollHistory | .pollCategories | .qbStateObservation => (s, .nothing)

def applyExpired (t : PriorTable) (expired : List GrabAttempt) : PriorTable :=
  if !cfg.enabled then t
  else
    let failureKeys := mergeFeatures expired
    if failureKeys.isEmpty then t else incrementPriors t [] failureKeys

end Resolver

/-! ## Runs -/

/-- The tables, the batches in flight, and where attempts have gone: the committed updates, those deleted after a
private import, and those lost. -/
structure Ledger where
  store : Store
  inFlight : List (List GrabAttempt) := []
  applied : List (Outcome × List GrabAttempt) := []
  dropped : List GrabAttempt := []
  lost : List GrabAttempt := []

inductive Step where
  | evidence (e : Evidence) (sources : List String) (primaryExt : String) (now : Time)
  | expire (cutoff now : Time) (chosen : Nat → Bool)
  | apply (batch : List GrabAttempt)
  | lose (batch : List GrabAttempt)
  | purge (cutoff : Time)

/-- One step. The expirer is dormant if the priors are disabled. -/
def Ledger.step (u : Lowering) (cfg : OutcomePriorsConfig) (s : Ledger) : Step → Ledger
  | .evidence e sources primaryExt now =>
    let (store, closed) := handleEvidence u cfg s.store e sources primaryExt now
    match closed with
    | .nothing => { s with store := store }
    | .success attempts => { s with store := store, applied := s.applied ++ [(.success, attempts)] }
    | .dropped attempts => { s with store := store, dropped := s.dropped ++ attempts }
  | .expire cutoff now chosen =>
    if cfg.enabled then
      let (store, expired) := s.store.expirePending cutoff now expireBatchSize chosen
      -- a cycle ends with an empty batch
      if expired.isEmpty then s else { s with store := store, inFlight := s.inFlight ++ [expired] }
    else s
  | .apply batch =>
    if batch ∈ s.inFlight then
      { s with
        store := { s.store with priors := applyExpired cfg s.store.priors batch }
        inFlight := s.inFlight.erase batch
        applied := s.applied ++ [(.failure, batch)] }
    else s
  | .lose batch =>
    if batch ∈ s.inFlight then { s with inFlight := s.inFlight.erase batch, lost := s.lost ++ batch }
    else s
  | .purge cutoff => if cfg.enabled then { s with store := s.store.purgeResolved cutoff } else s

end BitAgent.Priors
