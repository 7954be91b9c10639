/-
# Evidence.Liveness — the liveness of torrents

`internal/evidence/liveness`: the statements of `store.go`, the resolver, the revalidator, and the part of
`internal/seeds` that feeds tracker scrapes in. Each SQL statement is one step. A handler may send two, and both
shapes are given: `handleEvidence` as one operation (`perform`), and `System.step` with other handlers in between.
Answers of the database, the DHT and the trackers are inputs; a statement that fails did not happen. `created_at` and
`updated_at` are left out. Durations do not overflow.
-/
import Mathlib
import BitAgent.Evidence.Store
import BitAgent.Lib.Prelude
import BitAgent.Lib.Run

namespace BitAgent.Liveness

open Lib LabelEvidence
open Priors (Lowering)

attribute [local instance] decidableMem

/-! ## Rows and configuration -/

inductive Status where
  | alive
  | suspect
  | dead
  deriving DecidableEq

def aliveSourceQBState : String := "qb_state"
def aliveSourceArrWebhook : String := "arr_webhook_import"
def aliveSourceDHTRevalidate : String := "dht_revalidate"
def aliveSourceTrackerScrape : String := "tracker_scrape"

/-- `Record`, a row of `torrent_liveness`. -/
structure Record where
  infoHash : InfoHash
  status : Status
  lastQBState : Option String := none
  suspectFirstSeenAt : Option Time := none
  suspectObservations : Nat := 0
  lastObservedAt : Time
  blacklistedAt : Option Time := none
  nextRevalidateAt : Option Time := none
  aliveSource : Option String := none
  deriving DecidableEq

/-- `torrent_liveness`. -/
abbrev Rows := Table Record.infoHash

/-- `LivenessConfig`, as far as the resolver and the revalidator decide by it. -/
structure LivenessConfig where
  enabled : Bool
  stallThresholdHours : Int
  minObservations : Int
  blacklistTTLDays : Int
  revalidateBatchSize : Int
  revalidateMinPeers : Int
  excludePrivateTrackerGrabs : Bool

def newDefaultLivenessConfig : LivenessConfig where
  enabled := false
  stallThresholdHours := 4
  minObservations := 2
  blacklistTTLDays := 30
  revalidateBatchSize := 50
  revalidateMinPeers := 2
  excludePrivateTrackerGrabs := true

def hour : Time := 3600000000
def LivenessConfig.stallThreshold (c : LivenessConfig) : Time := c.stallThresholdHours * hour
def LivenessConfig.blacklistTTL (c : LivenessConfig) : Time := c.blacklistTTLDays * 24 * hour

/-! ## Statements -/

/-- The row that `MarkAlive` leaves. -/
def aliveRow (hash : InfoHash) (observedAt : Time) (qbState source : String) : Record where
  infoHash := hash
  status := .alive
  lastQBState := nullableString qbState
  lastObservedAt := observedAt
  aliveSource := nullableString source

def markAlive (t : Rows) (hash : InfoHash) (observedAt : Time) (qbState source : String) : Rows :=
  t.upsert (aliveRow hash observedAt qbState source)

def suspectRow (old : Option Record) (hash : InfoHash) (observedAt : Time) (qbState : String) : Record :=
  match old with
  | none =>
    { infoHash := hash, status := .suspect, lastQBState := nullableString qbState,
      suspectFirstSeenAt := some observedAt, suspectObservations := 1, lastObservedAt := observedAt }
  | some r =>
    let restarts := r.status == .alive || r.lastQBState.isNone
    { r with
      status := if r.status = .dead then .dead else .suspect
      lastQBState := nullableString qbState
      suspectFirstSeenAt := if restarts then some observedAt else r.suspectFirstSeenAt.or (some observedAt)
      suspectObservations := if restarts then 1 else r.suspectObservations + 1
      lastObservedAt := observedAt }

/-- `RecordSuspect`, with the row it returns. -/
def recordSuspect (t : Rows) (hash : InfoHash) (observedAt : Time) (qbState : String) : Rows × Record :=
  let row := suspectRow (t.get? hash) hash observedAt qbState
  (t.upsert row, row)

def markDead (t : Rows) (hash : InfoHash) (blacklistedAt ttl : Time) : Rows :=
  t.update (fun r => r.infoHash == hash) (fun r => { r with
      status := .dead, blacklistedAt := some blacklistedAt, nextRevalidateAt := some (blacklistedAt + ttl) })

def rearmRevalidate (t : Rows) (hash : InfoHash) (now ttl : Time) : Rows :=
  t.update (fun r => r.infoHash == hash && r.status == .dead)
    (fun r => { r with nextRevalidateAt := some (now + ttl) })

/-- Dead, and never to be tried again. -/
def Record.permanent (r : Record) : Bool := r.status == .dead && r.nextRevalidateAt.isNone

def markAliveBatch (t : Rows) (hashes : List InfoHash) (observedAt : Time) (source : String) : Rows :=
  t.update (fun r => hashes.contains r.infoHash && r.status != .alive && !r.permanent) (fun r => { r with
      status := .alive, suspectFirstSeenAt := none, suspectObservations := 0, lastObservedAt := observedAt,
      blacklistedAt := none, nextRevalidateAt := none, aliveSource := some source })

def suspectBatchRow (old : Option Record) (hash : InfoHash) (observedAt : Time) : Record :=
  match old with
  | none =>
    { infoHash := hash, status := .suspect, suspectFirstSeenAt := some observedAt, suspectObservations := 1,
      lastObservedAt := observedAt }
  | some r =>
    if r.lastQBState.isNone && !(r.status == .alive &&
        [aliveSourceQBState, aliveSourceArrWebhook].contains (r.aliveSource.getD "")) then
      { r with
        status := if r.status = .dead then .dead else .suspect
        suspectFirstSeenAt := if r.status = .alive then some observedAt else r.suspectFirstSeenAt.or (some observedAt)
        suspectObservations := if r.status = .alive then 1 else r.suspectObservations + 1
        lastObservedAt := observedAt }
    else r

def recordSuspectBatch (t : Rows) (hashes : List InfoHash) (observedAt : Time) : Rows :=
  hashes.dedup.foldl (fun t hash => t.upsert (suspectBatchRow (t.get? hash) hash observedAt)) t

/-- A row that `DueForRevalidation` selects. -/
def due (now : Time) (r : Record) : Bool :=
  r.status == .dead && match r.nextRevalidateAt with
    | none => false
    | some next => decide (next ≤ now)

/-- `DueForRevalidation`. The order among equal times is the database's, so the due rows come in as it arranges them.
-/
def dueForRevalidation (t : Rows) (now : Time) (limit : Int) (arranged : List Record) : Option (List InfoHash) :=
  if 0 ≤ limit ∧ arranged.isPerm (t.rows.filter (due now)) = true ∧
      arranged.Pairwise (fun a b => a.nextRevalidateAt.getD 0 ≤ b.nextRevalidateAt.getD 0) then
    some ((arranged.take limit.toNat).map (·.infoHash))
  else none

/-! ## The resolver -/

section Resolver

variable (u : Lowering) (cfg : LivenessConfig)

def isPrivateCategory (category : String) : Bool := privateLabel u category

/-- The gates of `handleQBState` between its two statements. -/
def promotes (rec : Record) (now : Time) : Bool :=
  rec.status == .suspect && match rec.suspectFirstSeenAt with
    | none => false
    | some first => !decide (now - first < cfg.stallThreshold) &&
        !decide ((rec.suspectObservations : Int) < cfg.minObservations)

/-- `handleQBState` up to `MarkDead`, and whether that comes next. -/
def handleQBState (t : Rows) (e : Evidence) (now : Time) : Rows × Bool :=
  match classifyQBState u e.qbState with
  | .alive => (markAlive t e.infoHash e.observedAt e.qbState aliveSourceQBState, false)
  | .suspect =>
    let (t, rec) := recordSuspect t e.infoHash e.observedAt e.qbState
    (t, promotes cfg rec now)
  | .ignore => (t, false)

def handleArrImport (t : Rows) (e : Evidence) : Rows :=
  if cfg.excludePrivateTrackerGrabs && isPrivateCategory u e.category then t
  else markAlive t e.infoHash e.observedAt "" aliveSourceArrWebhook

/-- `HandleEvidence` up to `MarkDead`, and whether that comes next. -/
def observe (t : Rows) (e : Evidence) (now : Time) : Rows × Bool :=
  if !cfg.enabled then (t, false)
  else if e.infoHash.isEmpty then (t, false)
  else
    match e.kind with
    | .qbStateObservation => handleQBState u cfg t e now
    | .webhookImport | .pollHistory =>
      if strengthArrPollImport ≤ e.strength then (handleArrImport u cfg t e, false) else (t, false)
    | .webhookGrab | .pollCategories => (t, false)

/-- `HandleEvidence`. The gates and `MarkDead` read the clock each for itself. -/
def handleEvidence (t : Rows) (e : Evidence) (now blacklistedAt : Time) (markDeadOk : Bool) : Rows :=
  let (t, promote) := observe u cfg t e now
  if promote && markDeadOk then markDead t e.infoHash blacklistedAt cfg.blacklistTTL else t

def markAliveFromDHT (t : Rows) (hash : InfoHash) (now : Time) : Rows :=
  if cfg.enabled then markAlive t hash now "" aliveSourceDHTRevalidate else t

end Resolver

/-! ## The revalidator and the scrapes -/

/-- The DHT's answer: no closest nodes, or each asked in time answered with peers or failed. -/
inductive Lookup where
  | noNodes
  | asked (answers : List (Option (List String)))

/-- The query loop of `revalidateOneWith`: the different peers until there are enough. -/
def collectPeers (minPeers : Int) : List String → List (Option (List String)) → List String
  | peers, [] => peers
  | peers, none :: rest => collectPeers minPeers peers rest
  | peers, some values :: rest =>
    let peers := values.foldl (fun peers p => peers.insert p) peers
    if minPeers ≤ peers.length then peers else collectPeers minPeers peers rest

def revalidateOneWith (cfg : LivenessConfig) (t : Rows) (hash : InfoHash) (lookup : Lookup) (now : Time) : Rows :=
  if hash.length ≠ 20 then t
  else
    match lookup with
    | .noNodes => rearmRevalidate t hash now cfg.blacklistTTL
    | .asked answers =>
      if cfg.revalidateMinPeers ≤ (collectPeers cfg.revalidateMinPeers [] answers).length then
        markAliveFromDHT cfg t hash now
      else rearmRevalidate t hash now cfg.blacklistTTL

/-- `ScrapeOutcome`, as far as it is liveness evidence. -/
structure ScrapeOutcome where
  trackerKnown : Bool
  seeders : Int
  leechers : Int

def ScrapeOutcome.positive (o : ScrapeOutcome) : Bool := decide (o.seeders > 0) || decide (o.leechers > 0)

def partitionLivenessEvidence (hashes : List InfoHash) (outcomes : InfoHash → Option ScrapeOutcome) :
    List InfoHash × List InfoHash :=
  let known := hashes.filter fun hash => (outcomes hash).any (·.trackerKnown)
  known.partition fun hash => (outcomes hash).any (·.positive)

/-- The liveness part of the transaction that ends a seeds cycle. -/
def scrape (t : Rows) (allowed : List InfoHash) (outcomes : InfoHash → Option ScrapeOutcome) (now : Time) : Rows :=
  let (positives, zeros) := partitionLivenessEvidence allowed outcomes
  recordSuspectBatch (markAliveBatch t positives now aliveSourceTrackerScrape) zeros now

/-- The table, and the torrents that the running cycle still has to look up. -/
structure State where
  rows : Rows
  looked : List InfoHash

/-- Steps of remote origin. A cycle of the revalidator selects torrents and settles them in any order, or gives them
up. -/
inductive Remote where
  | scrape (allowed : List InfoHash) (outcomes : InfoHash → Option ScrapeOutcome) (now : Time)
  | runOnce (arranged : List Record) (now : Time)
  | revalidateOne (hash : InfoHash) (lookup : Lookup) (now : Time)

def remoteStep (cfg : LivenessConfig) (s : State) : Remote → State
  | .scrape allowed outcomes now => { s with rows := scrape s.rows allowed outcomes now }
  | .runOnce arranged now =>
    match dueForRevalidation s.rows now cfg.revalidateBatchSize arranged with
    | some hashes => { s with looked := hashes }
    | none => s
  | .revalidateOne hash lookup now =>
    if hash ∈ s.looked then { rows := revalidateOneWith cfg s.rows hash lookup now, looked := s.looked.erase hash }
    else s

/-! ## Handlers one after another, and interleaved -/

/-- Events handled one after another, and what happens besides. -/
inductive Op where
  | event (e : Evidence) (now blacklistedAt : Time) (markDeadOk : Bool)
  | remote (a : Remote)

def perform (u : Lowering) (cfg : LivenessConfig) (s : State) : Op → State
  | .event e now blacklistedAt ok => { s with rows := handleEvidence u cfg s.rows e now blacklistedAt ok }
  | .remote a => remoteStep cfg s a

/-- The table, and the handlers about to mark a torrent dead. -/
structure System where
  rows : Rows
  promotions : List InfoHash

inductive Step where
  | evidence (e : Evidence) (now : Time)
  | promote (hash : InfoHash) (blacklistedAt : Time)

def System.step (u : Lowering) (cfg : LivenessConfig) (s : System) : Step → System
  | .evidence e now =>
    let (rows, promote) := observe u cfg s.rows e now
    { rows := rows, promotions := if promote then s.promotions ++ [e.infoHash] else s.promotions }
  | .promote hash blacklistedAt =>
    if hash ∈ s.promotions then
      { rows := markDead s.rows hash blacklistedAt cfg.blacklistTTL, promotions := s.promotions.erase hash }
    else s

end BitAgent.Liveness
