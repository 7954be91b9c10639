/-
# Dhtcrawler.Triage — triage and the ban check of the crawler

`internal/dhtcrawler/infohash_triage.go` decides which hashes are worth a metadata fetch, and `request_meta_info.go`
runs the ban checker on what a fetch brings. A rejected hash goes to the blocking manager and a `blacklisted`
verdict is recorded; the errors of both are dropped.

Other writers remove, restore, record verdicts and change the catalogue at any time; a restart loses the manager's
memory. `ignoreHashes` in front of triage forgets, so a batch may hold any hash; it carries the answers of the feed,
the ledger and the catalogue. Left out: the routing to scrape, and the metrics.
-/
import BitAgent.Blocking.Manager
import BitAgent.Cataloguerecovery.History
import BitAgent.Lib.Run

namespace BitAgent.Dhtcrawler

open Lib Metainfo Verdicts Cataloguerecovery Blocking

attribute [local instance] decidableMem

/-! ## Triage -/

/-- What is fixed while a crawler is deployed: its stores, whether the reader is live, the name policy, the file
threshold. -/
structure Crawler where
  recovery : Option EnabledStore
  verdicts : Bool
  verdictsLive : Bool
  excludesHash : ProtocolID → Bool
  eligible : ProtocolID → String → Bool
  saveFilesThreshold : Nat

structure Batch where
  reqs : List ProtocolID
  csamBlocked : ProtocolID → Bool
  recorded : Bool
  lookedUp : Bool
  searched : Bool
  now : Instant

variable (c : Crawler) (pg : Platform)

/-- `recordVerdict`: `written` says whether the ledger took the event. -/
def recordVerdict (db : Database) (hash : ProtocolID) (mechanism reason : String)
    (evidence : Option Evidence) (written : Bool) : Database :=
  if c.verdicts && written then
    { db with
      ledger := db.ledger.write
        { infoHash := hash.val, verdict := .blacklisted, mechanism := mechanism, reason := reason,
          evidence := evidence } }
  else db

def csamEvidence (site : String) : Evidence :=
  .other ("\x7b\"site\":\"" ++ site ++ "\",\"source\":\"community_feed\"\x7d")

def recordCsamRejects (db : Database) (removed : List ProtocolID) (site : String) (written : Bool) : Database :=
  removed.foldl (fun db h =>
    recordVerdict c db h mechanismCsam ("community-feed CSAM reject (" ++ site ++ ")")
      (some (csamEvidence site)) written) db

def recordBlockingVerdict (db : Database) (hash : ProtocolID) (written : Bool) : Database :=
  recordVerdict c db hash mechanismBlocking "banning check failed; blocked" none written

/-- `allHashes`: the requested hashes once each, without those the name policy excludes. -/
def allHashes (reqs : List ProtocolID) : List ProtocolID := (reqs.filter fun h => !c.excludesHash h).eraseDups

/-- The consultation of the verdict ledger. Its errors and the shadow mode let everything through. -/
def unjudged (b : Batch) (db : Database) (hashes : List ProtocolID) : List ProtocolID :=
  if c.verdicts && b.lookedUp && c.verdictsLive then
    hashes.filter fun h => !decide (h.val ∈ db.ledger.blockedSet (hashes.map Subtype.val))
  else hashes

/-- The name policy on the torrent that is there. -/
def namePermits (h : ProtocolID) : Option Row → Bool
  | some (.torrent _ name ..) => decide (name = "") || c.eligible h name
  | _ => true

/-- The condition for `getPeers`: the torrent is not there, or its files are not. -/
def wantsMetaInfo : Option Row → Bool
  | some (.torrent _ _ _ filesStatus filesCount _) =>
    filesMissing c.saveFilesThreshold filesStatus filesCount
  | _ => true

/-- One round of `runInfoHashTriage`, with the hashes that go to `getPeers`. -/
def triage (s : System) (b : Batch) : System × List ProtocolID :=
  let all := allHashes c b.reqs
  let csamKept := all.filter fun h => !b.csamBlocked h
  let db := recordCsamRejects c s.db (all.filter b.csamBlocked) "triage" b.recorded
  match Blocking.filter pg { s with db := db } csamKept b.now with
  | (s, .error _) => (s, [])
  | (s, .ok filtered) =>
    if b.searched then
      (s, (unjudged c b s.db filtered).filter fun h =>
        namePermits c h (s.db.catalogue.torrent? h.val) && wantsMetaInfo c (s.db.catalogue.torrent? h.val))
    else (s, [])

/-! ## Runs -/

/-- `doRequestMetaInfo` for a metainfo that the ban checker rejects. -/
def banRejected (s : System) (hash : ProtocolID) (written : Bool) (now : Instant) : System :=
  let s := (block pg s [hash] mechanismCsam "csam_crawler" false now).1
  { s with db := recordBlockingVerdict c s.db hash written }

inductive Action where
  | triage (b : Batch)
  | banRejected (hash : ProtocolID) (written : Bool) (now : Instant)
  | block (hashes : List ProtocolID) (mechanism reason : String) (doFlush : Bool) (now : Instant)
  | flush (now : Instant)
  | remove (store : Store) (hashes : List ID) (mechanism reason : String) (now : Time)
  | restore (store : Store) (id : Int) (now : Time)
  | record (ev : Event)
  | write (tables : Database)
  | restart

def writeTables (db tables : Database) : Database :=
  { tables with
    payloadBytes := db.payloadBytes, snapshotCount := db.snapshotCount, snapshots := db.snapshots
    recoveryEvents := db.recoveryEvents, ledger := db.ledger }

def committed {α : Type} (db : Database) : Except RecoveryError (α × Database) → Database
  | .ok (_, db') => db'
  | .error _ => db

def step (s : System) : Action → System
  | .triage b => (triage c pg s b).1
  | .banRejected hash written now => banRejected c pg s hash written now
  | .block hashes mechanism reason doFlush now => (block pg s hashes mechanism reason doFlush now).1
  | .flush now =>
    match flushBuffered s now with
    | .ok s' => s'
    | .error _ => s
  | .remove store hashes mechanism reason now =>
    { s with db := committed s.db (removeBatch pg store s.db hashes mechanism reason now) }
  | .restore store id now => { s with db := committed s.db (restore pg store s.db id now) }
  | .record ev => { s with db := { s.db with ledger := (s.db.ledger.recordTx ev).getD s.db.ledger } }
  | .write tables => { s with db := writeTables s.db tables }
  | .restart => { s with manager := newManager c.recovery }

def deployed (db : Database) (bloom : List ProtocolID) : System where
  manager := newManager c.recovery
  db := { db with snapshots := .empty, payloadBytes := 0, snapshotCount := 0, recoveryEvents := [] }
  bloom := bloom

/-- The system before action `k` of a run. -/
def systemAt (db : Database) (bloom : List ProtocolID) (schedule : Nat → Action) (k : Nat) : System :=
  Run.stateAt (step c pg) (deployed c db bloom) schedule k

def routed (s : System) : Action → List ProtocolID
  | .triage b => (triage c pg s b).2
  | _ => []

/-- A restoration of the hash that commits. -/
def Restores (s : System) (a : Action) (hash : ProtocolID) : Prop :=
  ∃ store id now db' row, a = .restore store id now ∧
    restore pg store s.db id now = .ok (true, db') ∧ s.db.snapshots.get? id.toNat = some row ∧
    row.infoHash = hash.val

/-- A verdict of the hash that the readers do not exclude. -/
def Readmits (a : Action) (hash : ProtocolID) : Prop :=
  ∃ ev, a = .record ev ∧ ev.infoHash = hash.val ∧ ev.verdict ∉ blockingVerdicts

end BitAgent.Dhtcrawler
