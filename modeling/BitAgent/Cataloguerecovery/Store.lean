/-
# Cataloguerecovery.Store — removal with a snapshot, and restoration

`internal/cataloguerecovery/store.go`. A removal captures every row of a torrent in ten tables as a snapshot,
deletes the torrent (the foreign keys cascade) and records a tombstone that names the snapshot, in one transaction
for at most 32 hashes. A restoration needs the tombstone to be the last verdict and puts the rows back.

Transactions are serialised by their table locks, so one is one step; an error changes nothing. `Platform` is the
length and digest of an encoded payload, the sizes that PostgreSQL reports and its `lower`. Left out: timeouts, locks
and connection errors, and the foreign keys between rows that a restoration does not touch.
-/
import Mathlib
import BitAgent.Catalogueguard.Tags
import BitAgent.Dhtcrawler.Persist
import BitAgent.Verdicts.Store

namespace BitAgent.Cataloguerecovery

open Lib Metainfo Verdicts Catalogueguard
open Dhtcrawler (FilesStatus)

attribute [local instance] decidableMem

/-! ## The catalogue -/

inductive TableName where
  | torrents
  | torrentSources
  | torrentsTorrentSources
  | torrentFiles
  | torrentPieces
  | torrentHints
  | torrentTags
  | torrentContents
  | torrentTrackerSeeds
  | junkpurgeSyncClaims
  deriving DecidableEq

/-- `tables`, in the order of the source. -/
def tables : List TableName :=
  [.torrents, .torrentSources, .torrentsTorrentSources, .torrentFiles, .torrentPieces,
   .torrentHints, .torrentTags, .torrentContents, .torrentTrackerSeeds, .junkpurgeSyncClaims]

/-- A row of one of the tables: the columns that code reads, and the others as one text. -/
inductive Row where
  | torrent (infoHash : ID) (name : String) (isPrivate : Bool) (filesStatus : FilesStatus)
      (filesCount : Option Nat) (rest : String)
  | torrentSource (key : String) (rest : String)
  | torrentsTorrentSource (source : String) (infoHash : ID) (rest : String)
  | torrentFile (infoHash : ID) (path : String) (rest : String)
  | torrentPieces (infoHash : ID) (rest : String)
  | torrentHint (infoHash : ID) (contentID : Option String) (rest : String)
  | torrentTag (infoHash : ID) (name : String) (rest : String)
  | torrentContent (infoHash : ID) (id : String) (rest : String)
  | torrentTrackerSeeds (infoHash : ID) (rest : String)
  | junkpurgeSyncClaim (infoHash : ID) (leaseUntil : Time) (rest : String)
  deriving DecidableEq

namespace Row

def table : Row → TableName
  | torrent .. => .torrents
  | torrentSource .. => .torrentSources
  | torrentsTorrentSource .. => .torrentsTorrentSources
  | torrentFile .. => .torrentFiles
  | torrentPieces .. => .torrentPieces
  | torrentHint .. => .torrentHints
  | torrentTag .. => .torrentTags
  | torrentContent .. => .torrentContents
  | torrentTrackerSeeds .. => .torrentTrackerSeeds
  | junkpurgeSyncClaim .. => .junkpurgeSyncClaims

/-- The column `info_hash`; a source definition is shared and has none. -/
def infoHash? : Row → Option ID
  | torrent h .. => some h
  | torrentSource .. => none
  | torrentsTorrentSource _ h _ => some h
  | torrentFile h .. => some h
  | torrentPieces h _ => some h
  | torrentHint h .. => some h
  | torrentTag h .. => some h
  | torrentContent h .. => some h
  | torrentTrackerSeeds h _ => some h
  | junkpurgeSyncClaim h .. => some h

/-- The part of the primary key beside `info_hash`. -/
def keyText : Row → String
  | torrentSource key _ => key
  | torrentsTorrentSource source .. => source
  | torrentFile _ path _ => path
  | torrentTag _ name _ => name
  | torrentContent _ id _ => id
  | _ => ""

/-- The source that a row links `hash` to. -/
def linkOf (hash : ID) : Row → Option String
  | torrentsTorrentSource source h _ => if h = hash then some source else none
  | _ => none

/-- The tag that a row puts on `hash`. -/
def tagOf (hash : ID) : Row → Option String
  | torrentTag h name _ => if h = hash then some name else none
  | _ => none

def primaryKey (r : Row) : TableName × Option ID × String := (r.table, r.infoHash?, r.keyText)

end Row

/-- The ten tables as one, keyed by table and primary key. -/
abbrev Catalogue := Table Row.primaryKey

namespace Catalogue

/-- `SELECT … FROM torrents WHERE info_hash=$1`. -/
def torrent? (c : Catalogue) (hash : ID) : Option Row := c.get? (.torrents, some hash, "")
def linkedSources (c : Catalogue) (hash : ID) : List String := c.rows.filterMap (Row.linkOf hash)

/-- The rows that a removal captures: its own, and the source definitions linked to. -/
def captured (c : Catalogue) (hash : ID) (t : TableName) : List Row :=
  c.rows.filter fun r =>
    decide (r.table = t) &&
      if t = .torrentSources then decide (r.keyText ∈ c.linkedSources hash)
      else decide (r.infoHash? = some hash)

/-- `DELETE FROM torrents WHERE info_hash=$1`, with its cascade. -/
def deleteTorrent (c : Catalogue) (hash : ID) : Catalogue := c.delete fun r => decide (r.infoHash? = some hash)

end Catalogue

/-! ## The database and the configuration -/

def contractVersion : String := "full-catalogue-snapshot-v2"
def maxBatch : Nat := 32

/-- `payload`: the captured rows of each table, and the schema under `_schema`. -/
structure Payload where
  tables : List (TableName × List Row)
  schema : String

/-- A row of `catalogue_recovery_snapshots`. -/
structure SnapshotRow where
  id : Nat
  infoHash : ID
  sourceDigest : String
  contractVersion : String
  state : SnapshotState
  reason : String
  snapshot : Payload
  payloadBytes : Nat
  createdAt : Time
  expiresAt : Time
  restoredAt : Option Time := none
  removedVerdictEventID : Option Nat := none
  restoredVerdictEventID : Option Nat := none

/-- A row of `catalogue_recovery_events`. -/
structure RecoveryEvent where
  snapshotID : Nat
  transition : SnapshotState
  observedAt : Time
  reason : String

/-- `Snapshot`, the receipt that a removal returns. -/
structure Snapshot where
  id : Nat
  infoHash : ID
  sourceDigest : String
  state : SnapshotState
  createdAt : Time
  expiresAt : Time
  payloadBytes : Nat

def SnapshotRow.receipt (r : SnapshotRow) : Snapshot where
  id := r.id
  infoHash := r.infoHash
  sourceDigest := r.sourceDigest
  state := r.state
  createdAt := r.createdAt
  expiresAt := r.expiresAt
  payloadBytes := r.payloadBytes

/-- A row of `junkpurge_quarantine`. -/
structure QuarantineRow where
  infoHash : ID
  expiredAt : Option Time

/-- A row of `torrent_canonical_labels`. -/
structure CanonicalLabel where
  infoHash : ID
  category : String

/-- A row of `label_evidence`. -/
structure LabelEvidence where
  infoHash : ID
  source : String
  category : String

/-- The relations of the package, the schema text of the ten tables, whether another table references `torrents`, and
the time. -/
structure Database where
  catalogue : Catalogue
  quarantine : List QuarantineRow
  canonicalLabels : List CanonicalLabel
  labelEvidence : List LabelEvidence
  payloadBytes : Nat
  snapshotCount : Nat
  snapshots : Serial SnapshotRow.id
  recoveryEvents : List RecoveryEvent
  ledger : Ledger
  schema : String
  unsupportedDependency : Bool
  clock : Time

/-- `Config`. The limits are `int64`. -/
structure Config where
  enabled : Bool
  retention : Int
  maxPayloadBytes : Int
  maxSnapshotBytes : Int
  maxSnapshots : Int
  maxStorageBytes : Int
  maxRowsPerSnapshot : Int

def day : Int := 24 * 3600 * 1000000000

/-- `Config.Validate`. -/
def Config.valid (c : Config) : Bool :=
  !c.enabled || !(decide (c.retention ≤ 0) || decide (c.retention > 365 * day) ||
      decide (c.maxPayloadBytes ≤ 0) || decide (c.maxSnapshotBytes ≤ 0) ||
      decide (c.maxSnapshotBytes > 64 * 2 ^ 20) ||
      decide (c.maxSnapshotBytes > c.maxPayloadBytes) || decide (c.maxSnapshots ≤ 0) ||
      decide (c.maxStorageBytes ≤ 0) || decide (c.maxRowsPerSnapshot ≤ 0) ||
      decide (c.maxRowsPerSnapshot > 65536))

/-- A `Store`: a configuration that `NewStore` accepts. -/
structure Store where
  cfg : Config
  valid : cfg.valid = true

/-- What PostgreSQL and the standard library compute. -/
structure Platform where
  /-- The SQL function `lower` under the collation of the database. -/
  lower : List Char → List Char
  /-- `octet_length(to_jsonb(r)::text)`. -/
  rowBytes : Row → Nat
  /-- The length of the encoded payload. -/
  encodedBytes : Payload → Nat
  /-- The SHA-256 of the encoded payload, in hexadecimal. -/
  digest : Payload → String
  /-- The size of the five relations that `storageCheck` asks for. -/
  relationBytes : Database → Nat

inductive RecoveryError where
  | disabled
  | capacity
  | expired
  | conflict
  | unsupportedDependency
  | protectedTorrent
  | badBatch
  | observationTime
  | hashLength
  | duplicateHash
  | positiveID
  | filterBatch
  | noRows
  | uniqueViolation
  | restoreTable (table : TableName) (cause : RecoveryError)
  deriving DecidableEq

def TableName.text : TableName → String
  | .torrents => "torrents"
  | .torrentSources => "torrent_sources"
  | .torrentsTorrentSources => "torrents_torrent_sources"
  | .torrentFiles => "torrent_files"
  | .torrentPieces => "torrent_pieces"
  | .torrentHints => "torrent_hints"
  | .torrentTags => "torrent_tags"
  | .torrentContents => "torrent_contents"
  | .torrentTrackerSeeds => "torrent_tracker_seeds"
  | .junkpurgeSyncClaims => "junkpurge_sync_claims"

/-- The text of an error; the last two kinds come from the database. -/
def RecoveryError.message : RecoveryError → String
  | .disabled => "catalogue recovery: foundation disabled"
  | .capacity => "catalogue recovery: configured recovery budget exhausted"
  | .expired => "catalogue recovery: retention window expired; snapshot retained"
  | .conflict => "catalogue recovery: current source or policy conflicts with transition"
  | .unsupportedDependency =>
    "catalogue recovery: current source or policy conflicts with transition: unsupported raw dependency"
  | .protectedTorrent => "catalogue recovery: protected torrent"
  | .badBatch => "catalogue recovery: 1..32 hashes and bounded reason required"
  | .observationTime => "catalogue recovery: observation time required"
  | .hashLength => "catalogue recovery: 20-byte hash required"
  | .duplicateHash => "catalogue recovery: duplicate hash"
  | .positiveID => "catalogue recovery: positive snapshot ID required"
  | .filterBatch => "catalogue recovery: filter batch exceeds 1024"
  | .noRows => "no rows in result set"
  | .uniqueViolation => "duplicate key value violates unique constraint"
  | .restoreTable table cause => "catalogue recovery: restore " ++ table.text ++ ": " ++ cause.message

/-! ## Protection and receipts -/

section
variable (pg : Platform) (store : Store)

def storageCheck (db : Database) : Except RecoveryError Unit :=
  reject (decide ((pg.relationBytes db : Int) > store.cfg.maxStorageBytes)) .capacity

def checkCascade (db : Database) : Except RecoveryError Unit := reject db.unsupportedDependency .unsupportedDependency

/-- `lower(trim(category)) in('private','bitgrab')`. -/
def privateCategory (category : String) : Bool :=
  decide (pg.lower (sqlTrim category) ∈ ["private".toList, "bitgrab".toList])

def privateEvidence (db : Database) (hash : ID) : Bool :=
  db.labelEvidence.any fun e =>
    decide (e.infoHash = hash) && decide (e.source = "qbittorrent") && privateCategory pg e.category

/-- An active row of `junkpurge_quarantine`. -/
def quarantined (db : Database) (hash : ID) : Bool :=
  db.quarantine.any fun q => decide (q.infoHash = hash) && q.expiredAt.isNone

/-- The first query of `protected`: quarantine, canonical label, private evidence. -/
def authority (db : Database) (hash : ID) : Bool :=
  quarantined db hash || db.canonicalLabels.any (fun l => decide (l.infoHash = hash)) || privateEvidence pg db hash

/-- The second query of `protected`, row by row of the catalogue, and the verdict state. -/
def heldRow (hash : ID) (clock : Time) : Row → Bool
  | .torrent h _ isPrivate .. => decide (h = hash) && isPrivate
  | .torrentHint h contentID _ => decide (h = hash) && contentID.isSome
  | .junkpurgeSyncClaim h leaseUntil _ => decide (h = hash) && decide (leaseUntil > clock)
  | _ => false

def held (db : Database) (hash : ID) : Bool :=
  db.catalogue.rows.any (heldRow hash db.clock) || db.canonicalLabels.any (fun l => decide (l.infoHash = hash)) ||
    (db.ledger.state.get? hash).any fun v => decide (v.verdict ∈ blockingVerdicts)

/-- `SELECT name FROM torrent_tags WHERE info_hash=$1 LIMIT …`. -/
def tagNames (db : Database) (hash : ID) : List String :=
  (db.catalogue.rows.filterMap (Row.tagOf hash)).take (store.cfg.maxRowsPerSnapshot + 1).toNat

/-- `protected`. -/
def protected_ (db : Database) (hash : ID) (removing : Bool) : Except RecoveryError Unit := do
  reject (authority pg db hash) .protectedTorrent
  if removing then
    reject (held db hash) .protectedTorrent
    let names := tagNames store db hash
    reject (decide ((names.length : Int) > store.cfg.maxRowsPerSnapshot) ||
      decide (((names.map String.utf8ByteSize).sum : Int) > store.cfg.maxSnapshotBytes)) .capacity
    reject (names.any fun name => protectedTag name true) .protectedTorrent

end

def receiptMechanisms : List String := [mechanismBlocking, mechanismClassifierDelete]

def SnapshotRow.boundEvent (s : SnapshotRow) (state : SnapshotState) : Option Nat :=
  if state = .removed then s.removedVerdictEventID else s.restoredVerdictEventID

/-- The conditions of `currentReceipt` on snapshot, verdict state and bound event. -/
def receiptMatches (last : Option Nat) (hash : ID) (state : SnapshotState) (s : SnapshotRow)
    (v : StateRow) (e : EventRow) : Bool :=
  decide (s.infoHash = hash) && decide (s.state = state) && decide (last = some e.id) &&
    decide (e.event.infoHash = hash) && decide (e.event.verdict = v.verdict) &&
    decide (e.event.mechanism = v.mechanism) &&
    decide (e.event.evidence = some (.receipt s.id s.contractVersion state)) &&
    decide (v.verdict = if state = .removed then .tombstoned else .restored) &&
    decide (v.mechanism = if state = .removed then e.event.mechanism else mechanismOperator) &&
    if state = .removed then decide (e.event.mechanism ∈ receiptMechanisms)
    else decide (e.event.mechanism = mechanismOperator)

def currentReceipt (db : Database) (id : Nat) (hash : ID) (state : SnapshotState) : Except RecoveryError Unit :=
  match db.snapshots.get? id, db.ledger.state.get? hash with
  | some s, some v =>
    match (s.boundEvent state).bind db.ledger.events.get? with
    | some e => reject (!receiptMatches (db.ledger.lastEvent hash) hash state s v e) .conflict
    | none => .error .conflict
  | _, _ => .error .conflict

/-- `recordVerdict`: the new event has the id `db.ledger.events.next`. -/
def recordVerdict (db : Database) (id : Nat) (hash : ID) (state : SnapshotState)
    (mechanism reason : String) : Database :=
  let (verdict, mechanism) :=
    if state = .restored then (Verdict.restored, mechanismOperator)
    else (Verdict.tombstoned, mechanism)
  { db with
    ledger := db.ledger.write
      { infoHash := hash, verdict := verdict, mechanism := mechanism, reason := reason,
        evidence := some (.receipt id contractVersion state) } }

/-- `event`. -/
def addEvent (db : Database) (id : Nat) (transition : SnapshotState) (now : Time) (reason : String) : Database :=
  { db with
    recoveryEvents := db.recoveryEvents ++
      [{ snapshotID := id, transition := transition, observedAt := now, reason := reason }] }

/-! ## Removal -/

/-- A removal transaction: the database, and `used` and `count`, read from the budget row once and kept in step with
it. -/
structure Tx where
  db : Database
  used : Nat
  count : Nat

/-- The snapshots that the retry query of `removeTx` selects from. -/
def retryable (db : Database) (hash : ID) (reason : String) (r : SnapshotRow) : Bool :=
  decide (r.infoHash = hash) && decide (r.state = .removed) && decide (r.reason = reason) &&
    r.removedVerdictEventID.isSome && decide (r.removedVerdictEventID = db.ledger.lastEvent hash)

/-- `removeTx` without a torrent: a retry of a committed removal gets its receipt. -/
def retryRemoval (db : Database) (hash : ID) (reason : String) (now : Time) : Except RecoveryError Snapshot :=
  match (db.snapshots.maxKey (retryable db hash reason)).bind db.snapshots.get? with
  | none => .error .conflict
  | some r => do
      reject (decide (¬now < r.expiresAt)) .expired
      currentReceipt db r.id hash .removed
      return r.receipt

section
variable (pg : Platform) (store : Store)

/-- The loop of `removeTx` over the tables, with rows and estimated bytes so far. -/
def captureTables (db : Database) (hash : ID) :
    Int → Int → List TableName → Except RecoveryError (List (TableName × List Row))
  | _, _, [] => .ok []
  | rowCount, size, t :: ts => do
      let rows := db.catalogue.captured hash t
      let n := min (rows.length : Int) (store.cfg.maxRowsPerSnapshot - rowCount + 1)
      reject (decide (rowCount + n > store.cfg.maxRowsPerSnapshot)) .capacity
      let size := size + (rows.map pg.rowBytes).sum
      reject (decide (rowCount + n > store.cfg.maxRowsPerSnapshot) ||
        decide (size > store.cfg.maxSnapshotBytes)) .capacity
      let rest ← captureTables db hash (rowCount + n) size ts
      return (t, rows) :: rest

def capture (tx : Tx) (hash : ID) : Except RecoveryError Payload := do
  let captured ← captureTables pg store tx.db hash 0 0 tables
  let payload : Payload := { tables := captured, schema := tx.db.schema }
  let size : Int := pg.encodedBytes payload
  reject (decide (size > store.cfg.maxSnapshotBytes) || decide (size > store.cfg.maxPayloadBytes - tx.used) ||
    decide ((tx.count : Int) ≥ store.cfg.maxSnapshots)) .capacity
  return payload

def preparedRow (hash : ID) (reason : String) (now : Time) (payload : Payload) (id : Nat) :
    SnapshotRow where
  id := id
  infoHash := hash
  sourceDigest := pg.digest payload
  contractVersion := contractVersion
  state := .prepared
  reason := reason
  snapshot := payload
  payloadBytes := pg.encodedBytes payload
  createdAt := now
  expiresAt := now + store.cfg.retention

/-- `UPDATE … SET state='removed',removed_verdict_event_id=$2`. -/
def removedRow (evID : Nat) (r : SnapshotRow) : SnapshotRow :=
  { r with state := .removed, removedVerdictEventID := some evID }

theorem removedRow_id (evID : Nat) (r : SnapshotRow) : (removedRow evID r).id = r.id := rfl

theorem preparedRow_id (hash : ID) (reason : String) (now : Time) (payload : Payload) (id : Nat) :
    (preparedRow pg store hash reason now payload id).id = id := rfl

/-- The statements of `removeTx` after the capture. -/
def commitRemoval (tx : Tx) (hash : ID) (mechanism reason : String) (now : Time) (payload : Payload) : Snapshot × Tx :=
  let row := preparedRow pg store hash reason now payload
  let id := tx.db.snapshots.next
  let evID := tx.db.ledger.events.next
  let size := pg.encodedBytes payload
  let db := { tx.db with
    snapshots := tx.db.snapshots.insert row (preparedRow_id pg store hash reason now payload)
    payloadBytes := tx.db.payloadBytes + size
    snapshotCount := tx.db.snapshotCount + 1 }
  let db := addEvent db id .prepared now reason
  let db := { db with catalogue := db.catalogue.deleteTorrent hash }
  let db := recordVerdict db id hash .removed mechanism reason
  let db := { db with
    snapshots := db.snapshots.update (fun r => decide (r.id = id)) (removedRow evID) (removedRow_id evID) }
  let db := addEvent db id .removed now reason
  ((removedRow evID (row id)).receipt, { db := db, used := tx.used + size, count := tx.count + 1 })

def removeTx (tx : Tx) (hash : ID) (mechanism reason : String) (now : Time) : Except RecoveryError (Snapshot × Tx) :=
  match tx.db.catalogue.torrent? hash with
  | none => do
      let snap ← retryRemoval tx.db hash reason now
      return (snap, tx)
  | some _ => do
      protected_ pg store tx.db hash true
      checkCascade tx.db
      let payload ← capture pg store tx hash
      return commitRemoval pg store tx hash mechanism reason now payload

/-- The loop of `RemoveBatch`. -/
def removeAll (mechanism reason : String) (now : Time) : Tx → List ID → Except RecoveryError (List Snapshot × Tx)
  | tx, [] => .ok ([], tx)
  | tx, hash :: rest => do
      let (snap, tx) ← removeTx pg store tx hash mechanism reason now
      let (snaps, tx) ← removeAll mechanism reason now tx rest
      return (snap :: snaps, tx)

/-- `bytes.Equal(ordered[i-1], ordered[i])` for some `i`. -/
def hasAdjacentEqual : List ID → Bool
  | a :: b :: rest => decide (a = b) || hasAdjacentEqual (b :: rest)
  | _ => false

/-- The hashes in the order of `bytes.Compare`. -/
def ordered (hashes : List ID) : List ID := hashes.insertionSort (· ≤ ·)

def validateBatch (hashes : List ID) (reason : String) (now : Time) :
    Except RecoveryError Unit := do
  reject (!store.cfg.enabled) .disabled
  reject (decide (hashes.length = 0) || decide (hashes.length > maxBatch) ||
    decide (trimSpace reason = []) || decide (reason.utf8ByteSize > 1024)) .badBatch
  reject (decide (now = 0)) .observationTime
  reject (hashes.any fun h => decide (h.length ≠ 20)) .hashLength
  reject (hasAdjacentEqual (ordered hashes)) .duplicateHash

/-- `RemoveBatch`: the receipts and the database after the commit. -/
def removeBatch (db : Database) (hashes : List ID) (mechanism reason : String) (now : Time) :
    Except RecoveryError (List Snapshot × Database) := do
  validateBatch store hashes reason now
  storageCheck pg store db
  let (snaps, tx) ← removeAll pg store mechanism reason now
    { db := db, used := db.payloadBytes, count := db.snapshotCount } (ordered hashes)
  storageCheck pg store tx.db
  return (snaps, tx.db)

end

/-! ## Restoration -/

/-- `INSERT INTO torrent_sources … ON CONFLICT(key) DO NOTHING`. -/
def insertShared (c : Catalogue) (rows : List Row) : Catalogue := rows.foldl Table.insertNew c

/-- `INSERT INTO …`: a taken key is an error. -/
def insertOwned : Catalogue → List Row → Except RecoveryError Catalogue
  | c, [] => .ok c
  | c, r :: rest => do
      reject (c.get? r.primaryKey).isSome .uniqueViolation
      insertOwned (c.insertNew r) rest

/-- The insertion of `restoreTable`. -/
def insertRecords (c : Catalogue) (t : TableName) (records : List Row) : Except RecoveryError Catalogue :=
  if t = .torrentSources then .ok (insertShared c records) else insertOwned c records

/-- What `restoreTable` compares: the rows of the hash, or the source definitions of its keys. -/
def restoredRows (c : Catalogue) (t : TableName) (records : List Row) : List Row :=
  c.rows.filter fun r =>
    decide (r.table = t) &&
      if t = .torrentSources then decide (r.keyText ∈ records.map Row.keyText)
      else decide (r.infoHash? = records.head?.bind Row.infoHash?)

/-- `restoreTable`: the records fit the columns, are inserted, and the table then holds exactly them. -/
def restoreTable (c : Catalogue) (t : TableName) (records : List Row) : Except RecoveryError Catalogue :=
  if records.isEmpty then .ok c
  else do
    reject (records.any fun r => decide (r.table ≠ t)) .conflict
    let c ← insertRecords c t records
    reject (!(restoredRows c t records).isPerm records) .conflict
    return c

/-- The loop of `Restore` over the tables. -/
def restoreTables (payload : Payload) : Catalogue → List TableName → Except RecoveryError Catalogue
  | c, [] => .ok c
  | c, t :: ts =>
    match payload.tables.lookup t with
    | none => .error .conflict
    | some records =>
      match restoreTable c t records with
      | .error e => .error (.restoreTable t e)
      | .ok c => restoreTables payload c ts

/-- `UPDATE … SET state='restored',restored_at=$2,restored_verdict_event_id=$3`. -/
def restoredRow (now : Time) (evID : Nat) (r : SnapshotRow) : SnapshotRow :=
  { r with state := .restored, restoredAt := some now, restoredVerdictEventID := some evID }

theorem restoredRow_id (now : Time) (evID : Nat) (r : SnapshotRow) : (restoredRow now evID r).id = r.id := rfl

section
variable (pg : Platform) (store : Store)

/-- The checks of `Restore` on a snapshot not yet restored, up to its payload. -/
def checkRestore (db : Database) (row : SnapshotRow) (now : Time) : Except RecoveryError Unit := do
  reject (decide (row.state ≠ .removed) || decide (row.contractVersion ≠ contractVersion)) .conflict
  reject (decide (¬now < row.expiresAt)) .expired
  checkCascade db
  protected_ pg store db row.infoHash false
  currentReceipt db row.id row.infoHash .removed
  reject (db.catalogue.torrent? row.infoHash).isSome .conflict
  reject (decide (pg.digest row.snapshot ≠ row.sourceDigest)) .conflict
  reject (decide (row.snapshot.schema ≠ db.schema)) .conflict
  reject (decide (row.snapshot.tables.length ≠ tables.length)) .conflict

/-- The statements of `Restore` after the rows are back. -/
def commitRestore (db : Database) (row : SnapshotRow) (now : Time) (c : Catalogue) : Database :=
  let evID := db.ledger.events.next
  let db := { db with catalogue := c }
  let db := recordVerdict db row.id row.infoHash .restored mechanismOperator row.reason
  let db := { db with
    snapshots := db.snapshots.update (fun r => decide (r.id = row.id)) (restoredRow now evID)
      (restoredRow_id now evID) }
  addEvent db row.id .restored now row.reason

/-- `Restore` of a removed snapshot, up to the last storage check. -/
def restoreTx (db : Database) (row : SnapshotRow) (now : Time) : Except RecoveryError Database := do
  checkRestore pg store db row now
  let c ← restoreTables row.snapshot db.catalogue tables
  return commitRestore db row now c

/-- `Restore`: whether this call restored rows, and the database after the commit. -/
def restore (db : Database) (id : Int) (now : Time) : Except RecoveryError (Bool × Database) := do
  reject (!store.cfg.enabled) .disabled
  reject (decide (id ≤ 0)) .positiveID
  reject (decide (now = 0)) .observationTime
  match db.snapshots.get? id.toNat with
  | none => .error .noRows
  | some row =>
    if row.state = .restored then return (false, db)
    else do
      let db ← restoreTx pg store db row now
      storageCheck pg store db
      return (true, db)

/-! ## The filter -/

def Database.latestSnapshot (db : Database) (hash : ID) : Option SnapshotRow :=
  (db.snapshots.maxKey fun r => decide (r.infoHash = hash)).bind db.snapshots.get?

/-- `valid` of `Filter`: the restoration is the last verdict, and nothing private came since. -/
def validRestoration (db : Database) (s : SnapshotRow) : Bool :=
  (match db.ledger.state.get? s.infoHash, s.restoredVerdictEventID.bind db.ledger.events.get? with
    | some v, some e =>
      decide (e.event.infoHash = s.infoHash) && decide (db.ledger.lastEvent s.infoHash = some e.id) &&
        decide (v.verdict = .restored) && decide (v.mechanism = mechanismOperator) &&
        decide (e.event.verdict = v.verdict) && decide (e.event.mechanism = v.mechanism) &&
        decide (e.event.evidence = some (.receipt s.id s.contractVersion .restored))
    | _, _ => false) &&
  !quarantined db s.infoHash && !privateEvidence pg db s.infoHash &&
  !(db.canonicalLabels.any fun l => decide (l.infoHash = s.infoHash) && privateCategory pg l.category) &&
  !(db.catalogue.rows.any fun
    | .torrent h _ isPrivate .. => decide (h = s.infoHash) && isPrivate
    | .torrentTag h name _ => decide (h = s.infoHash) && privacyTag name
    | _ => false)

/-- What `Filter` decides about one hash: the latest snapshot overrides the bloom filter. -/
def keeps (db : Database) (bloomKept : List ID) (hash : ID) : Bool :=
  match db.latestSnapshot hash with
  | none => decide (hash ∈ bloomKept)
  | some s =>
    match s.state with
    | .removed => false
    | .restored => validRestoration pg db s
    | .prepared => decide (hash ∈ bloomKept)

def filter (db : Database) (all bloomKept : List ID) : Except RecoveryError (List ID) := do
  reject (!store.cfg.enabled) .disabled
  reject (decide (all.length > 1024)) .filterBatch
  return all.filter (keeps pg db bloomKept)

end

/-! ## A small database -/

def samplePlatform : Platform where
  lower := fun l => l.map Char.toLower
  rowBytes := fun _ => 1
  encodedBytes := fun _ => 10
  digest := fun p => p.schema
  relationBytes := fun _ => 0

def sampleStore : Store where
  cfg :=
    { enabled := true, retention := 100, maxPayloadBytes := 1000, maxSnapshotBytes := 1000,
      maxSnapshots := 100, maxStorageBytes := 1000, maxRowsPerSnapshot := 100 }
  valid := by decide

/-- The hash `n n … n`. -/
def sampleHash (n : UInt8) : ID := List.replicate 20 n

def sampleRows (n : UInt8) (isPrivate : Bool) : List Row :=
  [.torrent (sampleHash n) "name" isPrivate .multi (some 1) "",
   .torrentsTorrentSource "dht" (sampleHash n) "", .torrentFile (sampleHash n) "a.mkv" "",
   .torrentTag (sampleHash n) "seen" ""]

def sampleDatabase (catalogue : Catalogue) : Database where
  catalogue := catalogue
  quarantine := []
  canonicalLabels := []
  labelEvidence := []
  payloadBytes := 0
  snapshotCount := 0
  snapshots := .empty
  recoveryEvents := []
  ledger := .empty
  schema := "schema"
  unsupportedDependency := false
  clock := 1

def sampleCatalogue : Catalogue where
  rows := .torrentSource "dht" "" :: sampleRows 7 false
  nodup := by decide

end BitAgent.Cataloguerecovery
