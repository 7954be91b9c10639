/-
# Verdicts.Store — the verdict ledger

`internal/verdicts/store.go`: an append-only table of verdict events, and a table with the current verdict of each
hash. A writer upserts the state row and inserts the event in one transaction; `RecordTx` here and `recordVerdict` of
the recovery store do. Left out: the columns `since`, `created_at`, `updated_at` and `actor`.
-/
import BitAgent.Lib.Table
import BitAgent.Metainfo.Parse

namespace BitAgent.Verdicts

open Lib Metainfo

/-! ## Rows -/

/-- A time; `0` is the zero value of `time.Time`. -/
abbrev Time := Int

inductive Verdict where
  | active
  | suspect
  | quarantined
  | blacklisted
  | tombstoned
  | restored
  deriving DecidableEq

def blockingVerdicts : List Verdict := [.quarantined, .blacklisted, .tombstoned]

/-- The states of a recovery snapshot, which are also the transitions that its events name. -/
inductive SnapshotState where
  | prepared
  | removed
  | restored
  deriving DecidableEq

/-- The `evidence` column: the object that binds an event to a transition of a recovery snapshot, or any other value.
-/
inductive Evidence where
  | receipt (snapshot : Nat) (contract : String) (transition : SnapshotState)
  | other (json : String)
  deriving DecidableEq

/-- `MechanismOperator` and its siblings, as far as code compares with them. -/
def mechanismOperator : String := "operator"
def mechanismBlocking : String := "blocking"
def mechanismClassifierDelete : String := "classifier_delete"
def mechanismCsam : String := "csam"

/-- `Event`, before it has an id. -/
structure Event where
  infoHash : ID
  verdict : Verdict
  mechanism : String
  reason : String
  evidence : Option Evidence := none
  expiresAt : Option Time := none
  deriving DecidableEq

/-- A row of `torrent_verdict_events`. -/
structure EventRow where
  id : Nat
  event : Event

/-- A row of `torrent_verdict_state`. -/
structure StateRow where
  infoHash : ID
  verdict : Verdict
  mechanism : String
  expiresAt : Option Time
  deriving DecidableEq

structure Ledger where
  state : Table StateRow.infoHash
  events : Serial EventRow.id

namespace Ledger

def empty : Ledger := ⟨.empty, .empty⟩

/-- `SELECT max(id) FROM torrent_verdict_events WHERE info_hash=$1`. -/
def lastEvent (l : Ledger) (hash : ID) : Option Nat := l.events.maxKey fun e => decide (e.event.infoHash = hash)

/-- The upsert of the state row, then the insertion of the event under `l.events.next`. -/
def write (l : Ledger) (ev : Event) : Ledger where
  state := l.state.upsert
    { infoHash := ev.infoHash, verdict := ev.verdict, mechanism := ev.mechanism,
      expiresAt := ev.expiresAt }
  events := l.events.insert (fun id => ⟨id, ev⟩) fun _ => rfl

/-- `RecordTx`: an incomplete event is an error. -/
def recordTx (l : Ledger) (ev : Event) : Option Ledger :=
  if ev.infoHash.length = 0 ∨ ev.mechanism = "" then none else some (l.write ev)

/-- `BlockedSet`: the hashes whose current verdict excludes them. -/
def blockedSet (l : Ledger) (hashes : List ID) : List ID :=
  hashes.filter fun h => (l.state.get? h).any fun row => decide (row.verdict ∈ blockingVerdicts)

/-! ## What a write leaves behind -/

variable (l : Ledger) (ev : Event)

theorem state_write (hash : ID) : (l.write ev).state.get? hash =
      if ev.infoHash = hash then
        some { infoHash := ev.infoHash, verdict := ev.verdict, mechanism := ev.mechanism,
               expiresAt := ev.expiresAt }
      else l.state.get? hash :=
  Table.get?_upsert _ _ _

theorem event_write (id : Nat) : (l.write ev).events.get? id =
      if id = l.events.next then some ⟨l.events.next, ev⟩ else l.events.get? id :=
  Serial.get?_insert _ _ _ _

theorem lastEvent_write_self : (l.write ev).lastEvent ev.infoHash = some l.events.next := by
  simp [lastEvent, write, Serial.maxKey_insert]

theorem lastEvent_write_of_ne {ev : Event} {hash : ID} (hne : ev.infoHash ≠ hash) :
    (l.write ev).lastEvent hash = l.lastEvent hash := by
  grind [lastEvent, write, Serial.maxKey_insert]

theorem event_write_of_lt {id : Nat} {row : EventRow} (hget : l.events.get? id = some row) :
    (l.write ev).events.get? id = some row := by
  have hlt : id < l.events.next := by
    rw [← Serial.get?_key hget]
    exact l.events.below row (Table.get?_mem hget)
  rw [event_write, if_neg (Nat.ne_of_lt hlt), hget]

end Ledger

end BitAgent.Verdicts
