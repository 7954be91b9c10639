/-
# Evidence.Store — evidence and the canonical label of a torrent

`internal/evidence`: `model.go`, `qbstate.go` and `Insert` of `store.go`. Evidence is append-only; one transaction
enters the row and moves the canonical label if the evidence is stronger. The hooks after the commit are the resolvers
of `Evidence.Liveness` and `Evidence.Outcomes`. Times are microseconds. An `Insert` that the database refuses did not
happen.
-/
import Mathlib.Data.List.MinMax
import Mathlib.Data.Prod.Lex
import BitAgent.Evidence.Priors
import BitAgent.Lib.Table

namespace BitAgent.LabelEvidence

open Lib
open Catalogueguard (trimSpace)
open Priors (Lowering)

/-- Microseconds. -/
abbrev Time := Int
abbrev InfoHash := List UInt8

/-! ## Evidence -/

inductive Source where
  | qbittorrent
  | sonarr
  | radarr
  | readarr
  | lidarr
  deriving DecidableEq

inductive Kind where
  | webhookImport
  | webhookGrab
  | pollHistory
  | pollCategories
  | qbStateObservation
  deriving DecidableEq

inductive MediaType where
  | movie
  | tv
  | music
  | book
  | audiobook
  | unknown
  deriving DecidableEq

def strengthQBCategoryPublic : Nat := 30
def strengthQBCategoryPrivate : Nat := 40
def strengthArrWebhookGrab : Nat := 60
def strengthArrPollImport : Nat := 80
def strengthQBStateSuspect : Nat := 35

/-- `Evidence`; an empty media type is `none`. -/
structure Evidence where
  source : Source
  kind : Kind
  sourceInstance : String
  sourceObjectID : String
  downloadID : String := ""
  infoHash : InfoHash
  title : String := ""
  mediaType : Option MediaType := none
  mediaID : String := ""
  category : String := ""
  observedAt : Time
  strength : Nat
  rawPayload : String := ""
  qbState : String := ""
  deriving DecidableEq

inductive QBStateClass where
  | alive
  | suspect
  | ignore
  deriving DecidableEq

def classifyQBState (u : Lowering) (state : String) : QBStateClass :=
  let state := String.ofList (u.toLower (trimSpace state))
  if ["seeding", "uploading", "forcedup", "forceddl", "downloading", "stalledup"].contains state then .alive
  else if ["stalleddl", "metadl", "error", "missingfiles", "pauseddl", "unknown"].contains state then .suspect
  else if ["queueddl", "queuedup", "checkingdl", "checkingup", "checkingresumedata", "moving", "allocating",
      ""].contains state then .ignore
  else .suspect

/-- The labels of private trackers, as both resolvers read a category. -/
def privateLabel (u : Lowering) (category : String) : Bool :=
  ["private", "bitgrab"].contains (String.ofList (u.toLower (trimSpace category)))

/-! ## The tables -/

def nullableString (v : String) : Option String := if v = "" then none else some v

/-- A row of `label_evidence`. -/
structure EvidenceRow where
  id : Nat
  evidence : Evidence

/-- The columns of the unique index `label_evidence_dedupe`. -/
def Evidence.dedupeKey (e : Evidence) : Source × Kind × String × String :=
  (e.source, e.kind, e.sourceInstance, e.sourceObjectID)

/-- `CanonicalLabel`, a row of `torrent_canonical_labels` apart from its key. -/
structure CanonicalLabel where
  mediaType : Option MediaType
  mediaID : Option String
  category : Option String
  title : Option String
  resolvedFrom : Nat
  resolvedSource : Source
  resolvedStrength : Nat
  resolvedAt : Time

structure Store where
  evidence : Serial EvidenceRow.id
  labels : InfoHash → Option CanonicalLabel

def Store.empty : Store := ⟨.empty, fun _ => none⟩

/-! ## `Insert` -/

/-- What `Insert` returns. -/
inductive InsertResult where
  | inserted
  | duplicate
  | notUsable

def isLabelBearing : Kind → Bool
  | .webhookImport | .webhookGrab | .pollHistory | .pollCategories => true
  | .qbStateObservation => false

/-- The label that a row of evidence gives. -/
def labelOf (r : EvidenceRow) : CanonicalLabel where
  mediaType := r.evidence.mediaType
  mediaID := nullableString r.evidence.mediaID
  category := nullableString r.evidence.category
  title := nullableString r.evidence.title
  resolvedFrom := r.id
  resolvedSource := r.evidence.source
  resolvedStrength := r.evidence.strength
  resolvedAt := r.evidence.observedAt

/-- The canonical-label upsert on one label. -/
def upsertCanonical (old : Option CanonicalLabel) (new : CanonicalLabel) : CanonicalLabel :=
  match old with
  | none => new
  | some cur =>
    if cur.resolvedStrength < new.resolvedStrength ∨
        (cur.resolvedStrength = new.resolvedStrength ∧ cur.resolvedAt < new.resolvedAt) then new
    else cur

namespace Store

/-- `Insert`. A row that the unique index refuses has used up a number of the sequence. -/
def insert (s : Store) (e : Evidence) : Store × InsertResult :=
  if e.infoHash.isEmpty && e.downloadID == "" then (s, .notUsable)
  else if s.evidence.table.rows.any fun r => r.evidence.dedupeKey == e.dedupeKey then
    ({ s with evidence := s.evidence.draw }, .duplicate)
  else
    let row : EvidenceRow := ⟨s.evidence.next, e⟩
    let labels := if !e.infoHash.isEmpty && isLabelBearing e.kind then
      Function.update s.labels e.infoHash (some (upsertCanonical (s.labels e.infoHash) (labelOf row)))
      else s.labels
    ({ evidence := s.evidence.insert (fun n => ⟨n, e⟩), labels := labels }, .inserted)

def insertAll (s : Store) (events : List Evidence) : Store := events.foldl (fun s e => (s.insert e).1) s
def canonicalForInfoHash (s : Store) (hash : InfoHash) : Option CanonicalLabel := s.labels hash

end Store

end BitAgent.LabelEvidence
