/-
# Cataloguerecovery.Removal — what a removal leaves behind

`removeTx_cases`: the call is a retry and changes nothing, or the torrent passes its checks and `commitRemoval` writes.
A removal *stands* for a hash when the torrent is gone and its snapshot is bound to the last verdict, which is what a
retry needs. It is *restorable* when moreover the snapshot holds the rows and what they depend on has not changed. Both
survive every step that leaves the hash alone (`Elsewhere`).
-/
import BitAgent.Cataloguerecovery.Store

namespace BitAgent.Cataloguerecovery

open Lib Metainfo Verdicts List Table

variable {pg : Platform} {store : Store}

/-! ## Steps that leave a hash alone -/

/-- The rows of a hash; with `none`, the shared source definitions. -/
def Catalogue.rowsOf (c : Catalogue) (owner : Option ID) : List Row :=
  c.rows.filter fun r => decide (r.infoHash? = owner)

/-- Nothing has changed that concerns `hash`. -/
structure Elsewhere (hash : ID) (db db' : Database) : Prop where
  own : db'.catalogue.rowsOf (some hash) = db.catalogue.rowsOf (some hash)
  shared : db'.catalogue.rowsOf none = db.catalogue.rowsOf none
  snapshot : ∀ {id r}, db.snapshots.get? id = some r → r.infoHash = hash → db'.snapshots.get? id = some r
  newest : ∀ p : SnapshotRow → Bool, (∀ r, p r = true → r.infoHash = hash) →
    db'.snapshots.maxKey p = db.snapshots.maxKey p
  verdict : db'.ledger.state.get? hash = db.ledger.state.get? hash
  event : ∀ {id e}, db.ledger.events.get? id = some e → db'.ledger.events.get? id = some e
  lastEvent : db'.ledger.lastEvent hash = db.ledger.lastEvent hash
  quarantine : db'.quarantine = db.quarantine
  canonicalLabels : db'.canonicalLabels = db.canonicalLabels
  labelEvidence : db'.labelEvidence = db.labelEvidence
  schema : db'.schema = db.schema
  dependency : db'.unsupportedDependency = db.unsupportedDependency
  clock : db'.clock = db.clock

theorem Elsewhere.refl (hash : ID) (db : Database) : Elsewhere hash db db where
  own := rfl
  shared := rfl
  snapshot := fun h _ => h
  newest := fun _ _ => rfl
  verdict := rfl
  event := fun h => h
  lastEvent := rfl
  quarantine := rfl
  canonicalLabels := rfl
  labelEvidence := rfl
  schema := rfl
  dependency := rfl
  clock := rfl

variable {hash : ID}

theorem Elsewhere.trans {db₁ db₂ db₃ : Database} (h₁ : Elsewhere hash db₁ db₂) (h₂ : Elsewhere hash db₂ db₃) :
    Elsewhere hash db₁ db₃ where
  own := h₂.own.trans h₁.own
  shared := h₂.shared.trans h₁.shared
  snapshot := fun hget hhash => h₂.snapshot (h₁.snapshot hget hhash) hhash
  newest := fun p hp => (h₂.newest p hp).trans (h₁.newest p hp)
  verdict := h₂.verdict.trans h₁.verdict
  event := fun hget => h₂.event (h₁.event hget)
  lastEvent := h₂.lastEvent.trans h₁.lastEvent
  quarantine := h₂.quarantine.trans h₁.quarantine
  canonicalLabels := h₂.canonicalLabels.trans h₁.canonicalLabels
  labelEvidence := h₂.labelEvidence.trans h₁.labelEvidence
  schema := h₂.schema.trans h₁.schema
  dependency := h₂.dependency.trans h₁.dependency
  clock := h₂.clock.trans h₁.clock

section
variable {hash : ID} {db db' : Database} {c : Catalogue} {r : Row} {owner : Option ID}

theorem mem_rowsOf : r ∈ c.rowsOf owner ↔ r ∈ c.rows ∧ r.infoHash? = owner := by simp [Catalogue.rowsOf]

theorem Elsewhere.rows (h : Elsewhere hash db db') (r : Row) (hr : r.infoHash? = some hash ∨ r.infoHash? = none) :
    r ∈ db'.catalogue.rows ↔ r ∈ db.catalogue.rows := by
  rcases hr with hown | hshared
  · have hmem : r ∈ db'.catalogue.rowsOf (some hash) ↔ r ∈ db.catalogue.rowsOf (some hash) := by rw [h.own]
    rw [mem_rowsOf, mem_rowsOf] at hmem
    tauto
  · have hmem : r ∈ db'.catalogue.rowsOf none ↔ r ∈ db.catalogue.rowsOf none := by rw [h.shared]
    rw [mem_rowsOf, mem_rowsOf] at hmem
    tauto

theorem torrent?_eq_some_iff :
    c.torrent? hash = some r ↔ r ∈ c.rows ∧ r.primaryKey = (.torrents, some hash, "") := by
  constructor
  · intro h
    exact ⟨get?_mem h, get?_key h⟩
  · rintro ⟨hmem, hkey⟩
    show c.get? _ = _
    rw [← hkey]
    exact get?_of_mem hmem

theorem Elsewhere.torrent? (h : Elsewhere hash db db') : db'.catalogue.torrent? hash = db.catalogue.torrent? hash := by
  have hiff : ∀ r, db'.catalogue.torrent? hash = some r ↔ db.catalogue.torrent? hash = some r := by
    intro r
    rw [torrent?_eq_some_iff, torrent?_eq_some_iff]
    refine and_congr_left fun hkey => h.rows r (.inl ?_)
    exact congrArg (fun k => k.2.1) hkey
  exact Option.ext fun r => hiff r

theorem Elsewhere.authority (h : Elsewhere hash db db') (other : ID) :
    authority pg db' other = authority pg db other := by
  unfold Cataloguerecovery.authority quarantined privateEvidence
  rw [h.quarantine, h.canonicalLabels, h.labelEvidence]

theorem mem_linkedSources {source : String} : source ∈ c.linkedSources hash ↔
      ∃ r ∈ c.rows, r.primaryKey = (.torrentsTorrentSources, some hash, source) := by
  unfold Catalogue.linkedSources
  rw [mem_filterMap]
  refine exists_congr fun r => and_congr_right fun _ => ?_
  cases r <;> simp [Row.linkOf, Row.primaryKey, Row.table, Row.infoHash?, Row.keyText]

theorem mem_captured {t : TableName} : r ∈ c.captured hash t ↔ r ∈ c.rows ∧ r.table = t ∧
      if t = .torrentSources then r.keyText ∈ c.linkedSources hash
      else r.infoHash? = some hash := by simp [Catalogue.captured]

theorem infoHash?_eq_none_iff : r.infoHash? = none ↔ r.table = .torrentSources := by
  cases r <;> simp [Row.infoHash?, Row.table]

/-- A selection from the rows of one owner needs those rows only. -/
theorem filter_rowsOf {p : Row → Bool} (hp : ∀ r, p r = true → r.infoHash? = owner) :
    (c.rowsOf owner).filter p = c.rows.filter p := by
  unfold Catalogue.rowsOf
  rw [filter_filter]
  refine filter_congr fun r _ => ?_
  cases hr : p r with
  | false => rfl
  | true => simp [hp r hr]

theorem filterMap_rowsOf {α : Type} {f : Row → Option α} (hf : ∀ r, (f r).isSome → r.infoHash? = owner) :
    (c.rowsOf owner).filterMap f = c.rows.filterMap f := by
  unfold Catalogue.rowsOf
  rw [filterMap_filter]
  congr 1
  funext r
  cases hr : f r with
  | none => simp
  | some a => simp [hf r (by rw [hr]; rfl)]

theorem captured_eq {c' : Catalogue} (hown : c'.rowsOf (some hash) = c.rowsOf (some hash))
    (hshared : c'.rowsOf none = c.rowsOf none) (t : TableName) :
    c'.captured hash t = c.captured hash t := by
  have hlinks : c'.linkedSources hash = c.linkedSources hash := by
    have hf : ∀ r : Row, (r.linkOf hash).isSome → r.infoHash? = some hash := by
      intro r hr
      cases r <;> simp_all [Row.linkOf, Row.infoHash?]
    unfold Catalogue.linkedSources
    rw [← filterMap_rowsOf hf, ← filterMap_rowsOf hf, hown]
  unfold Catalogue.captured
  rw [hlinks]
  split_ifs with ht
  · have hp : ∀ r : Row, (decide (r.table = t) && decide (r.keyText ∈ c.linkedSources hash)) = true →
        r.infoHash? = none := by grind [infoHash?_eq_none_iff]
    rw [← filter_rowsOf hp, ← filter_rowsOf hp, hshared]
  · have hp : ∀ r : Row, (decide (r.table = t) && decide (r.infoHash? = some hash)) = true →
        r.infoHash? = some hash := by grind
    rw [← filter_rowsOf hp, ← filter_rowsOf hp, hown]

/-! ## Receipts -/

theorem currentReceipt_ok_iff {id : Nat} {state : SnapshotState} : currentReceipt db id hash state = .ok () ↔
      ∃ s v e, db.snapshots.get? id = some s ∧ db.ledger.state.get? hash = some v ∧
        (s.boundEvent state).bind db.ledger.events.get? = some e ∧
        receiptMatches (db.ledger.lastEvent hash) hash state s v e = true := by
  unfold currentReceipt
  cases hs : db.snapshots.get? id with
  | none => simp
  | some s =>
    cases hv : db.ledger.state.get? hash with
    | none => simp
    | some v =>
      cases he : (s.boundEvent state).bind db.ledger.events.get? with
      | none => simp [he]
      | some e => simp [he]

theorem Elsewhere.currentReceipt (h : Elsewhere hash db db') {id : Nat} {state : SnapshotState}
    (hok : currentReceipt db id hash state = .ok ()) :
    Cataloguerecovery.currentReceipt db' id hash state = .ok () := by
  obtain ⟨s, v, e, hs, hv, he, hmatch⟩ := currentReceipt_ok_iff.mp hok
  have hhash : s.infoHash = hash := by grind [receiptMatches]
  obtain ⟨evID, hbound, hget⟩ := Option.bind_eq_some_iff.mp he
  refine currentReceipt_ok_iff.mpr ⟨s, v, e, h.snapshot hs hhash, ?_, ?_, ?_⟩
  · rw [h.verdict, hv]
  · exact Option.bind_eq_some_iff.mpr ⟨evID, hbound, h.event hget⟩
  · rw [h.lastEvent]
    exact hmatch

end

/-! ## One removal -/

variable {mechanism reason : String} {now : Time}

theorem removeTx_cases {tx tx' : Tx} {snap : Snapshot}
    (h : removeTx pg store tx hash mechanism reason now = .ok (snap, tx')) :
    (tx.db.catalogue.torrent? hash = none ∧ retryRemoval tx.db hash reason now = .ok snap ∧ tx' = tx) ∨
    (∃ payload, (tx.db.catalogue.torrent? hash).isSome ∧
      protected_ pg store tx.db hash true = .ok () ∧ checkCascade tx.db = .ok () ∧
      capture pg store tx hash = .ok payload ∧
      (snap, tx') = commitRemoval pg store tx hash mechanism reason now payload) := by
  unfold removeTx at h
  cases htorrent : tx.db.catalogue.torrent? hash with
  | none =>
    simp only [htorrent] at h
    obtain ⟨found, hretry, hret⟩ := accepted_bind_iff.mp h
    cases hret
    exact .inl ⟨rfl, hretry, rfl⟩
  | some row =>
    simp only [htorrent] at h
    obtain ⟨hprot, h⟩ := checked_bind_iff.mp h
    obtain ⟨hcascade, h⟩ := checked_bind_iff.mp h
    obtain ⟨payload, hcapture, hret⟩ := accepted_bind_iff.mp h
    exact .inr ⟨payload, rfl, hprot, hcascade, hcapture, (Except.ok.inj hret).symm⟩

variable {db : Database}

theorem captureTables_ok {rowCount size : Int} {ts : List TableName} {out : List (TableName × List Row)}
    (h : captureTables pg store db hash rowCount size ts = .ok out) :
    out = ts.map fun t => (t, db.catalogue.captured hash t) := by
  induction ts generalizing rowCount size out with
  | nil => exact (Except.ok.inj h).symm
  | cons t ts ih =>
    unfold captureTables at h
    simp only [reject_bind_eq_ok] at h
    obtain ⟨rest, hrest, hret⟩ := accepted_bind_iff.mp h.2.2
    rw [← Except.ok.inj hret, ih hrest]
    rfl

theorem lookup_tables (f : TableName → List Row) (t : TableName) :
    (tables.map fun t => (t, f t)).lookup t = some (f t) := by
  cases t <;> rfl

theorem capture_ok {tx : Tx} {payload : Payload} (h : capture pg store tx hash = .ok payload) :
    payload.tables = tables.map (fun t => (t, tx.db.catalogue.captured hash t)) ∧ payload.schema = tx.db.schema := by
  unfold capture at h
  obtain ⟨out, hout, h⟩ := accepted_bind_iff.mp h
  simp only [reject_bind_eq_ok] at h
  rw [← Except.ok.inj h.2]
  exact ⟨captureTables_ok hout, rfl⟩

def committedRow (pg : Platform) (store : Store) (tx : Tx) (hash : ID) (reason : String)
    (now : Time) (payload : Payload) : SnapshotRow :=
  removedRow tx.db.ledger.events.next (preparedRow pg store hash reason now payload tx.db.snapshots.next)

def tombstone (tx : Tx) (hash : ID) (mechanism reason : String) : Event where
  infoHash := hash
  verdict := .tombstoned
  mechanism := mechanism
  reason := reason
  evidence := some (.receipt tx.db.snapshots.next contractVersion .removed)

section
variable {tx tx' : Tx} {hash : ID} {mechanism reason : String} {now : Time} {payload : Payload} {snap : Snapshot}

theorem commitRemoval_writes (h : (snap, tx') = commitRemoval pg store tx hash mechanism reason now payload) :
    snap = (committedRow pg store tx hash reason now payload).receipt ∧
    tx'.db.catalogue = tx.db.catalogue.deleteTorrent hash ∧
    tx'.db.snapshots.table.rows = tx.db.snapshots.table.rows ++ [committedRow pg store tx hash reason now payload] ∧
    tx'.db.ledger = tx.db.ledger.write (tombstone tx hash mechanism reason) ∧
    tx'.db.quarantine = tx.db.quarantine ∧ tx'.db.canonicalLabels = tx.db.canonicalLabels ∧
    tx'.db.labelEvidence = tx.db.labelEvidence ∧ tx'.db.schema = tx.db.schema ∧
    tx'.db.unsupportedDependency = tx.db.unsupportedDependency ∧ tx'.db.clock = tx.db.clock := by
  cases h
  refine ⟨rfl, rfl, ?_, rfl, rfl, rfl, rfl, rfl, rfl, rfl⟩
  exact Serial.rows_insert_update _ (preparedRow_id pg store hash reason now payload)
    (removedRow_id tx.db.ledger.events.next)

theorem mem_deleteTorrent {c : Catalogue} {r : Row} :
    r ∈ (c.deleteTorrent hash).rows ↔ r ∈ c.rows ∧ r.infoHash? ≠ some hash := by
  show r ∈ c.rows.filter _ ↔ _
  simp

theorem rowsOf_deleteTorrent {c : Catalogue} {owner : Option ID} (hne : owner ≠ some hash) :
    (c.deleteTorrent hash).rowsOf owner = c.rowsOf owner := by
  show (c.rows.filter _).filter _ = c.rows.filter _
  rw [filter_filter]
  grind

theorem commitRemoval_elsewhere
    (h : (snap, tx') = commitRemoval pg store tx hash mechanism reason now payload) {other : ID}
    (hne : hash ≠ other) : Elsewhere other tx.db tx'.db := by
  obtain ⟨-, hcatalogue, hsnapshots, hledger, hquarantine, hlabels, hevidence, hschema, hdep,
    hclock⟩ := commitRemoval_writes h
  have hkey : (committedRow pg store tx hash reason now payload).id = tx.db.snapshots.next := rfl
  refine ⟨?_, ?_, ?_, ?_, ?_, ?_, ?_, hquarantine, hlabels, hevidence, hschema, hdep, hclock⟩
  · grind [rowsOf_deleteTorrent]
  · grind [rowsOf_deleteTorrent]
  · intro id r hget hr
    have hlt : id ≠ tx.db.snapshots.next := by
      rw [← Serial.get?_key hget]
      exact Nat.ne_of_lt (tx.db.snapshots.below r (get?_mem hget))
    rw [Serial.get?_append hsnapshots hkey, if_neg hlt, hget]
  · intro p hp
    rw [Serial.maxKey_append hsnapshots hkey, if_neg]
    intro hpos
    exact hne (hp _ hpos)
  · rw [hledger, Ledger.state_write]
    exact if_neg hne
  · grind [Ledger.event_write_of_lt]
  · rw [hledger]
    exact Ledger.lastEvent_write_of_ne _ hne

theorem removeTx_elsewhere (h : removeTx pg store tx hash mechanism reason now = .ok (snap, tx'))
    {other : ID} (hne : hash ≠ other) : Elsewhere other tx.db tx'.db := by
  rcases removeTx_cases h with ⟨-, -, rfl⟩ | ⟨payload, -, -, -, -, hcommit⟩
  · exact Elsewhere.refl other tx'.db
  · exact commitRemoval_elsewhere hcommit hne

end

/-! ## Removals that stand -/

/-- The removal of a snapshot stands, as a retry asks for. -/
structure Standing (db : Database) (row : SnapshotRow) : Prop where
  stored : db.snapshots.get? row.id = some row
  absent : db.catalogue.torrent? row.infoHash = none
  newest : db.snapshots.maxKey (retryable db row.infoHash row.reason) = some row.id
  receipt : currentReceipt db row.id row.infoHash .removed = .ok ()

variable {db' : Database} {row : SnapshotRow}

theorem Standing.elsewhere (hs : Standing db row) (h : Elsewhere row.infoHash db db') : Standing db' row where
  stored := h.snapshot hs.stored rfl
  absent := h.torrent?.trans hs.absent
  newest := by
    have hsame : retryable db' row.infoHash row.reason = retryable db row.infoHash row.reason := by
      funext r
      unfold retryable
      rw [h.lastEvent]
    rw [hsame, h.newest, hs.newest]
    grind [retryable]
  receipt := h.currentReceipt hs.receipt

section
variable {db : Database} {hash : ID} {reason : String} {now : Time} {snap : Snapshot}

theorem Standing.retry (hs : Standing db row) (hnow : now < row.expiresAt) :
    retryRemoval db row.infoHash row.reason now = .ok row.receipt := by
  unfold retryRemoval
  rw [hs.newest, Option.bind_some, hs.stored]
  simp only [reject_bind_eq_ok, decide_eq_false_iff_not, not_not]
  exact ⟨hnow, checked_bind_iff.mpr ⟨hs.receipt, rfl⟩⟩

theorem standing_of_retry (habsent : db.catalogue.torrent? hash = none)
    (h : retryRemoval db hash reason now = .ok snap) :
    ∃ row, Standing db row ∧ row.infoHash = hash ∧ row.reason = reason ∧ row.receipt = snap := by
  unfold retryRemoval at h
  cases hfound : (db.snapshots.maxKey (retryable db hash reason)).bind db.snapshots.get? with
  | none => simp [hfound] at h
  | some row =>
    simp only [hfound, reject_bind_eq_ok] at h
    obtain ⟨hreceipt, hret⟩ := checked_bind_iff.mp h.2
    obtain ⟨hp, hmax⟩ := Serial.maxKey_bind_get? hfound
    rw [hmax, Option.bind_some] at hfound
    simp only [retryable, Bool.and_eq_true, decide_eq_true_eq] at hp
    obtain ⟨⟨⟨⟨rfl, -⟩, rfl⟩, -⟩, -⟩ := hp
    exact ⟨row, ⟨hfound, habsent, hmax, hreceipt⟩, rfl, rfl, Except.ok.inj hret⟩

end

section
variable {tx tx' : Tx} {hash : ID} {mechanism reason : String} {now : Time} {payload : Payload} {snap : Snapshot}

theorem deleteTorrent_torrent? (c : Catalogue) : (c.deleteTorrent hash).torrent? hash = none := by
  rw [Option.eq_none_iff_forall_ne_some]
  intro r hr
  obtain ⟨hmem, hkey⟩ := torrent?_eq_some_iff.mp hr
  exact (mem_deleteTorrent.mp hmem).2 (congrArg (fun k => k.2.1) hkey)

theorem commitRemoval_currentReceipt (h : (snap, tx') = commitRemoval pg store tx hash mechanism reason now payload) :
    currentReceipt tx'.db tx.db.snapshots.next hash .removed = .ok () ↔ mechanism ∈ receiptMechanisms := by
  obtain ⟨-, -, hsnapshots, hledger, -⟩ := commitRemoval_writes h
  have hget := Serial.get?_append hsnapshots
    (show (committedRow pg store tx hash reason now payload).id = _ from rfl) tx.db.snapshots.next
  rw [if_pos rfl] at hget
  have hstate := tx.db.ledger.state_write (tombstone tx hash mechanism reason) hash
  rw [if_pos (show (tombstone tx hash mechanism reason).infoHash = hash from rfl)] at hstate
  have hevent := tx.db.ledger.event_write (tombstone tx hash mechanism reason) tx.db.ledger.events.next
  rw [if_pos rfl] at hevent
  have hlast : (tx.db.ledger.write (tombstone tx hash mechanism reason)).lastEvent hash = _ :=
    tx.db.ledger.lastEvent_write_self (tombstone tx hash mechanism reason)
  grind [currentReceipt, SnapshotRow.boundEvent, committedRow, removedRow, reject_eq_ok,
    receiptMatches, tombstone, preparedRow]

theorem standing_of_commit (hmech : mechanism ∈ receiptMechanisms)
    (h : (snap, tx') = commitRemoval pg store tx hash mechanism reason now payload) :
    Standing tx'.db (committedRow pg store tx hash reason now payload) := by
  have hreceipt := (commitRemoval_currentReceipt h).mpr hmech
  obtain ⟨-, hcatalogue, hsnapshots, hledger, -⟩ := commitRemoval_writes h
  have hkey : (committedRow pg store tx hash reason now payload).id = tx.db.snapshots.next := rfl
  refine ⟨?_, ?_, ?_, hreceipt⟩
  · grind [Serial.get?_append]
  · rw [hcatalogue]
    exact deleteTorrent_torrent? _
  · rw [Serial.maxKey_append hsnapshots hkey, if_pos]
    · rfl
    · have hlast : tx'.db.ledger.lastEvent hash = some tx.db.ledger.events.next := by
        rw [hledger]
        exact tx.db.ledger.lastEvent_write_self (tombstone tx hash mechanism reason)
      simp [retryable, committedRow, removedRow, preparedRow, hlast]

end

/-- The snapshot holds the rows of its hash as in `source`; they are gone, and what they need is unchanged. -/
structure Captured (pg : Platform) (source : Catalogue) (db : Database) (row : SnapshotRow) :
    Prop where
  stored : db.snapshots.get? row.id = some row
  positive : 0 < row.id
  state : row.state = .removed
  version : row.contractVersion = contractVersion
  digest : pg.digest row.snapshot = row.sourceDigest
  tables : row.snapshot.tables.length = tables.length
  records : ∀ t, row.snapshot.tables.lookup t = some (source.captured row.infoHash t)
  schema : row.snapshot.schema = db.schema
  dependency : db.unsupportedDependency = false
  free : authority pg db row.infoHash = false
  gone : ∀ r ∈ db.catalogue.rows, r.infoHash? ≠ some row.infoHash
  sources : ∀ r : Row, r.infoHash? = none → (r ∈ db.catalogue.rows ↔ r ∈ source.rows)

theorem Captured.elsewhere {source : Catalogue} (hc : Captured pg source db row) (h : Elsewhere row.infoHash db db') :
    Captured pg source db' row :=
  { hc with
    stored := h.snapshot hc.stored rfl
    schema := hc.schema.trans h.schema.symm
    dependency := h.dependency.trans hc.dependency
    free := (h.authority _).trans hc.free
    gone := by
      intro r hmem hhash
      exact hc.gone r ((h.rows r (.inl hhash)).mp hmem) hhash
    sources := fun r hnone => (h.rows r (.inr hnone)).trans (hc.sources r hnone) }

theorem Elsewhere.captured_source {source : Database} (h : Elsewhere row.infoHash source db)
    (hc : Captured pg db.catalogue db' row) :
    Captured pg source.catalogue db' row :=
  { hc with
    records := by
      intro t
      rw [hc.records t, captured_eq h.own h.shared]
    sources := fun r hnone => (hc.sources r hnone).trans (h.rows r (.inr hnone)) }

def RemovedBy (mechanism : String) (db : Database) (row : SnapshotRow) : Prop :=
  ∃ evID e, row.removedVerdictEventID = some evID ∧ db.ledger.events.get? evID = some e ∧ e.event.mechanism = mechanism

theorem RemovedBy.elsewhere (hm : RemovedBy mechanism db row) (h : Elsewhere row.infoHash db db') :
    RemovedBy mechanism db' row := by
  obtain ⟨evID, e, hbound, hevent, hmech⟩ := hm
  exact ⟨evID, e, hbound, h.event hevent, hmech⟩

theorem RemovedBy.of_receipt (hm : RemovedBy mechanism db row) (hstored : db.snapshots.get? row.id = some row)
    (hreceipt : currentReceipt db row.id row.infoHash .removed = .ok ()) :
    mechanism ∈ receiptMechanisms := by
  obtain ⟨evID, e, hbound, hevent, rfl⟩ := hm
  obtain ⟨s, v, e', hs, -, he', hmatch⟩ := currentReceipt_ok_iff.mp hreceipt
  obtain rfl : row = s := Option.some.inj (hstored.symm.trans hs)
  rw [show row.boundEvent .removed = some evID from hbound, Option.bind_some, hevent] at he'
  grind [receiptMatches]

section
variable {tx tx' : Tx} {hash : ID} {mechanism reason : String} {now : Time} {snap : Snapshot}

theorem removeTx_captured (hpresent : (tx.db.catalogue.torrent? hash).isSome)
    (h : removeTx pg store tx hash mechanism reason now = .ok (snap, tx')) :
    ∃ row, Captured pg tx.db.catalogue tx'.db row ∧ row.infoHash = hash ∧ row.reason = reason ∧
      row.receipt = snap ∧ RemovedBy mechanism tx'.db row ∧
      (mechanism ∈ receiptMechanisms → Standing tx'.db row) := by
  rcases removeTx_cases h with ⟨habsent, -, -⟩ | ⟨payload, -, hprot, hcascade, hcapture, hcommit⟩
  · simp [habsent] at hpresent
  · obtain ⟨htables, hschema⟩ := capture_ok hcapture
    obtain ⟨rfl, hcatalogue, hsnapshots, hledger, hquarantine, hlabels, hevidence, hschema', hdep,
      -⟩ := commitRemoval_writes hcommit
    refine ⟨committedRow pg store tx hash reason now payload,
      ⟨?_, tx.db.snapshots.positive, rfl, rfl, rfl, ?_, ?_, ?_, ?_, ?_, ?_, ?_⟩, rfl, rfl, rfl, ?_,
      fun hmech => standing_of_commit hmech hcommit⟩
    · rw [Serial.get?_append hsnapshots rfl]
      exact if_pos rfl
    · show payload.tables.length = _
      rw [htables, length_map]
    · intro t
      show payload.tables.lookup t = _
      rw [htables]
      exact lookup_tables _ t
    · rw [hschema']
      exact hschema
    · rw [hdep]
      exact reject_eq_ok.mp hcascade
    · unfold protected_ at hprot
      rw [reject_bind_eq_ok] at hprot
      unfold authority quarantined privateEvidence at hprot ⊢
      rw [hquarantine, hlabels, hevidence]
      exact hprot.1
    · intro r hmem
      rw [hcatalogue] at hmem
      exact (mem_deleteTorrent.mp hmem).2
    · grind [mem_deleteTorrent]
    · refine ⟨tx.db.ledger.events.next, ⟨tx.db.ledger.events.next, tombstone tx hash mechanism reason⟩, rfl, ?_, rfl⟩
      rw [hledger, Ledger.event_write, if_pos rfl]

theorem removeTx_standing (hmech : mechanism ∈ receiptMechanisms)
    (h : removeTx pg store tx hash mechanism reason now = .ok (snap, tx')) :
    ∃ row, Standing tx'.db row ∧ row.infoHash = hash ∧ row.reason = reason ∧ row.receipt = snap := by
  rcases removeTx_cases h with ⟨habsent, hretry, rfl⟩ | ⟨payload, hpresent, -, -, -, -⟩
  · exact standing_of_retry habsent hretry
  · grind [removeTx_captured]

end

/-! ## A batch -/

/-- `snap` is the receipt of a removal of `hash` for `reason` that stands. -/
def Receipted (db : Database) (reason : String) (hash : ID) (snap : Snapshot) : Prop :=
  ∃ row, Standing db row ∧ row.infoHash = hash ∧ row.reason = reason ∧ row.receipt = snap

theorem Receipted.elsewhere {snap : Snapshot} (hr : Receipted db reason hash snap) (h : Elsewhere hash db db') :
    Receipted db' reason hash snap := by
  obtain ⟨row, hstanding, rfl, hrest⟩ := hr
  exact ⟨row, hstanding.elsewhere h, rfl, hrest⟩

section
variable {mechanism reason : String} {now : Time} {tx tx' : Tx} {hashes : List ID} {snaps : List Snapshot}

theorem removeAll_cons (h : removeAll pg store mechanism reason now tx (hash :: hashes) = .ok (snaps, tx')) :
    ∃ snap rest mid, snaps = snap :: rest ∧ removeTx pg store tx hash mechanism reason now = .ok (snap, mid) ∧
      removeAll pg store mechanism reason now mid hashes = .ok (rest, tx') := by
  unfold removeAll at h
  obtain ⟨⟨snap, mid⟩, hone, h⟩ := accepted_bind_iff.mp h
  obtain ⟨⟨rest, last⟩, hmany, hret⟩ := accepted_bind_iff.mp h
  cases hret
  exact ⟨snap, rest, mid, rfl, hone, hmany⟩

theorem removeAll_elsewhere {other : ID} (hout : other ∉ hashes)
    (h : removeAll pg store mechanism reason now tx hashes = .ok (snaps, tx')) :
    Elsewhere other tx.db tx'.db := by
  induction hashes generalizing tx snaps with
  | nil =>
    cases h
    exact Elsewhere.refl other _
  | cons hash hashes ih =>
    obtain ⟨snap, rest, mid, -, hone, hmany⟩ := removeAll_cons h
    rw [mem_cons, not_or] at hout
    exact (removeTx_elsewhere hone (Ne.symm hout.1)).trans (ih hout.2 hmany)

theorem removeAll_receipted (hmech : mechanism ∈ receiptMechanisms) (hnodup : hashes.Nodup)
    (h : removeAll pg store mechanism reason now tx hashes = .ok (snaps, tx')) :
    List.Forall₂ (Receipted tx'.db reason) hashes snaps := by
  induction hashes generalizing tx snaps with
  | nil =>
    cases h
    exact .nil
  | cons hash hashes ih =>
    obtain ⟨snap, rest, mid, rfl, hone, hmany⟩ := removeAll_cons h
    rw [nodup_cons] at hnodup
    have hfirst : Receipted mid.db reason hash snap := removeTx_standing hmech hone
    exact .cons (hfirst.elsewhere (removeAll_elsewhere hnodup.1 hmany)) (ih hnodup.2 hmany)

theorem removeAll_of_receipted (hexpiry : ∀ snap ∈ snaps, now < snap.expiresAt)
    (h : List.Forall₂ (Receipted tx.db reason) hashes snaps) :
    removeAll pg store mechanism reason now tx hashes = .ok (snaps, tx) := by
  induction h with
  | nil => rfl
  | cons hfirst _ ih =>
    obtain ⟨row, hstanding, rfl, rfl, rfl⟩ := hfirst
    have hretry := hstanding.retry (hexpiry _ mem_cons_self)
    have hrest := ih fun snap hmem => hexpiry snap (mem_cons_of_mem _ hmem)
    have hone : removeTx pg store tx row.infoHash mechanism row.reason now = .ok (row.receipt, tx) := by
      unfold removeTx
      rw [hstanding.absent]
      simp only [hretry]
      rfl
    unfold removeAll
    rw [hone]
    show (removeAll pg store mechanism row.reason now tx _ >>= _) = _
    rw [hrest]
    rfl

theorem removeAll_captured (hnodup : hashes.Nodup)
    (h : removeAll pg store mechanism reason now tx hashes = .ok (snaps, tx')) (hmem : hash ∈ hashes)
    (hpresent : (tx.db.catalogue.torrent? hash).isSome) :
    ∃ row, Captured pg tx.db.catalogue tx'.db row ∧ row.infoHash = hash ∧ row.receipt ∈ snaps ∧
      RemovedBy mechanism tx'.db row ∧ (mechanism ∈ receiptMechanisms → Standing tx'.db row) := by
  induction hashes generalizing tx snaps with
  | nil => cases hmem
  | cons first hashes ih =>
    obtain ⟨snap, rest, mid, rfl, hone, hmany⟩ := removeAll_cons h
    rw [nodup_cons] at hnodup
    rcases mem_cons.mp hmem with rfl | hmem
    · obtain ⟨row, hrow, rfl, -, rfl, hby, hstanding⟩ := removeTx_captured hpresent hone
      have hframe := removeAll_elsewhere hnodup.1 hmany
      exact ⟨row, hrow.elsewhere hframe, rfl, mem_cons_self, hby.elsewhere hframe,
        fun hmech => (hstanding hmech).elsewhere hframe⟩
    · -- the removal of the first hash has left this one alone
      have hframe := removeTx_elsewhere hone (fun heq => hnodup.1 (heq ▸ hmem))
      rw [← hframe.torrent?] at hpresent
      obtain ⟨row, hrow, rfl, hsnap, hrest⟩ := ih hnodup.2 hmany hmem hpresent
      exact ⟨row, hframe.captured_source hrow, rfl, mem_cons_of_mem _ hsnap, hrest⟩

end

/-! ## `RemoveBatch` -/

theorem hasAdjacentEqual_iff {l : List ID} (hsorted : l.Pairwise (· ≤ ·)) : hasAdjacentEqual l = false ↔ l.Nodup := by
  induction l with
  | nil => simp [hasAdjacentEqual]
  | cons a l ih =>
    cases l with
    | nil => simp [hasAdjacentEqual]
    | cons b rest =>
      rw [pairwise_cons] at hsorted
      unfold hasAdjacentEqual
      rw [Bool.or_eq_false_iff, ih hsorted.2, decide_eq_false_iff_not, nodup_cons (a := a)]
      refine and_congr_left fun _ => not_congr ⟨fun hab => ?_, fun hmem => ?_⟩
      · rw [hab]
        exact mem_cons_self
      rcases mem_cons.mp hmem with hab | hrest
      · exact hab
      · -- `a` comes again after `b`, and the list is sorted
        grind [pairwise_cons, mem_cons_self]

theorem ordered_perm (hashes : List ID) : (ordered hashes).Perm hashes := perm_insertionSort _ _

variable {hashes : List ID}

theorem hasAdjacentEqual_ordered_iff : hasAdjacentEqual (ordered hashes) = false ↔ hashes.Nodup := by
  rw [← (ordered_perm hashes).nodup_iff]
  exact hasAdjacentEqual_iff (pairwise_insertionSort _ _)

theorem validateBatch_ok_iff :
    validateBatch store hashes reason now = .ok () ↔ store.cfg.enabled = true ∧ hashes ≠ [] ∧ hashes.length ≤ maxBatch ∧
        Catalogueguard.trimSpace reason ≠ [] ∧ reason.utf8ByteSize ≤ 1024 ∧ now ≠ 0 ∧
        (∀ h ∈ hashes, h.length = 20) ∧ hashes.Nodup := by
  unfold validateBatch
  simp only [reject_bind_eq_ok, reject_eq_ok, hasAdjacentEqual_ordered_iff, Bool.or_eq_false_iff,
    decide_eq_false_iff_not, any_eq_false, decide_eq_true_eq, not_not, Bool.not_eq_eq_eq_not,
    Bool.not_false, length_eq_zero_iff, gt_iff_lt, not_lt, ne_eq, and_assoc]

theorem removeBatch_ok_iff {snaps : List Snapshot} :
    removeBatch pg store db hashes mechanism reason now = .ok (snaps, db') ↔
      validateBatch store hashes reason now = .ok () ∧ storageCheck pg store db = .ok () ∧
        ∃ tx, removeAll pg store mechanism reason now ⟨db, db.payloadBytes, db.snapshotCount⟩
          (ordered hashes) = .ok (snaps, tx) ∧ storageCheck pg store tx.db = .ok () ∧
          tx.db = db' := by
  unfold removeBatch
  rw [checked_bind_iff, checked_bind_iff, accepted_bind_iff]
  refine and_congr_right fun _ => and_congr_right fun _ => ⟨?_, ?_⟩
  · rintro ⟨⟨snaps', tx⟩, hall, h⟩
    obtain ⟨hstorage, hret⟩ := checked_bind_iff.mp h
    cases hret
    exact ⟨tx, hall, hstorage, rfl⟩
  · rintro ⟨tx, hall, hstorage, rfl⟩
    exact ⟨(snaps, tx), hall, checked_bind_iff.mpr ⟨hstorage, rfl⟩⟩

end BitAgent.Cataloguerecovery
