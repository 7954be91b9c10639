/-
# Cataloguerecovery.Runs — the budget and the filter along a run

Any number of callers remove and restore in any order; every transaction first takes the budget table in exclusive
mode, so each is one step. Other programs may write their own tables in between. The budget row is never computed
from the snapshots, but stays their sum and number (`Accounts`). What the filter reads comes down to the state of
the latest snapshot (`Answered`).
-/
import BitAgent.Cataloguerecovery.Budget
import BitAgent.Cataloguerecovery.History
import BitAgent.Lib.Run

namespace BitAgent.Cataloguerecovery

open Lib Metainfo Verdicts Catalogueguard List Table

variable {pg : Platform} {store : Store}

/-! ## Runs -/

inductive Call where
  | removeBatch (hashes : List ID) (mechanism reason : String) (now : Time)
  | restore (id : Int) (now : Time)
  | other (write : Database → Database)

section
variable (pg : Platform) (store : Store)

def attempt (db : Database) : Call → Except RecoveryError Database
  | .removeBatch hashes mechanism reason now => (removeBatch pg store db hashes mechanism reason now).map Prod.snd
  | .restore id now => (restore pg store db id now).map Prod.snd
  | .other write =>
    -- the tables of the package have no other writer
    .ok { write db with
      payloadBytes := db.payloadBytes, snapshotCount := db.snapshotCount,
      snapshots := db.snapshots, recoveryEvents := db.recoveryEvents }

def step (db : Database) (c : Call) : Database :=
  match attempt pg store db c with
  | .ok db' => db'
  | .error _ => db

theorem step_of_error {pg : Platform} {store : Store} {db : Database} {c : Call} {e : RecoveryError}
    (h : attempt pg store db c = .error e) : step pg store db c = db := by
  unfold step
  rw [h]

/-- The tables of the package as the migration creates them, beside any other content. -/
def fresh (db : Database) : Database :=
  { db with payloadBytes := 0, snapshotCount := 0, snapshots := .empty, recoveryEvents := [] }

/-- The database before call `k` of a schedule. -/
def databaseAt (start : Database) (schedule : Nat → Call) : Nat → Database :=
  Run.stateAt (step pg store) (fresh start) schedule

end

/-! ## The budget -/

def taken (db : Database) : List (Nat × ID × Nat) :=
  db.snapshots.table.rows.map fun r => (r.id, r.infoHash, r.payloadBytes)

/-- The budget row agrees with the snapshots and limits, and no snapshot is left half way. -/
structure Accounts (store : Store) (db : Database) : Prop where
  payload : db.payloadBytes = ((taken db).map fun t => t.2.2).sum
  count : db.snapshotCount = (taken db).length
  payloadLimit : (db.payloadBytes : Int) ≤ max 0 store.cfg.maxPayloadBytes
  countLimit : (db.snapshotCount : Int) ≤ max 0 store.cfg.maxSnapshots
  settled : ∀ r ∈ db.snapshots.table.rows, r.state ≠ .prepared

/-- A step that adds snapshots at the end and keeps the accounts. -/
structure Grows (store : Store) (db db' : Database) : Prop where
  record : taken db <+: taken db'
  accounts : Accounts store db → Accounts store db'

theorem Grows.refl (store : Store) (db : Database) : Grows store db db := ⟨prefix_rfl, fun h => h⟩

theorem Grows.trans {db₁ db₂ db₃ : Database} (h : Grows store db₁ db₂) (h' : Grows store db₂ db₃) :
    Grows store db₁ db₃ :=
  ⟨h.record.trans h'.record, fun ha => h'.accounts (h.accounts ha)⟩

variable {db db' : Database}

theorem Grows.of_eq (htaken : taken db' = taken db) (hpayload : db'.payloadBytes = db.payloadBytes)
    (hcount : db'.snapshotCount = db.snapshotCount)
    (hsettled : ∀ r' ∈ db'.snapshots.table.rows, r' ∈ db.snapshots.table.rows ∨ r'.state = .restored) :
    Grows store db db' where
  record := by simp only [htaken, prefix_rfl]
  accounts ha :=
    { payload := by rw [htaken, hpayload]; exact ha.payload
      count := by rw [htaken, hcount]; exact ha.count
      payloadLimit := by rw [hpayload]; exact ha.payloadLimit
      countLimit := by rw [hcount]; exact ha.countLimit
      settled := by
        intro r' hr'
        rcases hsettled r' hr' with hold | hrestored
        · exact ha.settled r' hold
        · rw [hrestored]
          exact SnapshotState.noConfusion }

variable {hash : ID} {tx : Tx} {payload : Payload}

theorem capture_fits (h : capture pg store tx hash = .ok payload) :
    (tx.used : Int) + pg.encodedBytes payload ≤ store.cfg.maxPayloadBytes ∧
      (tx.count : Int) + 1 ≤ store.cfg.maxSnapshots := by
  unfold capture at h
  obtain ⟨out, -, h⟩ := accepted_bind_iff.mp h
  simp only [reject_bind_eq_ok, Bool.or_eq_false_iff, decide_eq_false_iff_not, gt_iff_lt, ge_iff_le,
    not_lt, not_le] at h
  obtain ⟨⟨⟨-, hpayload⟩, hcount⟩, hret⟩ := h
  rw [← Except.ok.inj hret]
  constructor
  · omega
  · omega

variable {now : Time} {tx' : Tx} {mechanism reason : String} {snap : Snapshot}

theorem commitRemoval_budget (h : (snap, tx') = commitRemoval pg store tx hash mechanism reason now payload) :
    tx'.db.payloadBytes = tx.db.payloadBytes + pg.encodedBytes payload ∧
      tx'.db.snapshotCount = tx.db.snapshotCount + 1 ∧
      tx'.used = tx.used + pg.encodedBytes payload ∧ tx'.count = tx.count + 1 := by
  cases h
  exact ⟨rfl, rfl, rfl, rfl⟩

theorem grows_removeTx (hstep : tx.Synced) (h : removeTx pg store tx hash mechanism reason now = .ok (snap, tx')) :
    tx'.Synced ∧ Grows store tx.db tx'.db := by
  rcases removeTx_cases h with ⟨-, -, rfl⟩ | ⟨payload, -, -, -, hcapture, hcommit⟩
  · exact ⟨hstep, .refl _ _⟩
  obtain ⟨hpayload, hcount⟩ := capture_fits hcapture
  obtain ⟨-, -, hrows, -⟩ := commitRemoval_writes hcommit
  obtain ⟨hpaid, hnumber, hused', hcount'⟩ := commitRemoval_budget hcommit
  obtain ⟨hused, hcounted⟩ := hstep
  refine ⟨⟨by rw [hused', hpaid, hused], by rw [hcount', hnumber, hcounted]⟩, ?_⟩
  have htaken : taken tx'.db = taken tx.db ++ [(tx.db.snapshots.next, hash, pg.encodedBytes payload)] := by
    unfold taken
    rw [hrows, map_append]
    rfl
  refine ⟨by rw [htaken]; exact prefix_append _ _, fun ha => ⟨?_, ?_, ?_, ?_, ?_⟩⟩
  · rw [htaken, map_append, sum_append, hpaid, ha.payload]
    rfl
  · rw [htaken, length_append, hnumber, ha.count]
    rfl
  · rw [hpaid]
    push_cast
    omega
  · rw [hnumber]
    push_cast
    omega
  · intro r hr
    rw [hrows, mem_append, mem_singleton] at hr
    rcases hr with hold | rfl
    · exact ha.settled r hold
    · exact SnapshotState.noConfusion

theorem grows_removeAll {hashes : List ID} {snaps : List Snapshot} (hstep : tx.Synced)
    (h : removeAll pg store mechanism reason now tx hashes = .ok (snaps, tx')) :
    Grows store tx.db tx'.db := by
  induction hashes generalizing tx snaps with
  | nil =>
    cases h
    exact .refl _ _
  | cons hash hashes ih =>
    obtain ⟨snap, rest, mid, -, hone, hmany⟩ := removeAll_cons h
    obtain ⟨hmid, hgrows⟩ := grows_removeTx hstep hone
    exact hgrows.trans (ih hmid hmany)

theorem taken_commitRestore (db : Database) (row : SnapshotRow) (now : Time) (c : Catalogue) :
    taken (commitRestore db row now c) = taken db := by
  unfold taken
  rw [commitRestore_rows, map_map]
  refine map_congr_left fun r _ => ?_
  simp only [Function.comp_apply]
  split_ifs
  · rfl
  · rfl

/-- **What one step does to the budget.** -/
theorem grows_step (db : Database) (c : Call) : Grows store db (step pg store db c) := by
  unfold step
  cases hcall : attempt pg store db c with
  | error e => exact .refl _ _
  | ok db' =>
    cases c with
    | removeBatch hashes mechanism reason now =>
      obtain ⟨⟨snaps, after⟩, hbatch, rfl⟩ := map_eq_ok_iff.mp hcall
      obtain ⟨-, -, tx, hall, -, rfl⟩ := removeBatch_ok_iff.mp hbatch
      exact grows_removeAll ⟨rfl, rfl⟩ hall
    | restore id now =>
      obtain ⟨⟨restored, after⟩, hrestore, rfl⟩ := map_eq_ok_iff.mp hcall
      rcases restore_cases hrestore with ⟨-, rfl⟩ | ⟨row, c, -, -, -, -, rfl⟩
      · exact .refl _ _
      · refine .of_eq (taken_commitRestore db row now c) rfl rfl ?_
        intro r' hr'
        rw [commitRestore_rows] at hr'
        obtain ⟨r, hr, rfl⟩ := mem_map.mp hr'
        split_ifs
        · exact .inr rfl
        · exact .inl hr
    | other write =>
      rw [← Except.ok.inj hcall]
      exact .of_eq rfl rfl rfl fun _ hr => .inl hr

/-! ## What a restoration puts back -/

/-- A row that `Filter` takes as private. -/
def Row.secret : Row → Bool
  | .torrent _ _ isPrivate .. => isPrivate
  | .torrentTag _ name _ => privacyTag name
  | _ => false

def PublicSnapshot (s : SnapshotRow) : Prop :=
  ∀ t records, s.snapshot.tables.lookup t = some records → ∀ r ∈ records,
    r.infoHash? = none ∨ (r.infoHash? = some s.infoHash ∧ r.secret = false)

theorem public_of_protected (h : protected_ pg store db hash true = .ok ()) {r : Row} (hr : r ∈ db.catalogue.rows)
    (hhash : r.infoHash? = some hash) : r.secret = false := by
  unfold protected_ at h
  simp only [if_true, reject_bind_eq_ok, reject_eq_ok, Bool.or_eq_false_iff,
    decide_eq_false_iff_not, gt_iff_lt, not_lt] at h
  obtain ⟨-, hheld, ⟨hfew, -⟩, htags⟩ := h
  cases r with
  | torrent h name isPrivate status count rest =>
    cases hhash
    grind [held, heldRow, Row.secret]
  | torrentTag h name rest =>
    obtain rfl := Option.some.inj hhash
    -- all tags are among the names that were checked: more of them would be over the limit
    have hname : name ∈ tagNames store db h := by grind [Row.tagOf, tagNames, take_of_length_le]
    have hprotected := (any_eq_false.mp htags) name hname
    cases hprivacy : privacyTag name with
    | false => exact hprivacy
    | true => grind [protectedTag_of_privacyTag]
  | _ => rfl

theorem publicSnapshot_of_capture (hprot : protected_ pg store tx.db hash true = .ok ())
    (hcapture : capture pg store tx hash = .ok payload) (reason : String) (now : Time) :
    PublicSnapshot (committedRow pg store tx hash reason now payload) := by
  intro t records hlookup r hr
  change payload.tables.lookup t = some records at hlookup
  rw [(capture_ok hcapture).1, lookup_tables] at hlookup
  rw [← Option.some.inj hlookup] at hr
  obtain ⟨hmem, htable, hown⟩ := mem_captured.mp hr
  split_ifs at hown with ht
  · exact .inl (infoHash?_eq_none_iff.mpr (htable.trans ht))
  · exact .inr ⟨hown, public_of_protected hprot hmem hown⟩

variable {c : Catalogue} {x : Row} {records : List Row}

theorem mem_insertShared (h : x ∈ (insertShared c records).rows) : x ∈ c.rows ∨ x ∈ records := by
  induction records generalizing c with
  | nil => exact .inl h
  | cons r records ih =>
    rcases ih h with hold | hrest
    · grind [mem_insertNew]
    · exact .inr (mem_cons_of_mem _ hrest)

variable {c' : Catalogue}

theorem mem_insertOwned (hok : insertOwned c records = .ok c') (h : x ∈ c'.rows) : x ∈ c.rows ∨ x ∈ records := by
  induction records generalizing c with
  | nil =>
    rw [← Except.ok.inj hok] at h
    exact .inl h
  | cons r records ih => grind [insertOwned, reject_bind_eq_ok, mem_insertNew]

theorem mem_restoreTable {t : TableName} (hok : restoreTable c t records = .ok c') (h : x ∈ c'.rows) :
    x ∈ c.rows ∨ x ∈ records := by
  unfold restoreTable at hok
  split_ifs at hok
  · rw [← Except.ok.inj hok] at h
    exact .inl h
  · rw [reject_bind_eq_ok] at hok
    obtain ⟨c1, hinsert, hret⟩ := accepted_bind_iff.mp hok.2
    rw [reject_bind_eq_ok] at hret
    rw [← Except.ok.inj hret.2] at h
    unfold insertRecords at hinsert
    split_ifs at hinsert
    · grind [mem_insertShared]
    · exact mem_insertOwned hinsert h

theorem mem_restoreTables {ts : List TableName} (hok : restoreTables payload c ts = .ok c') (h : x ∈ c'.rows) :
    x ∈ c.rows ∨ ∃ t records, payload.tables.lookup t = some records ∧ x ∈ records := by
  induction ts generalizing c with
  | nil =>
    rw [← Except.ok.inj hok] at h
    exact .inl h
  | cons t ts ih =>
    unfold restoreTables at hok
    cases hlookup : payload.tables.lookup t with
    | none => simp [hlookup] at hok
    | some records => grind [mem_restoreTable]

/-! ## The answer of the filter -/

/-- The restoration of a snapshot is the last verdict of its hash. -/
def LastVerdict (db : Database) (s : SnapshotRow) : Prop :=
  ∃ v e evID, db.ledger.state.get? s.infoHash = some v ∧ s.restoredVerdictEventID = some evID ∧
    db.ledger.events.get? evID = some e ∧ e.event.infoHash = s.infoHash ∧
    db.ledger.lastEvent s.infoHash = some e.id ∧ v.verdict = .restored ∧
    v.mechanism = mechanismOperator ∧ e.event.verdict = v.verdict ∧
    e.event.mechanism = v.mechanism ∧
    e.event.evidence = some (.receipt s.id s.contractVersion .restored)

/-- No table records that the hash is private, and no quarantine is active. -/
structure Public (pg : Platform) (db : Database) (hash : ID) : Prop where
  quarantine : quarantined db hash = false
  evidence : privateEvidence pg db hash = false
  labels : (db.canonicalLabels.any fun l => decide (l.infoHash = hash) && privateCategory pg l.category) = false
  rows : ∀ r ∈ db.catalogue.rows, r.infoHash? = some hash → r.secret = false

theorem validRestoration_iff {s : SnapshotRow} :
    validRestoration pg db s = true ↔ LastVerdict db s ∧ Public pg db s.infoHash := by
  have hrows : (!(db.catalogue.rows.any fun
      | .torrent h _ isPrivate .. => decide (h = s.infoHash) && isPrivate
      | .torrentTag h name _ => decide (h = s.infoHash) && privacyTag name
      | _ => false)) = true ↔
      ∀ r ∈ db.catalogue.rows, r.infoHash? = some s.infoHash → r.secret = false := by
    grind [Row.infoHash?, Row.secret]
  unfold validRestoration
  rw [Bool.and_eq_true, Bool.and_eq_true, Bool.and_eq_true, Bool.and_eq_true]
  constructor
  · rintro ⟨⟨⟨⟨hlast, hquarantine⟩, hevidence⟩, hlabels⟩, hsecret⟩
    refine ⟨?_, by simpa using hquarantine, by simpa using hevidence, ?_, hrows.mp hsecret⟩
    · cases hstate : db.ledger.state.get? s.infoHash with
      | none => simp [hstate] at hlast
      | some v =>
        cases hevent : s.restoredVerdictEventID.bind db.ledger.events.get? with
        | none => simp [hstate, hevent] at hlast
        | some e =>
          simp only [hstate, hevent, Bool.and_eq_true, decide_eq_true_eq] at hlast
          obtain ⟨⟨⟨⟨⟨⟨hown, hid⟩, hverdict⟩, hmech⟩, hsame⟩, hsame'⟩, hreceipt⟩ := hlast
          obtain ⟨evID, hbound, hget⟩ := Option.bind_eq_some_iff.mp hevent
          exact ⟨v, e, evID, hstate, hbound, hget, hown, hid, hverdict, hmech, hsame, hsame', hreceipt⟩
    · rw [← Bool.not_eq_true']
      exact hlabels
  · rintro ⟨⟨v, e, evID, hstate, hbound, hget, hown, hid, hverdict, hmech, hsame, hsame', hreceipt⟩, hpublic⟩
    have hevent : s.restoredVerdictEventID.bind db.ledger.events.get? = some e :=
      Option.bind_eq_some_iff.mpr ⟨evID, hbound, hget⟩
    refine ⟨⟨⟨⟨?_, by simp [hpublic.quarantine]⟩, by simp [hpublic.evidence]⟩, ?_⟩, hrows.mpr hpublic.rows⟩
    · grind
    · rw [Bool.not_eq_true']
      exact hpublic.labels

theorem keeps_of_latest {s : SnapshotRow} {bloomKept : List ID} (hs : db.latestSnapshot hash = some s)
    (hsettled : s.state ≠ .prepared) :
    keeps pg db bloomKept hash = (decide (s.state = .restored) && validRestoration pg db s) := by
  grind [keeps]

/-- The latest snapshot is a removal and the rows are gone, or a valid restoration. -/
def Answered (pg : Platform) (db : Database) (hash : ID) : Prop :=
  ∀ s, db.latestSnapshot hash = some s → (s.state = .removed ∧ ∀ r ∈ db.catalogue.rows, r.infoHash? ≠ some hash) ∨
      (s.state = .restored ∧ validRestoration pg db s = true)

structure Unrelated (hash : ID) (db db' : Database) : Prop where
  rows : ∀ r ∈ db'.catalogue.rows, r.infoHash? = some hash → r ∈ db.catalogue.rows
  latest : db'.latestSnapshot hash = db.latestSnapshot hash
  verdict : db'.ledger.state.get? hash = db.ledger.state.get? hash
  event : ∀ {id e}, db.ledger.events.get? id = some e → db'.ledger.events.get? id = some e
  lastEvent : db'.ledger.lastEvent hash = db.ledger.lastEvent hash
  quarantine : db'.quarantine = db.quarantine
  canonicalLabels : db'.canonicalLabels = db.canonicalLabels
  labelEvidence : db'.labelEvidence = db.labelEvidence

theorem Answered.unrelated (h : Answered pg db hash) (hu : Unrelated hash db db') : Answered pg db' hash := by
  intro s hs
  rw [hu.latest] at hs
  obtain ⟨rfl, -, -⟩ := latestSnapshot_some hs
  rcases h s hs with ⟨hstate, hgone⟩ | ⟨hstate, hvalid⟩
  · refine .inl ⟨hstate, fun r hr hhash => ?_⟩
    exact hgone r (hu.rows r hr hhash) hhash
  · obtain ⟨⟨v, e, evID, hv, hbound, hget, hown, hid, hrest⟩, hpublic⟩ := validRestoration_iff.mp hvalid
    refine .inr ⟨hstate, validRestoration_iff.mpr ⟨?_, ?_⟩⟩
    · exact ⟨v, e, evID, hu.verdict.trans hv, hbound, hu.event hget, hown, hu.lastEvent.trans hid, hrest⟩
    · refine ⟨?_, ?_, ?_, fun r hr hhash => hpublic.rows r (hu.rows r hr hhash) hhash⟩
      · unfold quarantined
        rw [hu.quarantine]
        exact hpublic.quarantine
      · unfold privateEvidence
        rw [hu.labelEvidence]
        exact hpublic.evidence
      · rw [hu.canonicalLabels]
        exact hpublic.labels

theorem Elsewhere.unrelated (h : Elsewhere hash db db') :
    Unrelated hash db db' where
  rows r hr hhash := (h.rows r (.inl hhash)).mp hr
  latest := h.latestSnapshot
  verdict := h.verdict
  event := h.event
  lastEvent := h.lastEvent
  quarantine := h.quarantine
  canonicalLabels := h.canonicalLabels
  labelEvidence := h.labelEvidence

structure Faithful (pg : Platform) (db : Database) : Prop where
  ordered : Ordered db
  stored : ∀ s ∈ db.snapshots.table.rows, PublicSnapshot s
  answered : ∀ hash, Answered pg db hash

theorem faithful_removeTx (hf : Faithful pg tx.db)
    (h : removeTx pg store tx hash mechanism reason now = .ok (snap, tx')) :
    Faithful pg tx'.db := by
  have hordered := hf.ordered.removeTx h
  rcases removeTx_cases h with ⟨-, -, rfl⟩ | ⟨payload, -, hprot, -, hcapture, hcommit⟩
  · exact hf
  obtain ⟨-, hcatalogue, hrows, -⟩ := commitRemoval_writes hcommit
  refine ⟨hordered, ?_, ?_⟩
  · intro s hs
    rw [hrows, mem_append, mem_singleton] at hs
    rcases hs with hold | rfl
    · exact hf.stored s hold
    · grind [publicSnapshot_of_capture]
  · intro other
    by_cases heq : hash = other
    · subst heq
      intro s hs
      obtain ⟨last, hlast, hstate⟩ := blocked_of_commit hcommit
      grind [mem_deleteTorrent]
    · exact (hf.answered other).unrelated (commitRemoval_elsewhere hcommit heq).unrelated

theorem faithful_removeAll {hashes : List ID} {snaps : List Snapshot} (hf : Faithful pg tx.db)
    (h : removeAll pg store mechanism reason now tx hashes = .ok (snaps, tx')) :
    Faithful pg tx'.db := by
  induction hashes generalizing tx snaps with
  | nil =>
    cases h
    exact hf
  | cons hash hashes ih => grind [removeAll_cons, faithful_removeTx]

theorem checkRestore_ok {row : SnapshotRow} (h : checkRestore pg store db row now = .ok ()) :
    row.state = .removed ∧ row.contractVersion = contractVersion ∧ authority pg db row.infoHash = false ∧
      currentReceipt db row.id row.infoHash .removed = .ok () := by
  unfold checkRestore at h
  grind [reject_bind_eq_ok, checked_bind_iff, protected_]

section
variable {db : Database} {row : SnapshotRow} {now : Time} {c : Catalogue}

theorem latest_of_receipt (ho : Ordered db) (hstored : db.snapshots.get? row.id = some row)
    (h : currentReceipt db row.id row.infoHash .removed = .ok ()) :
    db.latestSnapshot row.infoHash = some row := by
  obtain ⟨s, v, e, hs, -, hevent, hmatch⟩ := currentReceipt_ok_iff.mp h
  obtain rfl := Option.some.inj (hstored.symm.trans hs)
  obtain ⟨evID, hbound, hget⟩ := Option.bind_eq_some_iff.mp hevent
  simp only [receiptMatches, Bool.and_eq_true, decide_eq_true_eq] at hmatch
  refine ho.latestSnapshot hstored hbound ?_
  rw [hmatch.1.1.1.1.1.1.1.2, Serial.get?_key hget]

theorem commitRestore_valid (hversion : row.contractVersion = contractVersion)
    (hfree : authority pg db row.infoHash = false) (hstored : PublicSnapshot row)
    (hgone : ∀ r ∈ db.catalogue.rows, r.infoHash? ≠ some row.infoHash)
    (htables : restoreTables row.snapshot db.catalogue tables = .ok c) :
    validRestoration pg (commitRestore db row now c) (restoredRow now db.ledger.events.next row) = true := by
  unfold authority at hfree
  rw [Bool.or_eq_false_iff, Bool.or_eq_false_iff] at hfree
  obtain ⟨⟨hquarantine, hlabels⟩, hevidence⟩ := hfree
  refine validRestoration_iff.mpr ⟨?_, hquarantine, hevidence, ?_, ?_⟩
  · refine ⟨⟨row.infoHash, .restored, mechanismOperator, none⟩,
      ⟨db.ledger.events.next, restoration row⟩, db.ledger.events.next, ?_, rfl, ?_, rfl, ?_, rfl, rfl,
      rfl, rfl, ?_⟩
    · rw [commitRestore_ledger, Ledger.state_write]
      exact if_pos rfl
    · rw [commitRestore_ledger, Ledger.event_write, if_pos rfl]
    · rw [commitRestore_ledger]
      exact Ledger.lastEvent_write_self _ _
    · show some (Evidence.receipt row.id contractVersion .restored) =
        some (Evidence.receipt row.id row.contractVersion .restored)
      rw [hversion]
  · rw [any_eq_false] at hlabels ⊢
    intro l hl
    have hother := hlabels l hl
    grind [restoredRow]
  · intro r hr hhash
    rcases mem_restoreTables htables hr with hold | ⟨t, records, hlookup, hrecord⟩
    · exact absurd hhash (hgone r hold)
    · rcases hstored t records hlookup r hrecord with hnone | ⟨-, hsecret⟩
      · rw [hnone] at hhash
        cases hhash
      · exact hsecret

theorem commitRestore_unrelated (hstored : db.snapshots.get? row.id = some row) (hpublic : PublicSnapshot row)
    (htables : restoreTables row.snapshot db.catalogue tables = .ok c) (hne : row.infoHash ≠ hash) :
    Unrelated hash db (commitRestore db row now c) where
  rows r hr hhash := by
    rcases mem_restoreTables htables hr with hold | ⟨t, records, hlookup, hrecord⟩
    · exact hold
    · rcases hpublic t records hlookup r hrecord with hnone | ⟨hown, -⟩
      · rw [hnone] at hhash
        cases hhash
      · grind
  latest := commitRestore_latestSnapshot_of_ne hstored hne now c
  verdict := by
    rw [commitRestore_ledger, Ledger.state_write]
    exact if_neg hne
  event hget := by
    rw [commitRestore_ledger]
    exact Ledger.event_write_of_lt _ _ hget
  lastEvent := by
    rw [commitRestore_ledger]
    exact Ledger.lastEvent_write_of_ne _ hne
  quarantine := rfl
  canonicalLabels := rfl
  labelEvidence := rfl

theorem faithful_commitRestore (hf : Faithful pg db) (hstored : db.snapshots.get? row.id = some row)
    (hcheck : checkRestore pg store db row now = .ok ())
    (htables : restoreTables row.snapshot db.catalogue tables = .ok c) :
    Faithful pg (commitRestore db row now c) := by
  obtain ⟨hstate, hversion, hfree, hreceipt⟩ := checkRestore_ok hcheck
  have hpublic := hf.stored row (get?_mem hstored)
  have hlatest := latest_of_receipt hf.ordered hstored hreceipt
  refine ⟨hf.ordered.commitRestore row now c, ?_, ?_⟩
  · intro s hs
    rw [commitRestore_rows] at hs
    obtain ⟨r, hr, rfl⟩ := mem_map.mp hs
    split_ifs
    · exact hf.stored r hr
    · exact hf.stored r hr
  · intro hash
    by_cases heq : row.infoHash = hash
    · subst heq
      intro s hs
      rw [commitRestore_latestSnapshot, hlatest, Option.map_some, if_pos (decide_eq_true rfl)] at hs
      cases hs
      refine .inr ⟨rfl, commitRestore_valid hversion hfree hpublic ?_ htables⟩
      -- before the restoration the latest snapshot was a removal
      rcases hf.answered row.infoHash row hlatest with ⟨-, hgone⟩ | ⟨hrestored, -⟩
      · exact hgone
      · rw [hstate] at hrestored
        cases hrestored
    · exact (hf.answered hash).unrelated (commitRestore_unrelated hstored hpublic htables heq)

end

/-- **One step of the store** keeps the answers. -/
theorem faithful_step (hf : Faithful pg db) {c : Call} (hown : ∀ write, c ≠ .other write) :
    Faithful pg (step pg store db c) := by
  unfold step
  cases hcall : attempt pg store db c with
  | error e => exact hf
  | ok db' =>
    cases c with
    | removeBatch hashes mechanism reason now =>
      obtain ⟨⟨snaps, after⟩, hbatch, rfl⟩ := map_eq_ok_iff.mp hcall
      obtain ⟨-, -, tx, hall, -, rfl⟩ := removeBatch_ok_iff.mp hbatch
      exact faithful_removeAll hf hall
    | restore id now =>
      obtain ⟨⟨restored, after⟩, hrestore, rfl⟩ := map_eq_ok_iff.mp hcall
      grind [restore_cases, Serial.get?_key, faithful_commitRestore]
    | other write => exact absurd rfl (hown write)

theorem faithful_fresh (db : Database) : Faithful pg (fresh db) where
  ordered :=
    { bound := by
        intro r hr
        cases hr
      increasing := by
        intro a ha
        cases ha }
  stored := by
    intro s hs
    cases hs
  answered := by
    intro hash s hs
    cases hs

/-! ## Along a run -/

section
variable (pg : Platform) (store : Store) (start : Database) (schedule : Nat → Call)

theorem accounts_databaseAt (k : Nat) : Accounts store (databaseAt pg store start schedule k) :=
  Run.stateAt_invariant (step pg store) ⟨rfl, rfl, Int.le_max_left _ _, Int.le_max_left _ _, fun _ hr => nomatch hr⟩
    (fun db c ha => (grows_step db c).accounts ha) schedule k

theorem taken_databaseAt {i j : Nat} (hij : i ≤ j) :
    taken (databaseAt pg store start schedule i) <+: taken (databaseAt pg store start schedule j) := by
  induction j, hij using Nat.le_induction with
  | base => exact prefix_rfl
  | succ j _ ih => exact ih.trans (grows_step (databaseAt pg store start schedule j) (schedule j)).record

theorem faithful_databaseAt {k : Nat} (hown : ∀ i < k, ∀ write, schedule i ≠ .other write) :
    Faithful pg (databaseAt pg store start schedule k) := by
  induction k with
  | zero => exact faithful_fresh start
  | succ k ih => exact faithful_step (ih fun i hi => hown i (Nat.lt_succ_of_lt hi)) (hown k (Nat.lt_succ_self k))

theorem mem_filter_iff {all bloomKept out : List ID} (h : filter pg store db all bloomKept = .ok out) :
    hash ∈ out ↔ hash ∈ all ∧ keeps pg db bloomKept hash = true := by
  unfold filter at h
  rw [reject_bind_eq_ok, reject_bind_eq_ok] at h
  rw [← Except.ok.inj h.2.2, mem_filter]

/-- **The budget and the filter along every run.** The budget row is the sum and number of all snapshots ever taken,
within the limits. The filter drops a hash whose latest snapshot is a removal and, while only the store writes, keeps
it if that is a restoration. -/
theorem budget_exact_and_filter_by_latest : (∀ k, (databaseAt pg store start schedule k).payloadBytes =
        ((taken (databaseAt pg store start schedule k)).map fun t => t.2.2).sum ∧
      (databaseAt pg store start schedule k).snapshotCount = (taken (databaseAt pg store start schedule k)).length) ∧
    (∀ i j, i ≤ j → taken (databaseAt pg store start schedule i) <+: taken (databaseAt pg store start schedule j) ∧
      (databaseAt pg store start schedule i).payloadBytes ≤ (databaseAt pg store start schedule j).payloadBytes ∧
      (databaseAt pg store start schedule i).snapshotCount ≤ (databaseAt pg store start schedule j).snapshotCount) ∧
    (store.cfg.enabled = true → ∀ k,
      ((databaseAt pg store start schedule k).payloadBytes : Int) ≤ store.cfg.maxPayloadBytes ∧
      ((databaseAt pg store start schedule k).snapshotCount : Int) ≤ store.cfg.maxSnapshots) ∧
    (∀ k e, attempt pg store (databaseAt pg store start schedule k) (schedule k) = .error e →
      databaseAt pg store start schedule (k + 1) = databaseAt pg store start schedule k) ∧
    ∀ k hash s, (databaseAt pg store start schedule k).latestSnapshot hash = some s →
      (∀ bloomKept bloomKept', keeps pg (databaseAt pg store start schedule k) bloomKept hash =
        keeps pg (databaseAt pg store start schedule k) bloomKept' hash) ∧
      (s.state = .removed → ∀ all bloomKept out,
        filter pg store (databaseAt pg store start schedule k) all bloomKept = .ok out → hash ∉ out) ∧
      ((∀ i < k, ∀ write, schedule i ≠ .other write) → ∀ all bloomKept out,
        filter pg store (databaseAt pg store start schedule k) all bloomKept = .ok out →
          (hash ∈ out ↔ hash ∈ all ∧ s.state = .restored)) := by
  have haccounts := accounts_databaseAt pg store start schedule
  have htaken : ∀ i j, i ≤ j → taken (databaseAt pg store start schedule i) <+:
      taken (databaseAt pg store start schedule j) := fun i j => taken_databaseAt pg store start schedule
  refine ⟨fun k => ⟨(haccounts k).payload, (haccounts k).count⟩, ?_, ?_, ?_, ?_⟩
  · intro i j hij
    refine ⟨htaken i j hij, ?_, ?_⟩
    · rw [(haccounts i).payload, (haccounts j).payload]
      obtain ⟨rest, hrest⟩ := htaken i j hij
      grind
    · rw [(haccounts i).count, (haccounts j).count]
      exact (htaken i j hij).length_le
  · intro henabled k
    have hvalid := store.valid
    unfold Config.valid at hvalid
    simp only [henabled, Bool.not_true, Bool.false_or, Bool.not_eq_true', Bool.or_eq_false_iff,
      decide_eq_false_iff_not, not_le] at hvalid
    have hpayload := (haccounts k).payloadLimit
    have hcount := (haccounts k).countLimit
    constructor
    · omega
    · omega
  · intro k e hfails
    exact step_of_error hfails
  · intro k hash s hs
    have hmem := get?_mem (latestSnapshot_some hs).2.2
    have hsettled := (haccounts k).settled s hmem
    refine ⟨?_, ?_, ?_⟩
    · grind [keeps_of_latest]
    · intro hremoved all bloomKept out hfilter hkept
      rw [mem_filter_iff pg store hfilter, keeps_of_latest hs hsettled, hremoved] at hkept
      cases hkept.2
    · intro hown all bloomKept out hfilter
      rw [mem_filter_iff pg store hfilter, keeps_of_latest hs hsettled]
      refine and_congr_right fun _ => ?_
      rcases (faithful_databaseAt pg store start schedule hown).answered hash s hs with
        ⟨hstate, -⟩ | ⟨hstate, hvalid⟩
      · simp [hstate]
      · simp [hstate, hvalid]

end

def sampleRun : Nat → Call
  | 0 => .removeBatch [sampleHash 7] mechanismBlocking "purge" 1
  | 1 => .restore 1 2
  | 2 => .removeBatch [sampleHash 7] mechanismBlocking "purge" 3
  | _ => .removeBatch [sampleHash 7] mechanismBlocking "again" 4

/-- Restored, the torrent passes although the bloom filter has it; removed again, it is dropped although it does not.
-/
theorem sample_run_budget : filter samplePlatform sampleStore (databaseAt samplePlatform sampleStore
      (sampleDatabase sampleCatalogue) sampleRun 2) [sampleHash 7] [] = .ok [sampleHash 7] ∧
    filter samplePlatform sampleStore (databaseAt samplePlatform sampleStore
      (sampleDatabase sampleCatalogue) sampleRun 3) [sampleHash 7] [sampleHash 7] = .ok [] ∧
    (databaseAt samplePlatform sampleStore (sampleDatabase sampleCatalogue) sampleRun 3).payloadBytes = 20 ∧
    ∀ k, ((databaseAt samplePlatform sampleStore (sampleDatabase sampleCatalogue) sampleRun
      k).payloadBytes : Int) ≤ 1000 := by
  refine ⟨by decide +kernel, by decide +kernel, by decide +kernel, fun k => ?_⟩
  exact ((budget_exact_and_filter_by_latest samplePlatform sampleStore
    (sampleDatabase sampleCatalogue) sampleRun).2.2.1 rfl k).1

end BitAgent.Cataloguerecovery
