/-
# Cataloguerecovery.History — the order of the snapshots of a hash

Along every run the later snapshot of a hash is bound to the later verdict event (`Ordered`), so a snapshot that
is bound to the last verdict is the last one, which `Filter` reads. A hash whose last snapshot is a removal is
*blocked*: `Filter` drops it, and only a restoration of it can end that.
-/
import BitAgent.Cataloguerecovery.Removal

namespace BitAgent.Cataloguerecovery

open Lib Metainfo Verdicts List Table

variable {pg : Platform} {store : Store}

/-! ## Ordered histories -/

/-- Every snapshot is bound to a verdict event of its hash, later ones to later events. -/
structure Ordered (db : Database) : Prop where
  bound : ∀ r ∈ db.snapshots.table.rows, ∃ evID e, r.removedVerdictEventID = some evID ∧
    db.ledger.events.get? evID = some e ∧ e.event.infoHash = r.infoHash
  increasing : ∀ a ∈ db.snapshots.table.rows, ∀ b ∈ db.snapshots.table.rows, a.infoHash = b.infoHash → a.id < b.id →
      ∀ {evA evB}, a.removedVerdictEventID = some evA → b.removedVerdictEventID = some evB → evA < evB

variable {db db' : Database}

theorem Ordered.of_ledger (ho : Ordered db) (hsnapshots : db'.snapshots = db.snapshots)
    (hevents : ∀ {id e}, db.ledger.events.get? id = some e → db'.ledger.events.get? id = some e) :
    Ordered db' where
  bound := by
    intro r hr
    rw [hsnapshots] at hr
    obtain ⟨evID, e, hbound, hget, hhash⟩ := ho.bound r hr
    exact ⟨evID, e, hbound, hevents hget, hhash⟩
  increasing := by
    intro a ha b hb
    rw [hsnapshots] at ha hb
    exact ho.increasing a ha b hb

variable {hash : ID} {mechanism reason : String} {now : Time} {tx tx' : Tx} {snap : Snapshot}

theorem Ordered.commitRemoval {payload : Payload} (ho : Ordered tx.db)
    (h : (snap, tx') = commitRemoval pg store tx hash mechanism reason now payload) :
    Ordered tx'.db := by
  obtain ⟨-, -, hsnapshots, hledger, -⟩ := commitRemoval_writes h
  have hbound : (committedRow pg store tx hash reason now payload).removedVerdictEventID =
      some tx.db.ledger.events.next := rfl
  constructor
  · intro r hr
    rw [hsnapshots, mem_append, mem_singleton] at hr
    rcases hr with hold | rfl
    · obtain ⟨evID, e, hr, hget, hhash⟩ := ho.bound r hold
      grind [Ledger.event_write_of_lt]
    · refine ⟨_, ⟨tx.db.ledger.events.next, tombstone tx hash mechanism reason⟩, hbound, ?_, rfl⟩
      rw [hledger, Ledger.event_write, if_pos rfl]
  · intro a ha b hb hhash hlt evA evB hA hB
    rw [hsnapshots, mem_append, mem_singleton] at ha hb
    rcases hb with hb | rfl
    · rcases ha with ha | rfl
      · exact ho.increasing a ha b hb hhash hlt hA hB
      · -- the new snapshot has the greatest id
        exact absurd (tx.db.snapshots.below b hb) (Nat.not_lt.mpr (Nat.le_of_lt hlt))
    · obtain rfl := Option.some.inj (hbound.symm.trans hB)
      rcases ha with ha | rfl
      · obtain ⟨evID, e, hr, hget, -⟩ := ho.bound a ha
        obtain rfl := Option.some.inj (hr.symm.trans hA)
        rw [← Serial.get?_key hget]
        exact tx.db.ledger.events.below e (get?_mem hget)
      · exact absurd hlt (Nat.lt_irrefl _)

theorem Ordered.removeTx (ho : Ordered tx.db) (h : removeTx pg store tx hash mechanism reason now = .ok (snap, tx')) :
    Ordered tx'.db := by
  rcases removeTx_cases h with ⟨-, -, rfl⟩ | ⟨payload, -, -, -, -, hcommit⟩
  · exact ho
  · exact ho.commitRemoval hcommit

theorem commitRestore_rows (db : Database) (row : SnapshotRow) (now : Time) (c : Catalogue) :
    (commitRestore db row now c).snapshots.table.rows = db.snapshots.table.rows.map fun r =>
        if decide (r.id = row.id) then restoredRow now db.ledger.events.next r else r := rfl

def restoration (row : SnapshotRow) : Event where
  infoHash := row.infoHash
  verdict := .restored
  mechanism := mechanismOperator
  reason := row.reason
  evidence := some (.receipt row.id contractVersion .restored)

theorem commitRestore_ledger (db : Database) (row : SnapshotRow) (now : Time) (c : Catalogue) :
    (commitRestore db row now c).ledger = db.ledger.write (restoration row) := rfl

theorem Ordered.commitRestore {db : Database} (ho : Ordered db) (row : SnapshotRow) (now : Time)
    (c : Catalogue) : Ordered (commitRestore db row now c) := by
  have hsame : ∀ r : SnapshotRow, ∀ r', r' =
      (if decide (r.id = row.id) then restoredRow now db.ledger.events.next r else r) →
      r'.id = r.id ∧ r'.infoHash = r.infoHash ∧ r'.removedVerdictEventID = r.removedVerdictEventID := by
    rintro r r' rfl
    split_ifs <;> exact ⟨rfl, rfl, rfl⟩
  constructor
  · intro r' hr'
    rw [commitRestore_rows] at hr'
    obtain ⟨r, hr, heq⟩ := mem_map.mp hr'
    obtain ⟨-, hhash, hevent⟩ := hsame r r' heq.symm
    obtain ⟨evID, e, hbound, hget, hown⟩ := ho.bound r hr
    grind [commitRestore_ledger, Ledger.event_write_of_lt]
  · intro a' ha' b' hb' hhash hlt evA evB hA hB
    rw [commitRestore_rows] at ha' hb'
    obtain ⟨a, ha, heqA⟩ := mem_map.mp ha'
    obtain ⟨b, hb, heqB⟩ := mem_map.mp hb'
    obtain ⟨hidA, hhashA, heventA⟩ := hsame a a' heqA.symm
    obtain ⟨hidB, hhashB, heventB⟩ := hsame b b' heqB.symm
    rw [hhashA, hhashB] at hhash
    rw [hidA, hidB] at hlt
    exact ho.increasing a ha b hb hhash hlt (heventA.symm.trans hA) (heventB.symm.trans hB)

/-! ## Blocked hashes -/

theorem latestSnapshot_some {s : SnapshotRow} (h : db.latestSnapshot hash = some s) :
    s.infoHash = hash ∧ db.snapshots.maxKey (fun r => decide (r.infoHash = hash)) = some s.id ∧
      db.snapshots.get? s.id = some s := by grind [Database.latestSnapshot, Serial.maxKey_bind_get?]

/-- The last snapshot of the hash is a removal. -/
def Blocked (db : Database) (hash : ID) : Prop := ∃ s, db.latestSnapshot hash = some s ∧ s.state = .removed

theorem Blocked.keeps {db : Database} {hash : ID} (hb : Blocked db hash) (bloomKept : List ID) :
    keeps pg db bloomKept hash = false := by
  obtain ⟨s, hlatest, hstate⟩ := hb
  grind [Cataloguerecovery.keeps]

theorem Elsewhere.latestSnapshot (h : Elsewhere hash db db') :
    db'.latestSnapshot hash = db.latestSnapshot hash := by
  unfold Database.latestSnapshot
  rw [h.newest _ fun r hr => of_decide_eq_true hr]
  cases hmax : db.snapshots.maxKey fun r => decide (r.infoHash = hash) with
  | none => rfl
  | some m =>
    obtain ⟨r, hr, hkey⟩ := mem_map.mp (List.max?_mem hmax)
    obtain ⟨hmem, hhash⟩ := mem_filter.mp hr
    have hget : db.snapshots.get? m = some r := hkey ▸ get?_of_mem hmem
    rw [Option.bind_some, Option.bind_some, hget, h.snapshot hget (of_decide_eq_true hhash)]

theorem Blocked.elsewhere (hb : Blocked db hash) (h : Elsewhere hash db db') : Blocked db' hash := by
  obtain ⟨s, hlatest, hstate⟩ := hb
  exact ⟨s, h.latestSnapshot.trans hlatest, hstate⟩

theorem blocked_of_commit {payload : Payload}
    (h : (snap, tx') = commitRemoval pg store tx hash mechanism reason now payload) :
    Blocked tx'.db hash := by
  obtain ⟨-, -, hsnapshots, -⟩ := commitRemoval_writes h
  have hkey : (committedRow pg store tx hash reason now payload).id = tx.db.snapshots.next := rfl
  have hhash : (committedRow pg store tx hash reason now payload).infoHash = hash := rfl
  refine ⟨committedRow pg store tx hash reason now payload, ?_, rfl⟩
  grind [Database.latestSnapshot, Serial.maxKey_append, Serial.get?_append]

theorem Ordered.latestSnapshot {row : SnapshotRow} (ho : Ordered db) (hstored : db.snapshots.get? row.id = some row)
    {evID : Nat} (hbound : row.removedVerdictEventID = some evID)
    (hlast : db.ledger.lastEvent row.infoHash = some evID) :
    db.latestSnapshot row.infoHash = some row := by
  have hmem : row ∈ db.snapshots.table.rows := get?_mem hstored
  obtain ⟨m, hmax, hle⟩ := Serial.le_maxKey (fun r : SnapshotRow => decide (r.infoHash = row.infoHash)) hmem
    (decide_eq_true rfl)
  obtain ⟨newest, hin, hkey⟩ := mem_map.mp (List.max?_mem hmax)
  obtain ⟨hnewest, hhash⟩ := mem_filter.mp hin
  have hhash : newest.infoHash = row.infoHash := of_decide_eq_true hhash
  have hsame : m = row.id := by
    rcases Nat.lt_or_ge row.id m with hlt | hge
    · obtain ⟨evNew, e, hboundNew, hget, hevent⟩ := ho.bound newest hnewest
      have hlater := ho.increasing row hmem newest hnewest hhash.symm (hkey ▸ hlt) hbound hboundNew
      obtain ⟨last, hmaxEvent, hle⟩ := Serial.le_maxKey
        (fun e : EventRow => decide (e.event.infoHash = row.infoHash)) (get?_mem hget)
        (decide_eq_true (hevent.trans hhash))
      have heq : last = evID := Option.some.inj (hmaxEvent.symm.trans hlast)
      have hid : e.id = evNew := Serial.get?_key hget
      omega
    · exact Nat.le_antisymm hge hle
  grind [Database.latestSnapshot]

theorem Standing.blocked {row : SnapshotRow} (ho : Ordered db) (hs : Standing db row) : Blocked db row.infoHash := by
  have hfound : (db.snapshots.maxKey (retryable db row.infoHash row.reason)).bind db.snapshots.get? = some row := by
    rw [hs.newest, Option.bind_some, hs.stored]
  have hretryable := (Serial.maxKey_bind_get? hfound).1
  simp only [retryable, Bool.and_eq_true, decide_eq_true_eq] at hretryable
  obtain ⟨⟨⟨⟨-, hstate⟩, -⟩, hsome⟩, hlast⟩ := hretryable
  obtain ⟨evID, hbound⟩ := Option.isSome_iff_exists.mp hsome
  exact ⟨row, ho.latestSnapshot hs.stored hbound (hlast.symm.trans hbound), hstate⟩

theorem removeTx_blocked (ho : Ordered tx.db) (h : removeTx pg store tx hash mechanism reason now = .ok (snap, tx')) :
    Blocked tx'.db hash := by
  rcases removeTx_cases h with ⟨habsent, hretry, rfl⟩ | ⟨payload, -, -, -, -, hcommit⟩
  · obtain ⟨row, hstanding, rfl, -⟩ := standing_of_retry habsent hretry
    exact hstanding.blocked ho
  · exact blocked_of_commit hcommit

/-! ## Batches and restorations -/

section
variable {mechanism reason : String} {now : Time}

theorem removeAll_history {hashes : List ID} {snaps : List Snapshot} (ho : Ordered tx.db)
    (h : removeAll pg store mechanism reason now tx hashes = .ok (snaps, tx')) :
    Ordered tx'.db ∧ ∀ hash, hash ∈ hashes ∨ Blocked tx.db hash → Blocked tx'.db hash := by
  induction hashes generalizing tx snaps with
  | nil =>
    cases h
    grind
  | cons first hashes ih =>
    obtain ⟨snap, rest, mid, -, hone, hmany⟩ := removeAll_cons h
    obtain ⟨hordered, hblocked⟩ := ih (ho.removeTx hone) hmany
    refine ⟨hordered, fun hash hhash => hblocked hash ?_⟩
    by_cases heq : first = hash
    · grind [removeTx_blocked]
    · rcases hhash with hmem | hold
      · grind
      · exact .inr (hold.elsewhere (removeTx_elsewhere hone heq))

theorem removeBatch_history {hashes : List ID} {snaps : List Snapshot} (ho : Ordered db)
    (h : removeBatch pg store db hashes mechanism reason now = .ok (snaps, db')) :
    Ordered db' ∧ ∀ hash, hash ∈ hashes ∨ Blocked db hash → Blocked db' hash := by
  obtain ⟨-, -, tx, hall, -, rfl⟩ := removeBatch_ok_iff.mp h
  obtain ⟨hordered, hblocked⟩ := removeAll_history ho hall
  grind [ordered_perm]

theorem restore_cases {id : Int} {restored : Bool} (h : restore pg store db id now = .ok (restored, db')) :
    (restored = false ∧ db' = db) ∨ ∃ row c, restored = true ∧ db.snapshots.get? id.toNat = some row ∧
        checkRestore pg store db row now = .ok () ∧
        restoreTables row.snapshot db.catalogue tables = .ok c ∧
        db' = commitRestore db row now c := by
  unfold restore at h
  simp only [reject_bind_eq_ok] at h
  obtain ⟨-, -, -, h⟩ := h
  cases hget : db.snapshots.get? id.toNat with
  | none => simp [hget] at h
  | some row =>
    simp only [hget] at h
    split_ifs at h with hstate
    · cases h
      exact .inl ⟨rfl, rfl⟩
    · obtain ⟨after, htx, h⟩ := accepted_bind_iff.mp h
      obtain ⟨-, hret⟩ := checked_bind_iff.mp h
      cases hret
      unfold restoreTx at htx
      obtain ⟨hcheck, htx⟩ := checked_bind_iff.mp htx
      obtain ⟨c, htables, hret⟩ := accepted_bind_iff.mp htx
      exact .inr ⟨row, c, rfl, rfl, hcheck, htables, (Except.ok.inj hret).symm⟩

theorem commitRestore_latestSnapshot (db : Database) (row : SnapshotRow) (now : Time) (c : Catalogue)
    (hash : ID) : (commitRestore db row now c).latestSnapshot hash = (db.latestSnapshot hash).map fun r =>
        if decide (r.id = row.id) then restoredRow now db.ledger.events.next r else r := by
  unfold Database.latestSnapshot
  show ((db.snapshots.update (fun r => decide (r.id = row.id)) _ (restoredRow_id now _)).maxKey
    _).bind (db.snapshots.update _ _ (restoredRow_id now _)).get? = _
  rw [Serial.maxKey_update]
  · cases db.snapshots.maxKey fun r => decide (r.infoHash = hash) with
    | none => rfl
    | some m => rw [Option.bind_some, Option.bind_some, Serial.get?_update]
  · intro r _ _
    rfl

theorem commitRestore_latestSnapshot_of_ne {row : SnapshotRow} (hstored : db.snapshots.get? row.id = some row)
    (hne : row.infoHash ≠ hash) (now : Time) (c : Catalogue) :
    (commitRestore db row now c).latestSnapshot hash = db.latestSnapshot hash := by
  rw [commitRestore_latestSnapshot]
  cases hlatest : db.latestSnapshot hash with
  | none => rfl
  | some s =>
    obtain ⟨hhash, -, hget⟩ := latestSnapshot_some hlatest
    grind

theorem Blocked.commitRestore {db : Database} {hash : ID} (hb : Blocked db hash)
    {row : SnapshotRow} (hstored : db.snapshots.get? row.id = some row)
    (hne : row.infoHash ≠ hash) (now : Time) (c : Catalogue) :
    Blocked (commitRestore db row now c) hash := by
  obtain ⟨s, hlatest, hstate⟩ := hb
  exact ⟨s, (commitRestore_latestSnapshot_of_ne hstored hne now c).trans hlatest, hstate⟩

end

/-! ## Judged hashes, and changes that readmit nothing -/

/-- The current verdict of the hash is one that the readers exclude. -/
def Judged (db : Database) (hash : ID) : Prop := ∃ v, db.ledger.state.get? hash = some v ∧ v.verdict ∈ blockingVerdicts

variable {hashes : List ID}

theorem Judged.mem_blockedSet (hj : Judged db hash) (hmem : hash ∈ hashes) : hash ∈ db.ledger.blockedSet hashes := by
  obtain ⟨v, hstate, hblocking⟩ := hj
  refine mem_filter.mpr ⟨hmem, ?_⟩
  grind

theorem judged_write {ev : Event} (hledger : db'.ledger = db.ledger.write ev) :
    Judged db' hash ↔
      if ev.infoHash = hash then ev.verdict ∈ blockingVerdicts else Judged db hash := by
  unfold Judged
  rw [hledger, Ledger.state_write]
  split_ifs <;> simp

variable {other : ID}

theorem removeTx_judged (hj : Judged tx.db other)
    (h : removeTx pg store tx hash mechanism reason now = .ok (snap, tx')) :
    Judged tx'.db other := by
  rcases removeTx_cases h with ⟨-, -, rfl⟩ | ⟨payload, -, -, -, -, hcommit⟩
  · exact hj
  · obtain ⟨-, -, -, hledger, -⟩ := commitRemoval_writes hcommit
    rw [judged_write hledger]
    split_ifs
    · exact mem_cons_of_mem _ (mem_cons_of_mem _ mem_cons_self)
    · exact hj

theorem removeAll_judged {snaps : List Snapshot} (hj : Judged tx.db other)
    (h : removeAll pg store mechanism reason now tx hashes = .ok (snaps, tx')) :
    Judged tx'.db other := by
  induction hashes generalizing tx snaps with
  | nil =>
    cases h
    exact hj
  | cons first hashes ih => grind [removeAll_cons, removeTx_judged]

theorem removeBatch_judged {snaps : List Snapshot} (hj : Judged db other)
    (h : removeBatch pg store db hashes mechanism reason now = .ok (snaps, db')) :
    Judged db' other := by
  obtain ⟨-, -, tx, hall, -, rfl⟩ := removeBatch_ok_iff.mp h
  exact removeAll_judged hj hall

/-- A change that readmits no hash: other tables, a verdict that excludes, or a removal. -/
inductive Restricts (pg : Platform) (db db' : Database) : Prop where
  | elsewhere (snapshots : db'.snapshots = db.snapshots) (ledger : db'.ledger = db.ledger)
  | verdict (ev : Event) (blocking : ev.verdict ∈ blockingVerdicts)
      (snapshots : db'.snapshots = db.snapshots) (ledger : db'.ledger = db.ledger.write ev)
  | removal (store : Store) (hashes : List ID) (mechanism reason : String) (now : Time)
      (snaps : List Snapshot)
      (committed : removeBatch pg store db hashes mechanism reason now = .ok (snaps, db'))

theorem blocked_congr (h : db'.snapshots = db.snapshots) :
    Blocked db' hash ↔ Blocked db hash := by
  unfold Blocked Database.latestSnapshot
  rw [h]

theorem Ordered.verdict (ho : Ordered db) {ev : Event} (hsnapshots : db'.snapshots = db.snapshots)
    (hledger : db'.ledger = db.ledger.write ev) :
    Ordered db' := by
  refine ho.of_ledger hsnapshots fun hget => ?_
  rw [hledger]
  exact Ledger.event_write_of_lt _ _ hget

theorem Restricts.keeps (h : Restricts pg db db') (ho : Ordered db) :
    Ordered db' ∧ (∀ hash, Blocked db hash → Blocked db' hash) ∧ ∀ hash, Judged db hash → Judged db' hash := by
  cases h with
  | elsewhere hsnapshots hledger =>
    refine ⟨ho.of_ledger hsnapshots fun hget => ?_, fun _ => (blocked_congr hsnapshots).mpr, ?_⟩
    · rw [hledger]
      exact hget
    · grind [Judged]
  | verdict ev hblocking hsnapshots hledger =>
    refine ⟨ho.verdict hsnapshots hledger, fun _ => (blocked_congr hsnapshots).mpr, ?_⟩
    intro hash hj
    rw [judged_write hledger]
    split_ifs
    · exact hblocking
    · exact hj
  | removal store hashes mechanism reason now snaps hcommitted => grind [removeBatch_history, removeBatch_judged]

theorem restricts_chain_keeps (h : Relation.ReflTransGen (Restricts pg) db db') (ho : Ordered db) :
    Ordered db' ∧ (∀ hash, Blocked db hash → Blocked db' hash) ∧ ∀ hash, Judged db hash → Judged db' hash := by
  induction h with
  | refl => exact ⟨ho, fun _ hb => hb, fun _ hj => hj⟩
  | tail _ hlast ih =>
    obtain ⟨hordered, hblocked, hjudged⟩ := ih
    obtain ⟨hordered', hblocked', hjudged'⟩ := hlast.keeps hordered
    grind

end BitAgent.Cataloguerecovery
