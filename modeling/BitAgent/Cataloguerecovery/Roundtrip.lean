/-
# Cataloguerecovery.Roundtrip — removal, repetition and restoration

A removal by the purge command or the classifier can be repeated, which changes nothing, and undone, exactly, until
it expires; only the storage limit can refuse that. A removal by the ban check has no receipt and is not undone.
-/
import BitAgent.Cataloguerecovery.Removal

namespace BitAgent.Cataloguerecovery

open Lib Metainfo Verdicts List Table

variable {pg : Platform} {store : Store}

/-! ## One table -/

section
variable {c source : Catalogue} {hash : ID} {t : TableName} {records : List Row}

theorem insertShared_of_mem (h : ∀ r ∈ records, r ∈ c.rows) : insertShared c records = c := by
  unfold insertShared
  induction records with
  | nil => rfl
  | cons r records ih => grind [Table.insertNew, mem_map_of_mem, mem_cons_self]

theorem insertOwned_ok (hkeys : (records.map Row.primaryKey).Nodup)
    (hfresh : ∀ r ∈ records, c.get? r.primaryKey = none) :
    ∃ c', insertOwned c records = .ok c' ∧ c'.rows = c.rows ++ records := by
  induction records generalizing c with
  | nil => exact ⟨c, rfl, (append_nil _).symm⟩
  | cons r records ih =>
    rw [map_cons, nodup_cons] at hkeys
    have hr := hfresh r mem_cons_self
    have hrows : (c.insertNew r).rows = c.rows ++ [r] := by grind [Table.insertNew, get?_eq_none_iff]
    have hfresh' : ∀ x ∈ records, (c.insertNew r).get? x.primaryKey = none := by grind [get?_insertNew]
    obtain ⟨c', hok, hc'⟩ := ih hkeys.2 hfresh'
    grind [insertOwned, reject_bind_eq_ok]

theorem restoreTable_ok {c' : Catalogue} (htable : ∀ r ∈ records, r.table = t)
    (hinsert : insertRecords c t records = .ok c')
    (hsame : (restoredRows c' t records).Perm records) : restoreTable c t records = .ok c' := by
  unfold restoreTable
  split_ifs with hempty
  · -- nothing is inserted for no records
    obtain rfl := isEmpty_iff.mp hempty
    unfold insertRecords at hinsert
    split_ifs at hinsert <;> exact hinsert
  · have hcolumns : (records.any fun r => decide (r.table ≠ t)) = false := by grind
    refine reject_bind_eq_ok.mpr ⟨hcolumns, accepted_bind_iff.mpr ⟨c', hinsert, ?_⟩⟩
    refine reject_bind_eq_ok.mpr ⟨?_, rfl⟩
    rw [isPerm_iff.mpr hsame]
    rfl

theorem restoreTable_sources (hthere : ∀ r ∈ source.rows, r.infoHash? = none → r ∈ c.rows) :
    restoreTable c .torrentSources (source.captured hash .torrentSources) = .ok c := by
  generalize hrecords : source.captured hash .torrentSources = records
  have htable : ∀ r ∈ records, r ∈ c.rows ∧ r.table = .torrentSources := by grind [mem_captured, infoHash?_eq_none_iff]
  -- a row with the key of a record is that record, since both are in the table
  have hsame : (restoredRows c .torrentSources records).Perm records := by
    have hnodup : records.Nodup := hrecords ▸ source.rows_nodup.filter _
    unfold restoredRows
    rw [perm_ext_iff_of_nodup (c.rows_nodup.filter _) hnodup]
    intro r
    simp only [mem_filter, Bool.and_eq_true, decide_eq_true_eq, if_true, mem_map]
    constructor
    · rintro ⟨hmem, ht, r', hr', hkey⟩
      obtain ⟨hmem', ht'⟩ := htable r' hr'
      have hprimary : r.primaryKey = r'.primaryKey := by grind [Row.primaryKey, infoHash?_eq_none_iff]
      have heq : some r = some r' := by rw [← get?_of_mem hmem, hprimary, get?_of_mem hmem']
      exact (Option.some.inj heq).symm ▸ hr'
    · grind
  grind [insertRecords, insertShared_of_mem, restoreTable_ok]

theorem restoreTable_owned (ht : t ≠ .torrentSources) (hgone : ∀ r ∈ c.rows, r.infoHash? = some hash → r.table ≠ t) :
    ∃ c', restoreTable c t (source.captured hash t) = .ok c' ∧ c'.rows = c.rows ++ source.captured hash t := by
  generalize hrecords : source.captured hash t = records
  have hrecord : ∀ r ∈ records, r ∈ source.rows ∧ r.table = t ∧ r.infoHash? = some hash := by grind [mem_captured]
  have hkeys : (records.map Row.primaryKey).Nodup := by
    rw [← hrecords]
    exact (filter_sublist.map Row.primaryKey).nodup source.nodup
  have hfresh : ∀ r ∈ records, c.get? r.primaryKey = none := by
    intro r hr
    rw [Option.eq_none_iff_forall_ne_some]
    intro r' hget
    obtain ⟨-, htable, hhash⟩ := hrecord r hr
    have hkey := get?_key hget
    have htable' : r'.table = r.table := congrArg (fun k => k.1) hkey
    have hhash' : r'.infoHash? = r.infoHash? := congrArg (fun k => k.2.1) hkey
    grind [get?_mem]
  obtain ⟨c', hok, hrows⟩ := insertOwned_ok hkeys hfresh
  have hinsert : insertRecords c t records = .ok c' := by
    unfold insertRecords
    rw [if_neg ht, hok]
  refine ⟨c', restoreTable_ok (fun r hr => (hrecord r hr).2.1) hinsert ?_, hrows⟩
  -- only the records are rows of the hash in this table
  cases records with
  | nil =>
    unfold restoredRows
    rw [filter_eq_nil_iff.mpr]
    grind [infoHash?_eq_none_iff]
  | cons first rest =>
    have hhead : (first :: rest).head?.bind Row.infoHash? = some hash := (hrecord first mem_cons_self).2.2
    unfold restoredRows
    rw [hrows, filter_append, hhead]
    simp only [if_neg ht]
    rw [filter_eq_nil_iff.mpr, filter_eq_self.mpr, nil_append]
    · grind
    · grind

end

/-! ## All tables -/

theorem restoreTables_ok {payload : Payload} {source : Catalogue} {hash : ID}
    (hrecords : ∀ t, payload.tables.lookup t = some (source.captured hash t))
    {ts : List TableName} (hnodup : ts.Nodup) {c : Catalogue}
    (hgone : ∀ r ∈ c.rows, r.infoHash? = some hash → r.table ∉ ts)
    (hthere : ∀ r ∈ source.rows, r.infoHash? = none → r ∈ c.rows) :
    ∃ c', restoreTables payload c ts = .ok c' ∧ ∀ r, r ∈ c'.rows ↔ r ∈ c.rows ∨
        (r ∈ source.rows ∧ r.infoHash? = some hash ∧ r.table ∈ ts) := by
  induction ts generalizing c with
  | nil => exact ⟨c, rfl, by simp⟩
  | cons t ts ih =>
    rw [nodup_cons] at hnodup
    -- after this table, its rows of the hash are there
    have hone : ∃ c1, restoreTable c t (source.captured hash t) = .ok c1 ∧ ∀ r, r ∈ c1.rows ↔ r ∈ c.rows ∨
          (r ∈ source.rows ∧ r.infoHash? = some hash ∧ r.table = t) := by
      by_cases ht : t = .torrentSources
      · subst ht
        refine ⟨c, restoreTable_sources hthere, fun r => (or_iff_left ?_).symm⟩
        grind [infoHash?_eq_none_iff]
      · have hgone' : ∀ r ∈ c.rows, r.infoHash? = some hash → r.table ≠ t := by grind
        obtain ⟨c1, hok, hrows⟩ := restoreTable_owned ht hgone'
        refine ⟨c1, hok, fun r => ?_⟩
        rw [hrows, mem_append, mem_captured, if_neg ht]
        tauto
    obtain ⟨c1, hok, hrows⟩ := hone
    obtain ⟨c', hok', hrows'⟩ := ih hnodup.2 (c := c1) (by grind)
      (fun r hr hnone => (hrows r).mpr (.inl (hthere r hr hnone)))
    grind [restoreTables]

theorem tables_nodup : tables.Nodup := by decide

theorem mem_tables (t : TableName) : t ∈ tables := by cases t <;> decide

/-! ## Restoration -/

section
variable {source : Catalogue} {db : Database} {row : SnapshotRow} {now : Time}

theorem Captured.absent (hc : Captured pg source db row) : db.catalogue.torrent? row.infoHash = none := by
  rw [Option.eq_none_iff_forall_ne_some]
  intro r hr
  obtain ⟨hmem, hkey⟩ := torrent?_eq_some_iff.mp hr
  exact hc.gone r hmem (congrArg (fun k => k.2.1) hkey)

theorem Captured.checkRestore (store : Store) (hc : Captured pg source db row) (hnow : now < row.expiresAt) :
    checkRestore pg store db row now = currentReceipt db row.id row.infoHash .removed := by
  have hprot : protected_ pg store db row.infoHash false = .ok () := by
    unfold protected_
    rw [reject_bind_eq_ok]
    exact ⟨hc.free, rfl⟩
  have hcascade : checkCascade db = .ok () := reject_eq_ok.mpr hc.dependency
  unfold Cataloguerecovery.checkRestore
  simp only [hc.state, hc.version, hnow, hcascade, hprot, hc.absent, hc.digest, hc.schema,
    hc.tables, ne_eq, not_true_eq_false, decide_false, Bool.or_self, Option.isSome_none]
  cases currentReceipt db row.id row.infoHash .removed <;> rfl

theorem Captured.restoreTx (store : Store) (hc : Captured pg source db row)
    (hreceipt : currentReceipt db row.id row.infoHash .removed = .ok ())
    (hnow : now < row.expiresAt) :
    ∃ db', restoreTx pg store db row now = .ok db' ∧ ∀ r, r ∈ db'.catalogue.rows ↔ r ∈ db.catalogue.rows ∨
        (r ∈ source.rows ∧ r.infoHash? = some row.infoHash) := by
  obtain ⟨c, hok, hrows⟩ := restoreTables_ok hc.records tables_nodup (fun r hmem hhash => absurd hhash (hc.gone r hmem))
    (fun r hmem hnone => (hc.sources r hnone).mpr hmem)
  refine ⟨commitRestore db row now c, ?_, fun r => ?_⟩
  · unfold Cataloguerecovery.restoreTx
    rw [hc.checkRestore store hnow, hreceipt]
    exact checked_bind_iff.mpr ⟨rfl, accepted_bind_iff.mpr ⟨c, hok, rfl⟩⟩
  · show r ∈ c.rows ↔ _
    rw [hrows r]
    simp only [mem_tables, and_true]

theorem Captured.restore_eq (hc : Captured pg source db row) (henabled : store.cfg.enabled = true) (hzero : now ≠ 0) :
    restore pg store db row.id now = do
      let db ← Cataloguerecovery.restoreTx pg store db row now
      storageCheck pg store db
      return (true, db) := by
  have hpositive : ¬ (row.id : Int) ≤ 0 := by
    have := hc.positive
    omega
  have hstate : row.state ≠ .restored := by
    rw [hc.state]
    decide
  unfold Cataloguerecovery.restore
  simp only [henabled, Bool.not_true, hpositive, hzero, decide_false, Int.toNat_natCast, hc.stored, hstate, if_false]
  rfl

theorem Captured.restore_of_restoreTx {db' : Database} (hc : Captured pg source db row)
    (henabled : store.cfg.enabled = true) (hzero : now ≠ 0)
    (hok : Cataloguerecovery.restoreTx pg store db row now = .ok db') :
    restore pg store db row.id now =
      if (pg.relationBytes db' : Int) ≤ store.cfg.maxStorageBytes then .ok (true, db')
      else .error .capacity := by
  rw [hc.restore_eq henabled hzero, hok]
  unfold storageCheck
  show (reject (decide (store.cfg.maxStorageBytes < (pg.relationBytes db' : Int)))
    RecoveryError.capacity >>= fun _ => .ok (true, db')) = _
  by_cases hfits : (pg.relationBytes db' : Int) ≤ store.cfg.maxStorageBytes
  · rw [if_pos hfits, decide_eq_false (not_lt.mpr hfits)]
    rfl
  · rw [if_neg hfits, decide_eq_true (not_le.mp hfits)]
    rfl

theorem currentReceipt_eq_error {id : Nat} {hash : ID} {state : SnapshotState}
    (h : currentReceipt db id hash state ≠ .ok ()) :
    currentReceipt db id hash state = .error .conflict := by grind [currentReceipt, reject]

end

/-! ## The round trip -/

section
variable {db db' : Database} {hashes : List ID} {mechanism reason : String} {now : Time} {snaps : List Snapshot}

theorem captured_perm {c c' : Catalogue} {hash : ID}
    (h : ∀ r : Row, r.infoHash? = some hash ∨ r.infoHash? = none → (r ∈ c'.rows ↔ r ∈ c.rows))
    (t : TableName) : (c'.captured hash t).Perm (c.captured hash t) := by
  have hnodup : ∀ c : Catalogue, (c.captured hash t).Nodup := fun c => c.rows_nodup.filter _
  rw [perm_ext_iff_of_nodup (hnodup _) (hnodup _)]
  intro r
  rw [mem_captured, mem_captured]
  split_ifs with ht
  · have hlinks : r.keyText ∈ c'.linkedSources hash ↔ r.keyText ∈ c.linkedSources hash := by
      rw [mem_linkedSources, mem_linkedSources]
      refine exists_congr fun link => and_congr_left fun hkey => h link (.inl ?_)
      exact congrArg (fun k => k.2.1) hkey
    grind [infoHash?_eq_none_iff]
  · exact and_congr_left fun hr => h r (.inl hr.2)

theorem removeBatch_repeat (hmech : mechanism ∈ receiptMechanisms)
    (h : removeBatch pg store db hashes mechanism reason now = .ok (snaps, db')) {now' : Time}
    (hzero : now' ≠ 0) (hexpiry : ∀ snap ∈ snaps, now' < snap.expiresAt) :
    removeBatch pg store db' hashes mechanism reason now' = .ok (snaps, db') := by
  obtain ⟨hvalid, -, tx, hall, hstorage, rfl⟩ := removeBatch_ok_iff.mp h
  rw [validateBatch_ok_iff] at hvalid
  have hnodup : (ordered hashes).Nodup := (ordered_perm hashes).nodup_iff.mpr hvalid.2.2.2.2.2.2.2
  have hvalid' : validateBatch store hashes reason now' = .ok () := by
    rw [validateBatch_ok_iff]
    tauto
  have hreceipts := removeAll_receipted hmech hnodup hall
  exact removeBatch_ok_iff.mpr ⟨hvalid', hstorage, _, removeAll_of_receipted hexpiry hreceipts, hstorage, rfl⟩

theorem removeBatch_captured (h : removeBatch pg store db hashes mechanism reason now = .ok (snaps, db')) {hash : ID}
    (hmem : hash ∈ hashes) (hpresent : (db.catalogue.torrent? hash).isSome) :
    store.cfg.enabled = true ∧ ∃ row, Captured pg db.catalogue db' row ∧ row.infoHash = hash ∧ row.receipt ∈ snaps ∧
        RemovedBy mechanism db' row ∧ (mechanism ∈ receiptMechanisms → Standing db' row) := by
  grind [removeBatch_ok_iff, validateBatch_ok_iff, ordered_perm, removeAll_captured]

/-- **A removal can be repeated and undone.** -/
theorem removal_roundtrip (h : removeBatch pg store db hashes mechanism reason now = .ok (snaps, db')) :
    (mechanism ∈ receiptMechanisms → (∀ now', now' ≠ 0 → (∀ snap ∈ snaps, now' < snap.expiresAt) →
        removeBatch pg store db' hashes mechanism reason now' = .ok (snaps, db')) ∧
      (∀ hash ∈ hashes, (db.catalogue.torrent? hash).isSome → ∃ snap ∈ snaps, snap.infoHash = hash ∧
          ∀ now', now' ≠ 0 → now' < snap.expiresAt → ∃ db'', restore pg store db' snap.id now' =
                (if (pg.relationBytes db'' : Int) ≤ store.cfg.maxStorageBytes
                 then .ok (true, db'') else .error .capacity) ∧
              (∀ t, (db''.catalogue.captured hash t).Perm (db.catalogue.captured hash t)) ∧
              ∀ r : Row, r.infoHash? ≠ some hash → (r ∈ db''.catalogue.rows ↔ r ∈ db'.catalogue.rows))) ∧
    (mechanism = mechanismCsam → ∀ hash ∈ hashes, (db.catalogue.torrent? hash).isSome →
        ∃ snap ∈ snaps, snap.infoHash = hash ∧ ∀ now', now' ≠ 0 → now' < snap.expiresAt →
            restore pg store db' snap.id now' = .error .conflict) := by
  refine ⟨fun hmech => ⟨fun now' => removeBatch_repeat hmech h, ?_⟩, ?_⟩
  · intro hash hmem hpresent
    obtain ⟨henabled, row, hc, rfl, hsnap, -, hstanding⟩ := removeBatch_captured h hmem hpresent
    refine ⟨row.receipt, hsnap, rfl, fun now' hzero hnow => ?_⟩
    obtain ⟨db'', hok, hrows⟩ := hc.restoreTx store (hstanding hmech).receipt hnow
    refine ⟨db'', hc.restore_of_restoreTx henabled hzero hok, captured_perm fun r hr => ?_, fun r hr => ?_⟩
    · rw [hrows]
      rcases hr with hhash | hnone
      · exact ⟨fun hor => hor.elim (fun hmem => absurd hhash (hc.gone r hmem)) And.left, fun hmem => .inr ⟨hmem, hhash⟩⟩
      · rw [hc.sources r hnone]
        exact ⟨fun hor => hor.elim id And.left, .inl⟩
    · grind
  · rintro rfl hash hmem hpresent
    obtain ⟨henabled, row, hc, rfl, hsnap, hby, -⟩ := removeBatch_captured h hmem hpresent
    refine ⟨row.receipt, hsnap, rfl, fun now' hzero hnow => ?_⟩
    have hrefused : currentReceipt db' row.id row.infoHash .removed = .error .conflict := by
      apply currentReceipt_eq_error
      intro hreceipt
      have hmech := hby.of_receipt hc.stored hreceipt
      exact absurd hmech (by decide)
    show restore pg store db' row.id now' = _
    rw [hc.restore_eq henabled hzero]
    unfold Cataloguerecovery.restoreTx
    rw [hc.checkRestore store hnow, hrefused]
    rfl

end

/-- The purge command removes the torrent, may repeat that, and it can be restored. -/
theorem purge_roundtrip : ∃ snaps db',
      removeBatch samplePlatform sampleStore (sampleDatabase sampleCatalogue) [sampleHash 7]
        mechanismBlocking "purge_cmd" 5 = .ok (snaps, db') ∧
      removeBatch samplePlatform sampleStore db' [sampleHash 7] mechanismBlocking "purge_cmd" 6 = .ok (snaps, db') ∧
      ∃ snap ∈ snaps, ∃ db'', restore samplePlatform sampleStore db' snap.id 6 =
          (if (samplePlatform.relationBytes db'' : Int) ≤ 1000 then .ok (true, db'')
           else .error .capacity) ∧
        ∀ t, (db''.catalogue.captured (sampleHash 7) t).Perm (sampleCatalogue.captured (sampleHash 7) t) := by
  have hcommit : ∃ out, removeBatch samplePlatform sampleStore (sampleDatabase sampleCatalogue)
      [sampleHash 7] mechanismBlocking "purge_cmd" 5 = .ok out ∧
      ∀ snap ∈ out.1, (6 : Int) < snap.expiresAt := ⟨_, rfl, by decide⟩
  obtain ⟨⟨snaps, db'⟩, h, hexpiry⟩ := hcommit
  obtain ⟨hrepeat, hrestore⟩ := (removal_roundtrip h).1 (by decide)
  refine ⟨snaps, db', h, hrepeat 6 (by decide) hexpiry, ?_⟩
  obtain ⟨snap, hmem, -, hnow⟩ := hrestore (sampleHash 7) (by decide) (by decide)
  obtain ⟨db'', hback, hrows, -⟩ := hnow 6 (by decide) (hexpiry snap hmem)
  exact ⟨snap, hmem, db'', hback, hrows⟩

/-- The ban check removes the torrent, which can not be restored a moment later. -/
theorem ban_check_not_restored : ∃ snaps db',
      removeBatch samplePlatform sampleStore (sampleDatabase sampleCatalogue) [sampleHash 7]
        mechanismCsam "csam_crawler" 5 = .ok (snaps, db') ∧
      snaps.map (fun snap => (snap.id, snap.expiresAt)) = [(1, 105)] ∧
      restore samplePlatform sampleStore db' 1 6 = .error .conflict := by
  exact ⟨_, _, rfl, rfl, rfl⟩

end BitAgent.Cataloguerecovery
