/-
# Cataloguerecovery.Budget — when a removal goes through

With enough budget (`Ample`) only its protection can stop the removal of a torrent. Each removal keeps this for
the rest, so a batch of unprotected torrents goes through as a whole, and one with a protected torrent fails.
-/
import BitAgent.Cataloguerecovery.Removal

namespace BitAgent.Cataloguerecovery

open Lib Metainfo Verdicts Catalogueguard List

variable {pg : Platform} {store : Store}

/-! ## Protection -/

/-- Nothing protects a torrent from removal. -/
def Unprotected (pg : Platform) (store : Store) (db : Database) (hash : ID) : Prop :=
  authority pg db hash = false ∧ held db hash = false ∧
    (tagNames store db hash).any (fun name => protectedTag name true) = false

instance (pg : Platform) (store : Store) (db : Database) (hash : ID) :
    Decidable (Unprotected pg store db hash) :=
  inferInstanceAs (Decidable (_ ∧ _ ∧ _))

def TagsFit (store : Store) (db : Database) (hash : ID) : Prop :=
  ((tagNames store db hash).length : Int) ≤ store.cfg.maxRowsPerSnapshot ∧
    (((tagNames store db hash).map String.utf8ByteSize).sum : Int) ≤ store.cfg.maxSnapshotBytes

instance (store : Store) (db : Database) (hash : ID) : Decidable (TagsFit store db hash) :=
  inferInstanceAs (Decidable (_ ∧ _))

variable {db : Database} {hash : ID}

theorem protected_ok_iff : protected_ pg store db hash true = .ok () ↔
      Unprotected pg store db hash ∧ TagsFit store db hash := by
  grind [protected_, Unprotected, TagsFit, reject_bind_eq_ok, reject_eq_ok]

section
variable {hash : ID} {db db' : Database}

theorem Elsewhere.held (h : Elsewhere hash db db') : held db' hash = held db hash := by
  have hrow : ∀ r : Row, heldRow hash db.clock r = true → r.infoHash? = some hash := by
    intro r hr
    cases r <;> simp_all [heldRow, Row.infoHash?]
  have hrows : ∀ c : Catalogue, c.rows.any (heldRow hash db.clock) =
      (c.rowsOf (some hash)).any (heldRow hash db.clock) := by
    intro c
    rw [Bool.eq_iff_iff, any_eq_true, any_eq_true]
    grind [mem_rowsOf]
  unfold Cataloguerecovery.held
  rw [h.clock, hrows, hrows, h.own, h.canonicalLabels, h.verdict]

theorem Elsewhere.tagNames (h : Elsewhere hash db db') : tagNames store db' hash = tagNames store db hash := by
  have htag : ∀ r : Row, (r.tagOf hash).isSome → r.infoHash? = some hash := by
    intro r hr
    cases r <;> simp_all [Row.tagOf, Row.infoHash?]
  unfold Cataloguerecovery.tagNames
  rw [← filterMap_rowsOf htag, ← filterMap_rowsOf htag, h.own]

theorem Elsewhere.unprotected (h : Elsewhere hash db db') :
    Unprotected pg store db' hash ↔ Unprotected pg store db hash := by
  unfold Unprotected
  rw [h.authority, h.held, h.tagNames]

end

/-! ## The budget -/

def payloadOf (db : Database) (hash : ID) : Payload where
  tables := tables.map fun t => (t, db.catalogue.captured hash t)
  schema := db.schema

/-- A removal of one of the torrents `hashes`. -/
def Removes (pg : Platform) (store : Store) (hashes : List ID) (db db' : Database) : Prop :=
  ∃ hash ∈ hashes, ∃ mechanism reason now snap, ∃ tx tx' : Tx,
    removeTx pg store tx hash mechanism reason now = .ok (snap, tx') ∧ tx.db = db ∧ tx'.db = db'

/-- The limits hold for `hashes` in any order, and no eleventh table references `torrents`. -/
structure Ample (pg : Platform) (store : Store) (db : Database) (hashes : List ID) : Prop where
  supported : db.unsupportedDependency = false
  storage : ∀ db', Relation.ReflTransGen (Removes pg store hashes) db db' →
    (pg.relationBytes db' : Int) ≤ store.cfg.maxStorageBytes
  tags : ∀ h ∈ hashes, TagsFit store db h
  rows : ∀ h ∈ hashes, ((tables.map fun t => (db.catalogue.captured h t).length).sum : Int) ≤
    store.cfg.maxRowsPerSnapshot
  bytes : ∀ h ∈ hashes, ((tables.map fun t => ((db.catalogue.captured h t).map pg.rowBytes).sum).sum : Int) ≤
      store.cfg.maxSnapshotBytes
  snapshot : ∀ h ∈ hashes, (pg.encodedBytes (payloadOf db h) : Int) ≤ store.cfg.maxSnapshotBytes
  payload : ((db.payloadBytes + (hashes.map fun h => pg.encodedBytes (payloadOf db h)).sum : Nat) :
    Int) ≤ store.cfg.maxPayloadBytes
  count : ((db.snapshotCount + hashes.length : Nat) : Int) ≤ store.cfg.maxSnapshots

theorem Removes.mono {db' : Database} {hashes hashes' : List ID} (hsub : ∀ h ∈ hashes, h ∈ hashes')
    (hr : Removes pg store hashes db db') :
    Removes pg store hashes' db db' := by
  obtain ⟨hash, hmem, hrest⟩ := hr
  exact ⟨hash, hsub hash hmem, hrest⟩

theorem Ample.perm {hashes hashes' : List ID} (ha : Ample pg store db hashes) (hperm : hashes'.Perm hashes) :
    Ample pg store db hashes' where
  supported := ha.supported
  storage := fun db' hafter =>
    ha.storage db' (Relation.ReflTransGen.mono (fun _ _ => Removes.mono fun _ hmem => hperm.mem_iff.mp hmem) _ _ hafter)
  tags := fun h hmem => ha.tags h (hperm.mem_iff.mp hmem)
  rows := fun h hmem => ha.rows h (hperm.mem_iff.mp hmem)
  bytes := fun h hmem => ha.bytes h (hperm.mem_iff.mp hmem)
  snapshot := fun h hmem => ha.snapshot h (hperm.mem_iff.mp hmem)
  payload := by
    rw [(hperm.map _).sum_eq]
    exact ha.payload
  count := by
    rw [hperm.length_eq]
    exact ha.count

theorem Ample.storageCheck {db : Database} {hashes : List ID} (ha : Ample pg store db hashes) :
    storageCheck pg store db = .ok () := by
  refine reject_eq_ok.mpr (decide_eq_false ?_)
  exact not_lt.mpr (ha.storage db Relation.ReflTransGen.refl)

theorem captureTables_of_fits {rowCount size : Int}
    {ts : List TableName}
    (hrows : rowCount + ((ts.map fun t => (db.catalogue.captured hash t).length).sum : Nat) ≤
      store.cfg.maxRowsPerSnapshot)
    (hbytes : size + ((ts.map fun t => ((db.catalogue.captured hash t).map pg.rowBytes).sum).sum :
      Nat) ≤ store.cfg.maxSnapshotBytes) :
    captureTables pg store db hash rowCount size ts = .ok (ts.map fun t => (t, db.catalogue.captured hash t)) := by
  induction ts generalizing rowCount size with
  | nil => rfl
  | cons t ts ih =>
    rw [map_cons, sum_cons, Nat.cast_add] at hrows hbytes
    have hmin : min ((db.catalogue.captured hash t).length : Int)
        (store.cfg.maxRowsPerSnapshot - rowCount + 1) = (db.catalogue.captured hash t).length := by
      omega
    unfold captureTables
    simp only [hmin, reject_bind_eq_ok, Bool.or_eq_false_iff, decide_eq_false_iff_not, not_lt, gt_iff_lt]
    refine ⟨by omega, ⟨by omega, by omega⟩, ?_⟩
    rw [ih (by omega) (by omega)]
    rfl

theorem Ample.capture {tx : Tx} {hash : ID} {rest : List ID}
    (ha : Ample pg store tx.db (hash :: rest)) (hused : tx.used = tx.db.payloadBytes)
    (hcount : tx.count = tx.db.snapshotCount) :
    capture pg store tx hash = .ok (payloadOf tx.db hash) := by
  have hrows := ha.rows hash mem_cons_self
  have hbytes := ha.bytes hash mem_cons_self
  have hsnapshot := ha.snapshot hash mem_cons_self
  have hpayload := ha.payload
  have hcount' := ha.count
  rw [map_cons, sum_cons] at hpayload
  rw [length_cons] at hcount'
  unfold Cataloguerecovery.capture
  rw [captureTables_of_fits (by simpa using hrows) (by simpa using hbytes)]
  refine reject_bind_eq_ok.mpr ⟨?_, rfl⟩
  grind [payloadOf]

/-! ## A batch within the budget -/

/-- The Go variables agree with the budget row. -/
def Tx.Synced (tx : Tx) : Prop := tx.used = tx.db.payloadBytes ∧ tx.count = tx.db.snapshotCount

theorem payloadOf_elsewhere {db' : Database} (h : Elsewhere hash db db') :
    payloadOf db' hash = payloadOf db hash := by
  unfold payloadOf
  rw [h.schema]
  congr 2
  funext t
  rw [captured_eq h.own h.shared]

theorem Ample.commit {tx tx' : Tx} {rest : List ID} {mechanism reason : String} {now : Time} {snap : Snapshot}
    (ha : Ample pg store tx.db (hash :: rest)) (hnew : hash ∉ rest)
    (hremove : removeTx pg store tx hash mechanism reason now = .ok (snap, tx'))
    (h : (snap, tx') = commitRemoval pg store tx hash mechanism reason now (payloadOf tx.db hash)) :
    Ample pg store tx'.db rest := by
  have hframe : ∀ other ∈ rest, Elsewhere other tx.db tx'.db := fun other hmem =>
    commitRemoval_elsewhere h fun heq => hnew (heq ▸ hmem)
  have hspent : tx'.db.payloadBytes = tx.db.payloadBytes + pg.encodedBytes (payloadOf tx.db hash) ∧
      tx'.db.snapshotCount = tx.db.snapshotCount + 1 ∧
      tx'.db.unsupportedDependency = tx.db.unsupportedDependency := by
    cases h
    exact ⟨rfl, rfl, rfl⟩
  obtain ⟨hpayload, hcount, hdep⟩ := hspent
  have hstep : Removes pg store (hash :: rest) tx.db tx'.db :=
    ⟨hash, mem_cons_self, mechanism, reason, now, snap, tx, tx', hremove, rfl, rfl⟩
  refine ⟨hdep.trans ha.supported, ?_, ?_, ?_, ?_, ?_, ?_, ?_⟩
  · intro db' hafter
    exact ha.storage db' (.head hstep (Relation.ReflTransGen.mono
      (fun _ _ => Removes.mono fun _ hmem => mem_cons_of_mem _ hmem) _ _ hafter))
  · intro other hmem
    unfold TagsFit
    rw [(hframe other hmem).tagNames]
    exact ha.tags other (mem_cons_of_mem _ hmem)
  · intro other hmem
    simp only [captured_eq (hframe other hmem).own (hframe other hmem).shared]
    exact ha.rows other (mem_cons_of_mem _ hmem)
  · intro other hmem
    simp only [captured_eq (hframe other hmem).own (hframe other hmem).shared]
    exact ha.bytes other (mem_cons_of_mem _ hmem)
  · intro other hmem
    rw [payloadOf_elsewhere (hframe other hmem)]
    exact ha.snapshot other (mem_cons_of_mem _ hmem)
  · have hsame : rest.map (fun h => pg.encodedBytes (payloadOf tx'.db h)) =
        rest.map fun h => pg.encodedBytes (payloadOf tx.db h) :=
      map_congr_left fun other hmem => by rw [payloadOf_elsewhere (hframe other hmem)]
    have hall := ha.payload
    grind
  · have hall := ha.count
    rw [length_cons] at hall
    rw [hcount]
    omega

theorem Ample.removeTx {tx : Tx} {hash : ID} {rest : List ID} (mechanism reason : String)
    (now : Time) (ha : Ample pg store tx.db (hash :: rest)) (hsynced : tx.Synced)
    (hnew : hash ∉ rest) (hpresent : (tx.db.catalogue.torrent? hash).isSome)
    (hfree : Unprotected pg store tx.db hash) :
    ∃ snap tx', removeTx pg store tx hash mechanism reason now = .ok (snap, tx') ∧
      tx'.Synced ∧ Ample pg store tx'.db rest ∧ tx'.db.catalogue.torrent? hash = none := by
  obtain ⟨snap, tx', hcommit⟩ : ∃ snap tx', (snap, tx') =
      commitRemoval pg store tx hash mechanism reason now (payloadOf tx.db hash) := ⟨_, _, rfl⟩
  have hok : Cataloguerecovery.removeTx pg store tx hash mechanism reason now = .ok (snap, tx') := by
    obtain ⟨row, hrow⟩ := Option.isSome_iff_exists.mp hpresent
    have hprot := protected_ok_iff.mpr ⟨hfree, ha.tags hash mem_cons_self⟩
    have hcascade : checkCascade tx.db = .ok () := reject_eq_ok.mpr ha.supported
    unfold Cataloguerecovery.removeTx
    rw [hrow]
    simp only [hprot, hcascade, ha.capture hsynced.1 hsynced.2, hcommit]
    rfl
  refine ⟨snap, tx', hok, ?_, ha.commit hnew hok hcommit, ?_⟩
  · cases hcommit
    exact ⟨congrArg (· + _) hsynced.1, congrArg (· + 1) hsynced.2⟩
  · obtain ⟨-, hcatalogue, -⟩ := commitRemoval_writes hcommit
    rw [hcatalogue]
    exact deleteTorrent_torrent? _

section
variable {mechanism reason : String} {now : Time} {tx : Tx} {hashes rest : List ID}

theorem Ample.removeAll (mechanism reason : String) (now : Time)
    (ha : Ample pg store tx.db (hashes ++ rest)) (hsynced : tx.Synced)
    (hnodup : (hashes ++ rest).Nodup)
    (hpresent : ∀ h ∈ hashes, (tx.db.catalogue.torrent? h).isSome)
    (hfree : ∀ h ∈ hashes, Unprotected pg store tx.db h) :
    ∃ snaps tx', removeAll pg store mechanism reason now tx hashes = .ok (snaps, tx') ∧
      Ample pg store tx'.db rest ∧ ∀ h ∈ hashes, tx'.db.catalogue.torrent? h = none := by
  induction hashes generalizing tx with
  | nil => exact ⟨[], tx, rfl, ha, by simp⟩
  | cons hash hashes ih =>
    rw [cons_append, nodup_cons] at hnodup
    obtain ⟨snap, mid, hone, hsynced', ha', hgone⟩ := Ample.removeTx mechanism reason now ha hsynced
      hnodup.1 (hpresent hash mem_cons_self) (hfree hash mem_cons_self)
    have hframe : ∀ h ∈ hashes, Elsewhere h tx.db mid.db := fun h hmem =>
      removeTx_elsewhere hone fun heq => hnodup.1 (heq ▸ mem_append_left _ hmem)
    obtain ⟨snaps, tx', hmany, ha'', hgone'⟩ := ih ha' hsynced' hnodup.2 (fun h hmem => by
        rw [(hframe h hmem).torrent?]
        exact hpresent h (mem_cons_of_mem _ hmem))
      (fun h hmem => (hframe h hmem).unprotected.mpr (hfree h (mem_cons_of_mem _ hmem)))
    refine ⟨snap :: snaps, tx', ?_, ha'', ?_⟩
    · unfold Cataloguerecovery.removeAll
      rw [hone]
      show (Cataloguerecovery.removeAll pg store mechanism reason now mid hashes >>= _) = _
      rw [hmany]
      rfl
    · intro h hmem
      rcases mem_cons.mp hmem with rfl | hmem
      · have hlater : h ∉ hashes := fun hmem => hnodup.1 (mem_append_left _ hmem)
        rw [(removeAll_elsewhere hlater hmany).torrent?]
        exact hgone
      · exact hgone' h hmem

theorem removeAll_of_protected (hnodup : hashes.Nodup) (hmem : hash ∈ hashes)
    (hpresent : (tx.db.catalogue.torrent? hash).isSome) (hheld : ¬ Unprotected pg store tx.db hash)
    (out : List Snapshot × Tx) :
    removeAll pg store mechanism reason now tx hashes ≠ .ok out := by
  induction hashes generalizing tx out with
  | nil => cases hmem
  | cons first hashes ih =>
    intro hok
    rw [nodup_cons] at hnodup
    obtain ⟨snap, rest, mid, -, hone, hmany⟩ := removeAll_cons hok
    rcases mem_cons.mp hmem with rfl | hmem
    · rcases removeTx_cases hone with ⟨habsent, -⟩ | ⟨-, -, hprot, -⟩
      · simp [habsent] at hpresent
      · exact hheld (protected_ok_iff.mp hprot).1
    · have hframe := removeTx_elsewhere hone fun heq => hnodup.1 (heq ▸ hmem)
      exact ih hnodup.2 hmem (by rw [hframe.torrent?]; exact hpresent)
        (fun hfree => hheld (hframe.unprotected.mp hfree)) _ hmany

end

section
variable {db : Database} {hashes rest : List ID} {reason : String} {now : Time}

theorem Ample.removeBatch (mechanism : String) (hvalid : validateBatch store hashes reason now = .ok ())
    (ha : Ample pg store db (hashes ++ rest)) (hnodup : (hashes ++ rest).Nodup)
    (hpresent : ∀ h ∈ hashes, (db.catalogue.torrent? h).isSome)
    (hfree : ∀ h ∈ hashes, Unprotected pg store db h) :
    ∃ snaps db', removeBatch pg store db hashes mechanism reason now = .ok (snaps, db') ∧
      Ample pg store db' rest ∧ (∀ h ∈ hashes, db'.catalogue.torrent? h = none) ∧
      ∀ other ∉ hashes, Elsewhere other db db' := by
  have hperm := (ordered_perm hashes).append_right rest
  have hsynced : (Tx.mk db db.payloadBytes db.snapshotCount).Synced := ⟨rfl, rfl⟩
  obtain ⟨snaps, tx, hall, ha', hgone⟩ :=
    Ample.removeAll mechanism reason now (ha.perm hperm) hsynced (hperm.nodup_iff.mpr hnodup)
      (fun h hmem => hpresent h ((ordered_perm hashes).mem_iff.mp hmem))
      (fun h hmem => hfree h ((ordered_perm hashes).mem_iff.mp hmem))
  refine ⟨snaps, tx.db, removeBatch_ok_iff.mpr ⟨hvalid, ha.storageCheck, tx, hall,
    ha'.storageCheck, rfl⟩, ha', fun h hmem => hgone h ((ordered_perm hashes).mem_iff.mpr hmem),
    fun other hout => ?_⟩
  exact removeAll_elsewhere (fun hmem => hout ((ordered_perm hashes).mem_iff.mp hmem)) hall

theorem removeBatch_of_protected {mechanism : String} (hmem : hash ∈ hashes)
    (hpresent : (db.catalogue.torrent? hash).isSome) (hheld : ¬ Unprotected pg store db hash)
    (out : List Snapshot × Database) :
    removeBatch pg store db hashes mechanism reason now ≠ .ok out := by
  grind [removeBatch_ok_iff, validateBatch_ok_iff, removeAll_of_protected, ordered_perm]

end

end BitAgent.Cataloguerecovery
