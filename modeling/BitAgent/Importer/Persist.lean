/-
# Importer.Persist — the transaction of an import buffer

`persistItems` of `internal/importer/importer.go`: the admission of names, the two block lists, and the transaction
that writes sources, torrents, hints, source rows and one job for a buffer. An `INSERT … ON CONFLICT DO UPDATE` fails
if two of its rows have one key; `CreateInBatches` sends a hundred rows in a statement. The job fails if a job with
its fingerprint is open (`flush_persists_iff`). A fingerprint stands for the text that it is the SHA-256 of.
`before` is what the first query of the transaction sees, `db` what is there when it writes.
-/
import BitAgent.Database.Enums
import BitAgent.Dhtcrawler.Persist
import BitAgent.Lib.Table

namespace BitAgent.Importer

open Lib Metainfo Database List

/-! ## Rows -/

/-- What an item says about its content beyond the type. -/
structure HintData where
  contentSource : Option String
  contentID : Option String
  title : Option String
  releaseYear : Nat
  episodes : List (Nat × List Nat)
  videoResolution : Option String
  videoSource : Option String
  videoCodec : Option String
  video3D : Option String
  videoModifier : Option String
  releaseGroup : Option String
  deriving DecidableEq

/-- `Item`, without the release date, which is not read. -/
structure Item where
  source : String
  infoHash : ID
  name : GoString
  size : UInt64
  isPrivate : Bool
  contentType : Option ContentType
  hint : HintData
  publishedAt : Option Nat
  deriving DecidableEq

/-- `model.TorrentHint`. -/
structure HintRow where
  infoHash : ID
  contentType : ContentType
  hint : HintData

/-- `model.TorrentsTorrentSource`. -/
structure SourceRow where
  source : String
  infoHash : ID
  importID : String
  publishedAt : Option Nat

def SourceRow.key (r : SourceRow) : String × ID := (r.source, r.infoHash)

/-- The tables of an import. `jobs` are the hashes of the open jobs of the processor, those pending or to be retried,
whose message is a list of hashes only; `adult` are the hashes with a content row of type `xxx`. A row of `torrents`
has no files and pieces: they have tables of their own. -/
structure Db where
  sources : List String
  torrents : Table Dhtcrawler.Torrent.infoHash
  hints : Table HintRow.infoHash
  torrentSources : Table SourceRow.key
  jobs : List (List ID)
  adult : List ID

/-- The torrent of `createTorrentModel`, less hint and sources. -/
def Item.torrent (it : Item) : Dhtcrawler.Torrent where
  infoHash := it.infoHash
  name := it.name
  size := it.size
  isPrivate := it.isPrivate
  pieces := none
  files := []
  filesStatus := .noInfo
  filesCount := none

/-- The hint of `createTorrentModel`. -/
def Item.hintRow (it : Item) : Option HintRow :=
  it.contentType.map fun contentType => { infoHash := it.infoHash, contentType := contentType, hint := it.hint }

/-- The source row of `createTorrentModel`. -/
def Item.sourceRow (importID : String) (it : Item) : SourceRow :=
  { source := it.source, infoHash := it.infoHash, importID := importID, publishedAt := it.publishedAt }

/-! ## Statements -/

/-- `CreateInBatches(…, 100)`. -/
def chunks {α : Type} (rows : List α) : List (List α) :=
  (List.range ((rows.length + 99) / 100)).map fun k => (rows.drop (100 * k)).take 100

section Statements
variable {ρ κ : Type} [DecidableEq κ] {key : ρ → κ}

/-- `INSERT … ON CONFLICT DO UPDATE` of some rows: no key may be proposed twice. -/
def upsertAll (t : Table key) (rows : List ρ) : Except String (Table key) :=
  if (rows.map key).Nodup then .ok (rows.foldl Table.upsert t)
  else .error "ON CONFLICT DO UPDATE command cannot affect row a second time"

/-- `CreateInBatches` with `UpdateAll`. -/
def createInBatches (t : Table key) (rows : List ρ) : Except String (Table key) := (chunks rows).foldlM upsertAll t

/-- No statement proposes a key twice. -/
def Distinct (key : ρ → κ) (rows : List ρ) : Prop := ∀ c ∈ chunks rows, (c.map key).Nodup

instance (key : ρ → κ) (rows : List ρ) : Decidable (Distinct key rows) :=
  inferInstanceAs (Decidable (∀ c ∈ chunks rows, (c.map key).Nodup))

variable {rows : List ρ}

theorem mem_chunks {row : ρ} (h : row ∈ rows) : ∃ c ∈ chunks rows, row ∈ c := by
  obtain ⟨i, hi, rfl⟩ := getElem_of_mem h
  refine ⟨_, mem_map_of_mem (mem_range.mpr (show i / 100 < _ by omega)), ?_⟩
  refine mem_iff_getElem.mpr ⟨i % 100, ?_, ?_⟩
  · simp only [length_take, length_drop]
    omega
  · grind

variable {t : Table key}

theorem isSome_get?_upserts {k : κ} (h : (t.get? k).isSome = true ∨ k ∈ rows.map key) :
    ((rows.foldl Table.upsert t).get? k).isSome = true := by
  induction rows generalizing t with
  | nil => simpa using h
  | cons row rows ih =>
    refine ih ?_
    rw [Table.get?_upsert]
    grind

theorem isSome_get?_foldlM {cs : List (List ρ)} {t' : Table key} (h : cs.foldlM upsertAll t = .ok t') {k : κ}
    (hk : (t.get? k).isSome = true ∨ ∃ c ∈ cs, k ∈ c.map key) : (t'.get? k).isSome = true := by
  induction cs generalizing t with
  | nil =>
    cases h
    simpa using hk
  | cons c cs ih => grind [accepted_bind_iff, upsertAll, isSome_get?_upserts]

theorem isSome_get?_createInBatches {t' : Table key} (h : createInBatches t rows = .ok t') {row : ρ}
    (hrow : row ∈ rows) : (t'.get? (key row)).isSome = true := by
  obtain ⟨c, hc, hmem⟩ := mem_chunks hrow
  exact isSome_get?_foldlM h (.inr ⟨c, hc, mem_map_of_mem hmem⟩)

theorem createInBatches_ok_iff (t : Table key) :
    (∃ t', createInBatches t rows = .ok t') ↔ Distinct key rows := by
  unfold createInBatches Distinct
  generalize chunks rows = cs
  induction cs generalizing t with
  | nil => exact ⟨fun _ _ h => (not_mem_nil h).elim, fun _ => ⟨t, rfl⟩⟩
  | cons c cs ih =>
    rw [foldlM_cons, forall_mem_cons]
    unfold upsertAll at ih ⊢
    by_cases hc : (c.map key).Nodup
    · rw [if_pos hc, and_iff_right hc, ← ih (c.foldl Table.upsert t)]
      rfl
    · rw [if_neg hc]
      refine ⟨?_, fun h => absurd h.1 hc⟩
      rintro ⟨_, h⟩
      cases h

end Statements

/-! ## The transaction -/

/-- `eligible` is the name policy's verdict on a hash and a name; `blocking` is none if the look-up fails. -/
structure Gate where
  enabled : Bool
  eligible : ID → GoString → Bool
  csam : ID → Bool
  blocking : Option (ID → Bool)

def nameOf (db : Db) (it : Item) : GoString := ((db.torrents.get? it.infoHash).map (·.name)).getD it.name

/-- `admitNamesTx`, for one item: `EvaluateClassified`. -/
def Gate.admits (g : Gate) (db : Db) (it : Item) : Bool :=
  !g.enabled || (g.eligible it.infoHash (nameOf db it) &&
    !(decide (it.contentType = some .xxx) || db.adult.contains it.infoHash))

def Gate.gateItems (g : Gate) (items : List Item) : Except String (List Item) :=
  if items.isEmpty then .ok items
  else
    match g.blocking with
    | none => .error "import blocking gate"
    | some blocked => .ok (items.filter fun it => !g.csam it.infoHash && !blocked it.infoHash)

inductive TxError where
  | excluded
  | failed (msg : String)

/-- The sources that this process has not written yet. -/
def newSources (imported : List String) (items : List Item) : List String :=
  ((items.map (·.source)).filter fun s => !imported.contains s).dedup

/-- The sources and torrents of a buffer, `ON CONFLICT DO NOTHING`. -/
def inserted (imported : List String) (db : Db) (items : List Item) : Db :=
  { db with
    sources := (newSources imported items).foldl (fun l s => if s ∈ l then l else l ++ [s]) db.sources
    torrents := items.foldl (fun t it => t.insertNew it.torrent) db.torrents }

/-- `Create` of a job, under the unique index `queue_jobs_fingerprint_idx` on the open jobs. -/
def createJob (jobs : List (List ID)) (hashes : List ID) : Except String (List (List ID)) :=
  if jobs.contains hashes then .error "duplicate key value violates unique constraint queue_jobs_fingerprint_idx"
  else .ok (jobs ++ [hashes])

/-- The writes of `persistItemsTx`. -/
def writeItems (g : Gate) (importID : String) (imported : List String) (db : Db) (items : List Item) :
    Except TxError Db := do
  let db := inserted imported db items
  if g.enabled && (items.filter (g.admits db)).length != items.length then .error .excluded
  else
    let hints ← (createInBatches db.hints (items.filterMap Item.hintRow)).mapError .failed
    let rows ← (createInBatches db.torrentSources (items.map (Item.sourceRow importID))).mapError .failed
    let jobs ← (createJob db.jobs (items.map (·.infoHash))).mapError .failed
    .ok { db with hints := hints, torrentSources := rows, jobs := jobs }

/-- `persistItemsTx`: the tables after it, and the items that it wrote. -/
def persistItemsTx (g : Gate) (importID : String) (imported : List String) (before db : Db)
    (items : List Item) : Except TxError (Db × List Item) :=
  let items := items.filter (g.admits before)
  (if g.enabled then (g.gateItems items).mapError .failed else .ok items) >>= fun items =>
    if items.isEmpty then .ok (db, []) else (writeItems g importID imported db items).map fun db => (db, items)

/-- `persistItems`: an excluded transaction is no error. `fault` is the database's error. -/
def persistItems (g : Gate) (importID : String) (imported : List String) (fault : Option String)
    (before db : Db) (items : List Item) : Except String (Db × List Item) :=
  (if g.enabled then .ok items else g.gateItems items) >>= fun items =>
    if items.isEmpty then .ok (db, [])
    else
      match fault with
      | some msg => .error msg
      | none =>
        match persistItemsTx g importID imported before db items with
        | .ok out => .ok out
        | .error .excluded => .ok (db, [])
        | .error (.failed msg) => .error msg

/-- An item is in the tables: torrent, source row and a job. -/
structure Committed (db : Db) (it : Item) : Prop where
  torrent : (db.torrents.get? it.infoHash).isSome = true
  source : (db.torrentSources.get? (it.source, it.infoHash)).isSome = true
  job : ∃ hashes ∈ db.jobs, it.infoHash ∈ hashes

variable {g : Gate} {importID : String} {imported : List String} {db : Db} {items : List Item}

theorem get?_insertTorrents (t : Table Dhtcrawler.Torrent.infoHash) (items : List Item) (h : ID) :
    (items.foldl (fun t it => t.insertNew it.torrent) t).get? h =
      (t.get? h).or ((items.find? (·.infoHash = h)).map Item.torrent) := by
  induction items generalizing t with
  | nil => simp
  | cons it items ih =>
    rw [foldl_cons, ih, Table.get?_insertNew, Option.or_assoc]
    congr 1
    by_cases hit : it.infoHash = h
    · simp [hit, Item.torrent]
    · simp [hit, Item.torrent]

variable {it : Item}

theorem nameOf_inserted (imported : List String) (db : Db) (hit : it ∈ items) :
    ∃ first ∈ items, first.infoHash = it.infoHash ∧ nameOf (inserted imported db items) it = nameOf db first := by
  cases hget : db.torrents.get? it.infoHash with
  | some t => grind [nameOf, inserted, get?_insertTorrents]
  | none =>
    cases hfind : items.find? (·.infoHash = it.infoHash) with
    | none => exact absurd (List.find?_eq_none.mp hfind it hit) (by simp)
    | some first => grind [inserted, get?_insertTorrents, nameOf, Item.torrent]

/-- An item that passes the admission of names and the gate. -/
structure Accepted (g : Gate) (db : Db) (it : Item) : Prop where
  admitted : g.admits db it = true
  open_ : ∃ blocked, g.blocking = some blocked ∧ g.csam it.infoHash = false ∧ blocked it.infoHash = false

theorem admits_inserted (imported : List String) (hall : ∀ it ∈ items, Accepted g db it) :
    items.filter (g.admits (inserted imported db items)) = items := by
  rw [filter_eq_self]
  intro it hit
  obtain ⟨first, hfirst, hhash, hname⟩ := nameOf_inserted imported db hit
  have hown := (hall it hit).admitted
  have hother := (hall first hfirst).admitted
  unfold Gate.admits at hown hother ⊢
  rw [hname, ← hhash]
  rw [← hhash] at hown
  show (!g.enabled || (g.eligible first.infoHash (nameOf db first) && !(_ || db.adult.contains _))) = true
  grind

theorem gateItems_of_accepted (hall : ∀ it ∈ items, Accepted g db it) : g.gateItems items = .ok items := by
  unfold Gate.gateItems
  cases items with
  | nil => rfl
  | cons it rest =>
    obtain ⟨blocked, hblocked, -⟩ := (hall it mem_cons_self).open_
    rw [hblocked]
    simp only [isEmpty_cons, Bool.false_eq_true, if_false]
    congr 1
    rw [filter_eq_self]
    intro x hx
    obtain ⟨blocked', hblocked', hcsam, hfree⟩ := (hall x hx).open_
    grind

theorem persistItems_of_accepted (importID : String) (imported : List String)
    (hall : ∀ it ∈ items, Accepted g db it) (hne : items ≠ []) :
    persistItems g importID imported none db db items =
      createInBatches db.hints (items.filterMap Item.hintRow) >>= fun hints =>
        createInBatches db.torrentSources (items.map (Item.sourceRow importID)) >>= fun rows =>
          createJob db.jobs (items.map (·.infoHash)) >>= fun jobs =>
            .ok ({ inserted imported db items with hints := hints, torrentSources := rows, jobs := jobs }, items) := by
  have hempty : items.isEmpty = false := by simpa using hne
  have hfilter : items.filter (g.admits db) = items := filter_eq_self.mpr fun it hit => (hall it hit).admitted
  have hagain := admits_inserted imported hall
  have hwrite : writeItems g importID imported db items =
      (createInBatches db.hints (items.filterMap Item.hintRow)).mapError .failed >>= fun hints =>
        (createInBatches db.torrentSources (items.map (Item.sourceRow importID))).mapError .failed >>= fun rows =>
          (createJob db.jobs (items.map (·.infoHash))).mapError .failed >>= fun jobs =>
            .ok { inserted imported db items with hints := hints, torrentSources := rows, jobs := jobs } := by
    unfold writeItems
    dsimp only
    rw [hagain]
    simp only [bne_self_eq_false, Bool.and_false, Bool.false_eq_true, if_false]
    rfl
  have htx : persistItemsTx g importID imported db db items =
      (writeItems g importID imported db items).map fun db => (db, items) := by
    unfold persistItemsTx
    simp only [hfilter, gateItems_of_accepted hall]
    cases g.enabled <;> simp [hempty, bind, Except.bind, Except.mapError]
  have hstart : persistItems g importID imported none db db items =
      match persistItemsTx g importID imported db db items with
      | .ok out => .ok out
      | .error .excluded => .ok (db, [])
      | .error (.failed msg) => .error msg := by
    unfold persistItems
    rw [gateItems_of_accepted hall]
    cases g.enabled <;> simp only [hempty, bind, Except.bind, Bool.false_eq_true, if_false, if_true]
  rw [hstart, htx, hwrite]
  cases createInBatches db.hints (items.filterMap Item.hintRow) <;>
    cases createInBatches db.torrentSources (items.map (Item.sourceRow importID)) <;>
      cases createJob db.jobs (items.map (·.infoHash)) <;> rfl

/-- The items that pass every check of the gate. -/
def Gate.kept (g : Gate) (before : Db) (items : List Item) : List Item :=
  items.filter fun it => g.admits before it && (!g.csam it.infoHash && !(g.blocking.any (· it.infoHash)))

theorem gateItems_ok {kept : List Item} (h : g.gateItems items = .ok kept) :
    kept = items.filter fun it => !g.csam it.infoHash && !(g.blocking.any (· it.infoHash)) := by
  grind [Gate.gateItems]

variable {db' : Db}

/-- **Without an error** the items that are left are written, or the transaction is excluded and nothing is. -/
theorem persistItems_ok {fault : Option String} {before : Db} {written : List Item}
    (h : persistItems g importID imported fault before db items = .ok (db', written)) :
    (written = g.kept before items ∧ (written = [] ∧ db' = db ∨ writeItems g importID imported db written = .ok db')) ∨
      (written = [] ∧ db' = db ∧ writeItems g importID imported db (g.kept before items) = .error .excluded) := by
  unfold persistItems at h
  obtain ⟨first, hfirst, h⟩ := accepted_bind_iff.mp h
  -- before the transaction: the gate, or all items
  have hkept : ∀ second, (if g.enabled then (g.gateItems (first.filter (g.admits before))).mapError TxError.failed
      else .ok (first.filter (g.admits before))) = .ok second → second = g.kept before items := by
    intro second hsecond
    cases henabled : g.enabled with
    | true =>
      rw [henabled, if_pos rfl] at hfirst hsecond
      cases hfirst
      cases hgate : g.gateItems (items.filter (g.admits before)) with
      | error msg => simp [hgate, Except.mapError] at hsecond
      | ok kept =>
        have hout := gateItems_ok hgate
        simp only [hgate, Except.mapError, Except.ok.injEq] at hsecond
        rw [← hsecond, hout, filter_filter]
        exact filter_congr fun it _ => Bool.and_comm _ _
    | false =>
      rw [henabled] at hfirst hsecond
      simp only [Bool.false_eq_true, if_false, Except.ok.injEq] at hfirst hsecond
      rw [← hsecond, gateItems_ok hfirst, filter_filter]
      rfl
  split_ifs at h with hempty
  · cases h
    refine .inl ⟨?_, .inl ⟨rfl, rfl⟩⟩
    cases henabled : g.enabled with
    | true => grind [Gate.kept]
    | false => exact hkept [] (by simp [henabled, isEmpty_iff.mp hempty])
  cases fault with
  | some msg => simp at h
  | none =>
    simp only at h
    unfold persistItemsTx at h
    cases hsecond : (if g.enabled then (g.gateItems (first.filter (g.admits before))).mapError TxError.failed
        else .ok (first.filter (g.admits before))) with
    | error e =>
      simp only [hsecond, bind, Except.bind] at h
      cases e with
      | failed msg => simp at h
      | excluded =>
        cases henabled : g.enabled <;> rw [henabled] at hsecond
        · simp at hsecond
        · cases hgate : g.gateItems (first.filter (g.admits before)) <;> simp [hgate, Except.mapError] at hsecond
    | ok second =>
      obtain rfl := hkept second hsecond
      simp only [hsecond, bind, Except.bind] at h
      by_cases hnone : (g.kept before items).isEmpty = true
      · grind
      · rw [if_neg hnone] at h
        cases hwrite : writeItems g importID imported db (g.kept before items) with
        | ok out => grind [Except.map]
        | error e => grind [Except.map]

theorem createJob_ok_iff {jobs jobs' : List (List ID)} {hashes : List ID} :
    createJob jobs hashes = .ok jobs' ↔ hashes ∉ jobs ∧ jobs' = jobs ++ [hashes] := by
  unfold createJob
  by_cases hopen : hashes ∈ jobs
  · simp [hopen]
  · simp [hopen, eq_comm]

theorem mapError_eq_ok {x : Except String α} {a : α} : x.mapError TxError.failed = .ok a ↔ x = .ok a := by
  cases x <;> simp [Except.mapError]

theorem writeItems_ok (h : writeItems g importID imported db items = .ok db') :
    db'.torrents = (inserted imported db items).torrents ∧
      createInBatches db.torrentSources (items.map (Item.sourceRow importID)) = .ok db'.torrentSources ∧
      db'.jobs = db.jobs ++ [items.map (·.infoHash)] := by
  unfold writeItems at h
  dsimp only at h
  split_ifs at h
  obtain ⟨hints, -, h⟩ := accepted_bind_iff.mp h
  obtain ⟨rows, hrows, h⟩ := accepted_bind_iff.mp h
  obtain ⟨jobs, hjobs, h⟩ := accepted_bind_iff.mp h
  cases h
  exact ⟨rfl, mapError_eq_ok.mp hrows, (createJob_ok_iff.mp (mapError_eq_ok.mp hjobs)).2⟩

theorem committed_of_writeItems (h : writeItems g importID imported db items = .ok db') (hit : it ∈ items) :
    Committed db' it := by
  obtain ⟨htorrents, hrows, hjobs⟩ := writeItems_ok h
  refine ⟨?_, isSome_get?_createInBatches hrows (mem_map_of_mem hit), ?_⟩
  · rw [htorrents]
    refine (congrArg Option.isSome (get?_insertTorrents _ _ _)).trans ?_
    grind
  · grind [mem_map_of_mem]

theorem accepted_of_alone (h : persistItems g importID imported none db db [it] = .ok (db', [it])) :
    Accepted g db it := by
  have hkept : it ∈ g.kept db [it] := by
    rcases persistItems_ok h with ⟨hwritten, -⟩ | ⟨hnil, -⟩
    · rw [← hwritten]
      exact mem_singleton_self it
    · cases hnil
  obtain ⟨-, hpass⟩ := mem_filter.mp hkept
  simp only [Bool.and_eq_true, Bool.not_eq_true'] at hpass
  obtain ⟨hadmits, hcsam, hopen⟩ := hpass
  refine ⟨hadmits, ?_⟩
  cases hblocking : g.blocking with
  | some blocked => exact ⟨blocked, rfl, hcsam, by simpa [hblocking] using hopen⟩
  | none =>
    -- the gate fails, before the transaction or in it
    cases henabled : g.enabled <;>
      simp [persistItems, persistItemsTx, Gate.gateItems, henabled, hadmits, hblocking, bind, Except.bind,
        Except.mapError] at h

/-- **A buffer of items that could each be imported alone** is written if and only if no statement on the hints
proposes a hash twice, none on the source rows a source and hash twice, and no open job has the hashes of the buffer. -/
theorem flush_persists_iff (g : Gate) (importID : String) (imported : List String) (db : Db) (items : List Item)
    (halone : ∀ it ∈ items, ∃ db', persistItems g importID imported none db db [it] = .ok (db', [it])) :
    (∃ db', persistItems g importID imported none db db items = .ok (db', items) ∧ ∀ it ∈ items, Committed db' it) ↔
      Distinct HintRow.infoHash (items.filterMap Item.hintRow) ∧
        Distinct SourceRow.key (items.map (Item.sourceRow importID)) ∧
        (items ≠ [] → items.map (·.infoHash) ∉ db.jobs) := by
  have hall : ∀ it ∈ items, Accepted g db it := fun it hit => (halone it hit).elim fun _ h => accepted_of_alone h
  by_cases hne : items = []
  · subst hne
    refine iff_of_true ⟨db, ?_, by simp⟩ ⟨by simp [Distinct, chunks], by simp [Distinct, chunks], by simp⟩
    unfold persistItems Gate.gateItems
    cases g.enabled <;> rfl
  rw [← createInBatches_ok_iff db.hints, ← createInBatches_ok_iff db.torrentSources]
  have hrun := persistItems_of_accepted importID imported hall hne
  constructor
  · rintro ⟨db', hok, -⟩
    obtain ⟨hints, hhints, hok⟩ := accepted_bind_iff.mp (hrun.symm.trans hok)
    obtain ⟨rows, hrows, hok⟩ := accepted_bind_iff.mp hok
    obtain ⟨jobs, hjobs, -⟩ := accepted_bind_iff.mp hok
    exact ⟨⟨hints, hhints⟩, ⟨rows, hrows⟩, fun _ => (createJob_ok_iff.mp hjobs).1⟩
  · rintro ⟨⟨hints, hhints⟩, ⟨rows, hrows⟩, hfree⟩
    have hok := hrun
    rw [hhints, hrows, createJob_ok_iff.mpr ⟨hfree hne, rfl⟩] at hok
    refine ⟨_, hok, fun it hit => ?_⟩
    rcases persistItems_ok hok with ⟨-, ⟨hnil, -⟩ | hwrite⟩ | ⟨hnil, -⟩
    · exact absurd hnil hne
    · exact committed_of_writeItems hwrite hit
    · exact absurd hnil hne

def Db.empty : Db :=
  { sources := [], torrents := .empty, hints := .empty, torrentSources := .empty, jobs := [], adult := [] }

def Gate.allOpen : Gate :=
  { enabled := true, eligible := fun _ _ => true, csam := fun _ => false, blocking := some fun _ => false }

def film (source : String) (hash : ID) : Item where
  source := source
  infoHash := hash
  name := [0x61]
  size := 1
  isPrivate := false
  contentType := none
  hint := ⟨none, none, none, 0, [], none, none, none, none, none, none⟩
  publishedAt := none

/-- Two sources may list the same hash. -/
theorem flush_two_sources : ∃ db', persistItems .allOpen "i" [] none .empty .empty [film "a" [1], film "b" [1]] =
        .ok (db', [film "a" [1], film "b" [1]]) ∧
      ∀ it ∈ [film "a" [1], film "b" [1]], Committed db' it :=
  (flush_persists_iff .allOpen "i" [] .empty [film "a" [1], film "b" [1]] (by
    simp only [List.forall_mem_cons]
    exact ⟨⟨_, rfl⟩, ⟨_, rfl⟩, by simp⟩)).mpr (by decide)

/-- Source and hash twice, or a buffer whose job is open: the transaction fails, although each item could be imported
alone. -/
theorem flush_repeated_item_fails :
    (∃ db', persistItems .allOpen "i" [] none .empty .empty [film "a" [1]] = .ok (db', [film "a" [1]])) ∧
      persistItems .allOpen "i" [] none .empty .empty [film "a" [1], film "a" [1]] =
        .error "ON CONFLICT DO UPDATE command cannot affect row a second time" ∧
      let db := { Db.empty with jobs := [[[1], [2]]] }
      (∀ it ∈ [film "a" [1], film "a" [2]], ∃ db', persistItems .allOpen "i" [] none db db [it] = .ok (db', [it])) ∧
      persistItems .allOpen "i" [] none db db [film "a" [1], film "a" [2]] =
        .error "duplicate key value violates unique constraint queue_jobs_fingerprint_idx" := by
  refine ⟨⟨_, rfl⟩, rfl, ?_, rfl⟩
  simp only [List.forall_mem_cons]
  exact ⟨⟨_, rfl⟩, ⟨_, rfl⟩, by simp⟩

end BitAgent.Importer
