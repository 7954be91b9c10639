/-
# Importer.Routing — metadata is fetched once

When `runInfoHashTriage` of `internal/dhtcrawler/infohash_triage.go` asks for peers. The crawler writes a files status
and count for which it does not, and an import keeps them.
-/
import BitAgent.Importer.Privacy

namespace BitAgent.Importer

open Lib Metainfo Dhtcrawler List

/-- A hash goes to `getPeers`: its torrent is not there, or its files are not. -/
def wantsMetaInfo (saveFilesThreshold : Nat) : Option Torrent → Bool
  | none => true
  | some t => filesMissing saveFilesThreshold t.filesStatus t.filesCount

/-- The write, by a crawler with the threshold. -/
def Write.under (threshold : Nat) : Write → Write
  | .crawl eligible savePieces _ batch => .crawl eligible savePieces threshold batch
  | w => w

variable (lib : TorrentLibrary) {threshold : Nat} {h : ID}

def Write.crawled : Write → List Torrent
  | .imports .. => []
  | .crawl eligible savePieces threshold batch =>
    (persistTorrents lib eligible savePieces threshold batch).toOption.getD []

theorem length_of_saveFiles {hash : ID} {info : Info} {i : Nat} {fs : List FileInfo}
    (hover : (saveFiles lib hash info threshold i fs).2 = true) : threshold < i + fs.length := by
  induction fs generalizing i with
  | nil => cases hover
  | cons f fs ih => grind [saveFiles]

theorem not_wants_createTorrentModel (hash : ID) (info : Info) (savePieces : Bool) :
    wantsMetaInfo threshold (some (createTorrentModel lib hash info savePieces threshold)) = false := by
  have hover := @length_of_saveFiles lib threshold hash info 0 info.files
  cases hfiles : info.files with
  | nil => simp [wantsMetaInfo, filesMissing, createTorrentModel, hfiles, saveFiles]
  | cons f fs =>
    rw [hfiles] at hover
    cases hsaved : (saveFiles lib hash info threshold 0 (f :: fs)).2 with
    | false => simp [wantsMetaInfo, filesMissing, createTorrentModel, hfiles, hsaved]
    | true => simpa [wantsMetaInfo, filesMissing, createTorrentModel, hfiles, hsaved] using hover hsaved

theorem not_wants_crawled {w : Write} {m : Torrent} (hm : m ∈ (w.under threshold).crawled lib) :
    wantsMetaInfo threshold (some m) = false := by
  have hbatch : ∀ eligible savePieces seen batch, m ∈ batchModels lib eligible savePieces threshold seen batch →
      wantsMetaInfo threshold (some m) = false := by
    intro eligible savePieces seen batch hm
    induction batch generalizing seen with
    | nil => cases hm
    | cons item rest ih => grind [batchModels, not_wants_createTorrentModel]
  cases w with
  | imports => cases hm
  | crawl eligible savePieces _ batch =>
    refine hbatch eligible savePieces [] batch ?_
    cases hok : persistTorrents lib eligible savePieces threshold batch with
    | error e => simp [Write.under, Write.crawled, hok, Except.toOption] at hm
    | ok models => grind [Write.under, Write.crawled, persistTorrents, accepted_bind_iff, Except.toOption]

theorem not_wants_crawlUpserts {t : Table Torrent.infoHash} {models : List Torrent}
    (hmodels : ∀ m ∈ models, wantsMetaInfo threshold (some m) = false)
    (hrow : wantsMetaInfo threshold (t.get? h) = false ∨ ∃ m ∈ models, m.infoHash = h) :
    wantsMetaInfo threshold ((models.foldl crawlUpsert t).get? h) = false := by
  induction models generalizing t with
  | nil => simpa using hrow
  | cons m models ih =>
    refine ih (fun x hx => hmodels x (mem_cons_of_mem m hx)) ?_
    have hm := hmodels m mem_cons_self
    unfold crawlUpsert
    cases hget : t.get? m.infoHash with
    | some old => grind [Table.get?_key, Table.get?_upsert, wantsMetaInfo]
    | none => grind [Table.get?_upsert, wantsMetaInfo]

theorem not_wants_write (db : Db) {w : Write}
    (hrow : wantsMetaInfo threshold (db.torrents.get? h) = false ∨
      ∃ m ∈ (w.under threshold).crawled lib, m.infoHash = h) :
    wantsMetaInfo threshold ((write lib db (w.under threshold)).torrents.get? h) = false := by
  have hmodels := fun m => @not_wants_crawled lib threshold w m
  cases w with
  | imports g importID imported fault before items =>
    cases hget : db.torrents.get? h with
    | none => simp [hget, wantsMetaInfo, Write.crawled, Write.under] at hrow
    | some t =>
      have hkept := get?_imports lib hget g importID imported fault before items
      simpa [Write.under, hkept, hget, Write.crawled] using hrow
  | crawl eligible savePieces _ batch =>
    have hupserts := not_wants_crawlUpserts hmodels hrow
    simp only [Write.under, Write.crawled, write] at hupserts ⊢
    split
    next hok => rwa [hok] at hupserts
    next hfail => rwa [hfail] at hupserts

/-- **Metadata is fetched once**: from the batch on that persists a hash, a crawler with the same threshold does not
look for peers of it. -/
theorem crawled_not_routed (threshold : Nat) (db : Db) (pre post : List Write) (w : Write) (m : Torrent)
    (hm : m ∈ (w.under threshold).crawled lib) :
    wantsMetaInfo threshold
      ((((pre ++ w :: post).map (·.under threshold)).foldl (write lib) db).torrents.get? m.infoHash) = false := by
  rw [map_append, foldl_append, map_cons, foldl_cons]
  have hstep := not_wants_write lib ((pre.map (·.under threshold)).foldl (write lib) db) (.inr ⟨m, hm, rfl⟩)
  generalize write lib _ (w.under threshold) = s at hstep ⊢
  induction post generalizing s with
  | nil => exact hstep
  | cons w' post ih => exact ih _ (not_wants_write lib s (.inl hstep))

/-- Imported, crawled, and imported again. -/
theorem crawledPrivate_not_routed :
    let lib := sampleLibrary privateInfo
    let again : Write := .imports .allOpen "i" [] none .empty [film "a" [1]]
    wantsMetaInfo 10
      ((([again] ++ crawlPrivate :: [again]).map (·.under 10)).foldl (write lib) .empty |>.torrents.get? [1]) = false :=
  crawled_not_routed (sampleLibrary privateInfo) 10 .empty [_] [_] crawlPrivate
    (createTorrentModel (sampleLibrary privateInfo) [1] privateInfo false 10) (mem_singleton_self _)

variable {t : Torrent}

/-- The row is that of the torrent but for the columns that the crawler updates. Files and pieces are no columns: they
have tables of their own, to which each writer adds. -/
def Keeps (t : Torrent) (row : Option Torrent) : Prop :=
  ∃ r, row = some r ∧ r.infoHash = t.infoHash ∧ r.size = t.size ∧ r.isPrivate = t.isPrivate

theorem keeps_crawlUpserts {rows : Table Torrent.infoHash} (hrow : Keeps t (rows.get? h)) (models : List Torrent) :
    Keeps t ((models.foldl crawlUpsert rows).get? h) := by
  induction models generalizing rows with
  | nil => exact hrow
  | cons m models ih =>
    obtain ⟨r, hget, hsame⟩ := hrow
    refine ih ?_
    unfold crawlUpsert
    by_cases hm : m.infoHash = h
    · rw [hm, hget, Table.get?_upsert, if_pos (Table.get?_key hget)]
      exact ⟨_, rfl, hsame⟩
    · refine ⟨r, ?_, hsame⟩
      cases hold : rows.get? m.infoHash <;> grind [Table.get?_key, Table.get?_upsert]

theorem keeps_write {db : Db} (hrow : Keeps t (db.torrents.get? h)) (w : Write) :
    Keeps t ((write lib db w).torrents.get? h) := by
  cases w with
  | imports g importID imported fault before items =>
    obtain ⟨r, hget, hsame⟩ := hrow
    exact ⟨r, get?_imports lib hget .., hsame⟩
  | crawl eligible savePieces threshold batch =>
    unfold write
    dsimp only
    split
    · exact keeps_crawlUpserts hrow _
    · exact hrow

/-- **The first writer of a row decides**: after any further imports and batches of the crawler the row is there, with
all but its name and its files status and count as they were. -/
theorem row_kept (db : Db) (ws : List Write) (hrow : Keeps t (db.torrents.get? h)) :
    Keeps t ((ws.foldl (write lib) db).torrents.get? h) := by
  induction ws generalizing db with
  | nil => exact hrow
  | cons w ws ih => exact ih _ (keeps_write lib hrow w)

theorem imported_row_kept :
    let lib := sampleLibrary privateInfo
    let imported := write lib .empty (.imports .allOpen "i" [] none .empty [film "a" [1]])
    Keeps (film "a" [1]).torrent ((write lib imported crawlPrivate).torrents.get? [1]) :=
  row_kept (sampleLibrary privateInfo) _ [crawlPrivate] ⟨_, rfl, rfl, rfl, rfl⟩

end BitAgent.Importer
