/-
# Importer.Privacy — the private flag under two writers

Imports and the crawler write the same rows of `torrents`, and neither writes the private flag of a row that exists.
So a private torrent that the crawler persists stays private iff the row that it finds, if any, is private.
-/
import BitAgent.Importer.Persist

namespace BitAgent.Importer

open Lib Metainfo

/-- `ON CONFLICT (info_hash) DO UPDATE` of `runPersistTorrents`, which takes files and pieces out of the model first. -/
def crawlUpsert (t : Table Dhtcrawler.Torrent.infoHash) (m : Dhtcrawler.Torrent) : Table Dhtcrawler.Torrent.infoHash :=
  match t.get? m.infoHash with
  | some old => t.upsert { old with name := m.name, filesStatus := m.filesStatus, filesCount := m.filesCount }
  | none => t.upsert { m with files := [], pieces := none }

inductive Write where
  | imports (g : Gate) (importID : String) (imported : List String) (fault : Option String) (before : Db)
      (items : List Item)
  | crawl (eligible : ID → GoString → Bool) (savePieces : Bool) (threshold : Nat) (batch : List (ID × Info))

variable (lib : TorrentLibrary)

def write (db : Db) : Write → Db
  | .imports g importID imported fault before items =>
    match persistItems g importID imported fault before db items with
    | .ok out => out.1
    | .error _ => db
  | .crawl eligible savePieces threshold batch =>
    match Dhtcrawler.persistTorrents lib eligible savePieces threshold batch with
    | .ok models => { db with torrents := models.foldl crawlUpsert db.torrents }
    | .error _ => db

/-- The crawler persists a private metainfo of the hash. -/
def Write.PersistsPrivate (h : ID) : Write → Prop
  | .imports .. => False
  | .crawl eligible savePieces threshold batch =>
    ∃ models m, Dhtcrawler.persistTorrents lib eligible savePieces threshold batch = .ok models ∧
      models.find? (·.infoHash = h) = some m ∧ m.isPrivate = true

def flag (db : Db) (h : ID) : Option Bool := (db.torrents.get? h).map (·.isPrivate)

theorem get?_crawlUpserts (t : Table Dhtcrawler.Torrent.infoHash) (models : List Dhtcrawler.Torrent) (h : ID) :
    ((models.foldl crawlUpsert t).get? h).map (·.isPrivate) =
      ((t.get? h).map (·.isPrivate)).or ((models.find? (·.infoHash = h)).map (·.isPrivate)) := by
  induction models generalizing t with
  | nil => simp
  | cons m models ih =>
    rw [List.foldl_cons, ih]
    unfold crawlUpsert
    cases hget : t.get? m.infoHash with
    | some old => grind [Table.get?_key, Table.get?_upsert]
    | none => grind [Table.get?_upsert]

theorem get?_imports {db : Db} {h : ID} {t : Dhtcrawler.Torrent} (ht : db.torrents.get? h = some t) (g : Gate)
    (importID : String) (imported : List String) (fault : Option String) (before : Db) (items : List Item) :
    (write lib db (.imports g importID imported fault before items)).torrents.get? h = some t := by
  unfold write
  simp only
  split
  · rename_i out hok
    rcases persistItems_ok (show _ = Except.ok (out.1, out.2) from hok) with ⟨-, ⟨-, hsame⟩ | hwrite⟩ | ⟨-, hsame, -⟩
    · rw [hsame, ht]
    · have htorrents := (writeItems_ok hwrite).1
      grind [inserted, get?_insertTorrents]
    · rw [hsame, ht]
  · exact ht

/-- **A write leaves the flag of an existing row alone.** -/
theorem flag_write {db : Db} {h : ID} {b : Bool} (hb : flag db h = some b) (w : Write) :
    flag (write lib db w) h = some b := by
  cases w with
  | imports g importID imported fault before items =>
    obtain ⟨t, ht, rfl⟩ := Option.map_eq_some_iff.mp hb
    rw [flag, get?_imports lib ht]
    rfl
  | crawl eligible savePieces threshold batch =>
    unfold write
    simp only
    split
    · refine (get?_crawlUpserts _ _ _).trans ?_
      rw [show (db.torrents.get? h).map (·.isPrivate) = some b from hb]
      rfl
    · exact hb

theorem flag_foldl {db : Db} {h : ID} {b : Bool} (hb : flag db h = some b) (ws : List Write) :
    flag (ws.foldl (write lib) db) h = some b := by
  induction ws generalizing db with
  | nil => exact hb
  | cons w ws ih => exact ih (flag_write lib hb w)

/-- Once the crawler has persisted the torrent as private, its row stays private. -/
def StaysPrivate (db : Db) (h : ID) (run : List Write) : Prop :=
  ∀ pre w post rest, run = pre ++ w :: (post ++ rest) → w.PersistsPrivate lib h →
    flag ((pre ++ w :: post).foldl (write lib) db) h = some true

/-- The crawler finds no public row of a torrent that it persists as private. -/
def FindsNoPublicRow (db : Db) (h : ID) (run : List Write) : Prop :=
  ∀ pre w rest, run = pre ++ w :: rest → w.PersistsPrivate lib h → flag (pre.foldl (write lib) db) h ≠ some false

/-- **When the private flag is kept**, for every start and sequence of imports and batches. -/
theorem stays_private_iff (db : Db) (h : ID) (run : List Write) :
    StaysPrivate lib db h run ↔ FindsNoPublicRow lib db h run := by
  constructor
  · intro hstays pre w rest hrun hprivate hpublic
    have hkept := hstays pre w [] rest hrun hprivate
    grind [flag_foldl]
  · intro hfinds pre w post rest hrun hprivate
    have hfound := hfinds pre w (post ++ rest) hrun hprivate
    rw [List.foldl_append, List.foldl_cons]
    refine flag_foldl lib ?_ post
    cases hflag : flag (pre.foldl (write lib) db) h with
    | some b =>
      cases b with
      | true => exact flag_write lib hflag w
      | false => exact absurd hflag hfound
    | none =>
      -- the crawler inserts the row
      cases w with
      | imports => exact hprivate.elim
      | crawl eligible savePieces threshold batch =>
        obtain ⟨models, m, hok, hm, hflagged⟩ := hprivate
        generalize pre.foldl (write lib) db = s at hflag ⊢
        simp only [write, hok]
        refine (get?_crawlUpserts _ _ _).trans ?_
        rw [show (s.torrents.get? h).map (·.isPrivate) = none from hflag, hm]
        simp [hflagged]

def privateInfo : Info := { Dhtcrawler.plainNames with isPrivate := some true }
def crawlPrivate : Write := .crawl (fun _ _ => true) false 10 [([1], privateInfo)]

theorem crawlPrivate_persists : crawlPrivate.PersistsPrivate (Dhtcrawler.sampleLibrary privateInfo) [1] :=
  ⟨_, _, rfl, rfl, rfl⟩

/-- An import first, without the flag: the row stays public. -/
theorem imported_first_stays_public : crawlPrivate.PersistsPrivate (Dhtcrawler.sampleLibrary privateInfo) [1] ∧
      flag ([.imports .allOpen "i" [] none .empty [film "a" [1]], crawlPrivate].foldl
        (write (Dhtcrawler.sampleLibrary privateInfo)) .empty) [1] = some false :=
  ⟨crawlPrivate_persists, rfl⟩

end BitAgent.Importer
