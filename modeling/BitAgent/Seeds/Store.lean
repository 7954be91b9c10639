/-
# Seeds.Store — what the scraper leaves in the database

`persist` and the statements of `internal/seeds/store.go`, and the two counts of `internal/model/torrents.go`. A
ledger row folds the readings of its torrent; `denormSyncSQL` writes an aggregate that `bestCount` computes by a
loop. Left out: the admission of the hashes (what it denies is not in the list of a call), and the numbers of rows
that are reported.
-/
import BitAgent.Lib.Run
import BitAgent.Lib.Table
import BitAgent.Seeds.Scraper

namespace BitAgent.Seeds

open Lib List Table

attribute [local instance] decidableMem

/-! ## The rows -/

/-- A row of `torrents_torrent_sources`: its key, and the counts. -/
structure SourceRow where
  infoHash : Hash
  source : String
  seeders : Option Int
  leechers : Option Int

def SourceRow.key (r : SourceRow) : Hash × String := (r.infoHash, r.source)
def sourceKeyTracker : String := "tracker"

/-- A row of `torrent_tracker_seeds`. -/
structure LedgerRow where
  infoHash : Hash
  trackerKnown : Bool
  seeders : Option Int
  leechers : Option Int
  completed : Option Int
  bestTracker : Option String
  checkedAt : Nat
  prevSeeders : Option Int
  peakSeeders : Option Int
  lastPositiveAt : Option Nat

structure Db where
  torrents : List Hash
  ledger : Table LedgerRow.infoHash
  sources : Table SourceRow.key

/-- `a > 0`, which is not true of null. -/
def positive (a : Option Int) : Bool := a.any (0 < ·)

def newRow (h : Hash) (o : Option ScrapeOutcome) (now : Nat) : LedgerRow :=
  let known := o.filter (·.trackerKnown)
  { infoHash := h
    trackerKnown := known.isSome
    seeders := known.map (·.seeders)
    leechers := known.map (·.leechers)
    completed := known.map (·.completed)
    bestTracker := known.bind fun o => if o.bestTracker ≠ "" then some o.bestTracker else none
    checkedAt := now
    prevSeeders := none
    peakSeeders := known.map (·.seeders)
    lastPositiveAt := if positive (known.map (·.seeders)) || positive (known.map (·.leechers)) then some now else none }

/-- `on conflict (info_hash) do update`: what is proposed, with the history of the old row. -/
def LedgerRow.replacedBy (old excluded : LedgerRow) : LedgerRow :=
  { excluded with
    prevSeeders := old.seeders
    peakSeeders :=
      match excluded.seeders with
      | none => old.peakSeeders
      | some s => some (max (old.peakSeeders.getD 0) s)
    lastPositiveAt :=
      if positive excluded.seeders || positive excluded.leechers then some excluded.checkedAt
      else old.lastPositiveAt }

/-- `ledgerUpsertSQL`. -/
def ledgerUpsert (db : Db) (row : LedgerRow) : Db :=
  if row.infoHash ∈ db.torrents then
    { db with ledger := db.ledger.upsert (((db.ledger.get? row.infoHash).map (·.replacedBy row)).getD row) }
  else db

/-- `sourceUpsertSQL` or `sourceDeleteSQL`. -/
def sourceOp (db : Db) (h : Hash) (o : Option ScrapeOutcome) : Db :=
  match o.filter (·.trackerKnown) with
  | some o =>
    if h ∈ db.torrents then
      { db with sources := db.sources.upsert { infoHash := h, source := sourceKeyTracker,
                                               seeders := some o.seeders, leechers := some o.leechers } }
    else db
  | none => { db with sources := db.sources.delete fun r => r.source == sourceKeyTracker && r.infoHash == h }

def persistOne (outcomes : Hash → Option ScrapeOutcome) (now : Nat) (db : Db) (h : Hash) : Db :=
  sourceOp (ledgerUpsert db (newRow h (outcomes h) now)) h (outcomes h)

/-- A call of `Persist` that commits: the admitted hashes, the outcomes and its time. -/
structure PersistCall where
  hashes : List Hash
  outcomes : Hash → Option ScrapeOutcome
  now : Nat

def persist (db : Db) (c : PersistCall) : Db := c.hashes.foldl (persistOne c.outcomes c.now) db

/-! ## The ledger row of a history -/

structure Reading where
  outcome : Option ScrapeOutcome
  now : Nat

def Reading.known (r : Reading) : Option ScrapeOutcome := r.outcome.filter (·.trackerKnown)
def Reading.live (r : Reading) : Bool := r.known.any fun o => decide (0 < o.seeders) || decide (0 < o.leechers)

def statements (calls : List PersistCall) : List (Hash × Reading) :=
  calls.flatMap fun c => c.hashes.map fun h => (h, { outcome := c.outcomes h, now := c.now })

def readings (h : Hash) (sent : List (Hash × Reading)) : List Reading := (sent.filter (·.1 = h)).map Prod.snd

def Produced (o : Option ScrapeOutcome) : Prop :=
  ∀ o', o = some o' → 0 ≤ o'.seeders ∧ 0 ≤ o'.leechers ∧ 0 ≤ o'.completed

/-- **What the database should say of a torrent**: the peak is the greatest known reading, the previous value the
reading before the last, and there is a tracker row exactly if the last outcome was known. -/
structure Reflects (db : Db) (h : Hash) (rs : List Reading) : Prop where
  peak : ∀ row, db.ledger.get? h = some row → row.peakSeeders = ((rs.filterMap Reading.known).map (·.seeders)).max?
  lastPositive : ∀ row, db.ledger.get? h = some row →
    row.lastPositiveAt = ((rs.filter Reading.live).getLast?).map (·.now)
  previous : ∀ row, db.ledger.get? h = some row →
    row.prevSeeders = rs.dropLast.getLast?.bind fun r => r.known.map (·.seeders)
  last : ∀ row, db.ledger.get? h = some row → row.seeders = rs.getLast?.bind fun r => r.known.map (·.seeders)
  written : (db.ledger.get? h).isSome = !rs.isEmpty
  source : ∀ r, rs.getLast? = some r → db.sources.get? (h, sourceKeyTracker) =
    r.known.map fun o => { infoHash := h, source := sourceKeyTracker, seeders := some o.seeders,
                           leechers := some o.leechers }

variable {db : Db} {h : Hash}

def send (db : Db) (st : Hash × Reading) : Db := persistOne (fun _ => st.2.outcome) st.2.now db st.1

theorem foldl_persist (calls : List PersistCall) (db : Db) :
    calls.foldl persist db = (statements calls).foldl send db := by
  induction calls generalizing db with
  | nil => rfl
  | cons c calls ih =>
    show (calls.foldl persist (persist db c)) = (_ ++ statements calls).foldl send db
    rw [ih, foldl_append, foldl_map]
    rfl

theorem torrents_send (db : Db) (st : Hash × Reading) : (send db st).torrents = db.torrents := by
  grind [send, persistOne, sourceOp, ledgerUpsert]

theorem infoHash_newRow (h : Hash) (o : Option ScrapeOutcome) (now : Nat) : (newRow h o now).infoHash = h := rfl

theorem ledger_send (hin : h ∈ db.torrents) (st : Hash × Reading) : (send db st).ledger.get? h =
      if st.1 = h then
        some (((db.ledger.get? h).map (·.replacedBy (newRow h st.2.outcome st.2.now))).getD
          (newRow h st.2.outcome st.2.now))
      else db.ledger.get? h := by
  have hsource : (send db st).ledger = (ledgerUpsert db (newRow st.1 st.2.outcome st.2.now)).ledger := by
    grind [send, persistOne, sourceOp]
  rw [hsource, ledgerUpsert, infoHash_newRow]
  have hkey : ∀ old : Option LedgerRow, ((old.map (·.replacedBy (newRow st.1 st.2.outcome st.2.now))).getD
      (newRow st.1 st.2.outcome st.2.now)).infoHash = st.1 := by
    intro old
    cases old <;> rfl
  by_cases hst : st.1 = h
  · rw [hst] at hkey ⊢
    rw [if_pos hin, get?_upsert, hkey, if_pos rfl]
  · grind [get?_upsert]

theorem source_send (hin : h ∈ db.torrents) (st : Hash × Reading) : (send db st).sources.get? (h, sourceKeyTracker) =
      if st.1 = h then
        st.2.known.map fun o => { infoHash := h, source := sourceKeyTracker, seeders := some o.seeders,
                                  leechers := some o.leechers }
      else db.sources.get? (h, sourceKeyTracker) := by
  have hkept : (ledgerUpsert db (newRow st.1 st.2.outcome st.2.now)).sources = db.sources := by grind [ledgerUpsert]
  have hthere : (ledgerUpsert db (newRow st.1 st.2.outcome st.2.now)).torrents = db.torrents := by grind [ledgerUpsert]
  unfold send persistOne sourceOp Reading.known
  cases hknown : st.2.outcome.filter (·.trackerKnown) with
  | none =>
    simp only [hkept, get?_delete, Option.map_none]
    cases hget : db.sources.get? (h, sourceKeyTracker) with
    | none => simp
    | some row => grind [get?_key, SourceRow.key]
  | some o => grind [get?_upsert, SourceRow.key]

theorem readings_concat (sent : List (Hash × Reading)) (st : Hash × Reading) :
    readings h (sent ++ [st]) = if st.1 = h then readings h sent ++ [st.2] else readings h sent := by
  by_cases hsent : st.1 = h <;> simp [readings, hsent]

theorem positive_or_positive (r : Reading) :
    (positive (r.known.map (·.seeders)) || positive (r.known.map (·.leechers))) = r.live := by
  cases hknown : r.known <;> simp [Reading.live, positive, hknown]

theorem max?_concat {l : List Int} {a : Int} (ha : 0 ≤ a) : (l ++ [a]).max? = some (max (l.max?.getD 0) a) := by
  cases l with
  | nil => simp [Int.max_eq_right ha]
  | cons x l => grind [max?_cons']

variable {rs : List Reading}

theorem peak_concat {r : Reading} (hproduced : Produced r.outcome) {old : Option Int}
    (hold : old = ((rs.filterMap Reading.known).map (·.seeders)).max?) :
    (match r.known.map (·.seeders) with
      | none => old
      | some s => some (max (old.getD 0) s)) =
      (((rs ++ [r]).filterMap Reading.known).map (·.seeders)).max? := by
  rw [filterMap_append, map_append, hold]
  cases hknown : r.known with
  | none => simp [hknown]
  | some o =>
    have hpos : 0 ≤ o.seeders := (hproduced o (Option.filter_eq_some_iff.mp hknown).1).1
    grind [max?_concat]

/-- **One more reading of the torrent.** -/
theorem Reflects.concat (hr : Reflects db h rs) (hin : h ∈ db.torrents) {st : Hash × Reading} (hst : st.1 = h)
    (hproduced : Produced st.2.outcome) : Reflects (send db st) h (rs ++ [st.2]) := by
  obtain ⟨st, r⟩ := st
  obtain rfl : st = h := hst
  have hledger := ledger_send hin (st, r)
  have hsource := source_send hin (st, r)
  rw [if_pos rfl] at hledger hsource
  have hlive : (rs ++ [r]).filter Reading.live = rs.filter Reading.live ++ if r.live then [r] else [] := by grind
  have hwritten := hr.written
  have hclock : ∀ old : Option Nat, old = ((rs.filter Reading.live).getLast?).map (·.now) →
      (if positive (r.known.map (·.seeders)) || positive (r.known.map (·.leechers)) then some r.now else old) =
        (((rs ++ [r]).filter Reading.live).getLast?).map (·.now) := by
    intro old hold
    rw [positive_or_positive, hlive, hold]
    cases r.live <;> simp
  cases hget : db.ledger.get? st with
  | none =>
    -- the first reading
    obtain rfl : rs = [] := by simpa [hget] using hwritten
    rw [hget] at hledger
    refine ⟨?_, ?_, ?_, ?_, by simp [hledger], by simpa using hsource⟩ <;> rw [hledger] <;> rintro row ⟨⟩
    · show r.known.map (·.seeders) = _
      rw [← peak_concat hproduced rfl]
      cases hknown : r.known with
      | none => rfl
      | some o => simp [Int.max_eq_right (hproduced o (Option.filter_eq_some_iff.mp hknown).1).1]
    · exact hclock none rfl
    · rfl
    · rfl
  | some old =>
    rw [hget] at hledger
    refine ⟨?_, ?_, ?_, ?_, by simp [hledger], by simpa using hsource⟩ <;> rw [hledger] <;> rintro row ⟨⟩
    · exact peak_concat hproduced (hr.peak old hget)
    · exact hclock _ (hr.lastPositive old hget)
    · show old.seeders = _
      simpa using hr.last old hget
    · simp [newRow, LedgerRow.replacedBy, Reading.known]

theorem Reflects.other (hr : Reflects db h rs) (hin : h ∈ db.torrents) {st : Hash × Reading} (hst : st.1 ≠ h) :
    Reflects (send db st) h rs := by
  have hledger := ledger_send hin st
  have hsource := source_send hin st
  rw [if_neg hst] at hledger hsource
  exact ⟨hledger ▸ hr.peak, hledger ▸ hr.lastPositive, hledger ▸ hr.previous, hledger ▸ hr.last,
    hledger ▸ hr.written, hsource ▸ hr.source⟩

theorem reflects_foldl (hin : h ∈ db.torrents) (hnew : db.ledger.get? h = none) (sent : List (Hash × Reading))
    (hproduced : ∀ r ∈ readings h sent, Produced r.outcome) :
    (sent.foldl send db).torrents = db.torrents ∧ Reflects (sent.foldl send db) h (readings h sent) := by
  induction sent using List.reverseRecOn with
  | nil => exact ⟨rfl, by constructor <;> simp [hnew, readings]⟩
  | append_singleton sent st ih =>
    rw [readings_concat] at hproduced ⊢
    rw [Run.foldl_concat]
    have hbefore := ih (by grind)
    refine ⟨by rw [torrents_send, hbefore.1], ?_⟩
    split_ifs with hst
    · exact hbefore.2.concat (by rw [hbefore.1]; exact hin) hst (hproduced _ (by simp [hst]))
    · exact hbefore.2.other (by rw [hbefore.1]; exact hin) hst

/-- **The ledger keeps the history** of a torrent in the catalogue under every sequence of calls of `Persist`. -/
theorem ledger_reflects_readings (db : Db) (h : Hash) (hin : h ∈ db.torrents)
    (hnew : db.ledger.get? h = none) (calls : List PersistCall)
    (hproduced : ∀ c ∈ calls, Produced (c.outcomes h)) :
    Reflects (calls.foldl persist db) h (readings h (statements calls)) := by
  rw [foldl_persist]
  refine (reflects_foldl hin hnew _ ?_).2
  intro r hr
  obtain ⟨st, hst, rfl⟩ := mem_map.mp hr
  obtain ⟨hsent, hhash⟩ := mem_filter.mp hst
  obtain ⟨c, hc, hmem⟩ := mem_flatMap.mp hsent
  grind

def threeCalls : List PersistCall :=
  [ { hashes := [[1]], now := 10, outcomes := fun _ => some ⟨true, 5, 0, 0, "udp://a"⟩ },
    { hashes := [[2], [1]], now := 20, outcomes := fun _ => none },
    { hashes := [[1]], now := 30, outcomes := fun _ => some ⟨true, 0, 0, 7, ""⟩ } ]

theorem threeCalls_reflected :
    Reflects (threeCalls.foldl persist { torrents := [[1]], ledger := .empty, sources := .empty }) [1]
      (readings [1] (statements threeCalls)) :=
  ledger_reflects_readings _ [1] (by decide) rfl threeCalls (by simp [threeCalls, Produced])

/-! ## The denormalised counts -/

/-- `bestCount`: a tracker row that has the count wins, else the greatest count of any row. -/
def bestCount (count : SourceRow → Option Int) (sources : List SourceRow) : Option Int :=
  match sources.findSome? fun r => if r.source = sourceKeyTracker then count r else none with
  | some c => some c
  | none =>
    sources.foldl (fun best r =>
      match count r with
      | some c => some (if best.getD 0 < c then c else best.getD 0)
      | none => best) none

/-- A row of `torrent_contents`. -/
structure ContentRow where
  id : String
  infoHash : Hash
  seeders : Option Int
  leechers : Option Int
  deriving DecidableEq

/-- `max(count) filter (where …)` over the rows of a hash. -/
def maxWhere (p : SourceRow → Bool) (count : SourceRow → Option Int) (rows : List SourceRow) : Option Int :=
  ((rows.filter p).filterMap count).max?

def aggregate (sources : Table SourceRow.key) (h : Hash) (count : SourceRow → Option Int) : Option Int :=
  let group := sources.rows.filter fun r => r.infoHash == h
  (maxWhere (·.source == sourceKeyTracker) count group).or (maxWhere (·.source != sourceKeyTracker) count group)

/-- `denormSyncSQL`. -/
def denormSync (sources : Table SourceRow.key) (batch : List Hash) (contents : List ContentRow) : List ContentRow :=
  contents.map fun tc =>
    let seeders := aggregate sources tc.infoHash (·.seeders)
    let leechers := aggregate sources tc.infoHash (·.leechers)
    if tc.infoHash ∈ batch ∧ (tc.seeders ≠ seeders ∨ tc.leechers ≠ leechers) then
      { tc with seeders := seeders, leechers := leechers }
    else tc

variable {rows : List SourceRow} {count : SourceRow → Option Int}

theorem foldl_best (hcount : ∀ r ∈ rows, ∀ c, count r = some c → 0 ≤ c) :
    rows.foldl (fun best r =>
      match count r with
      | some c => some (if best.getD 0 < c then c else best.getD 0)
      | none => best) none = (rows.filterMap count).max? := by
  induction rows using List.reverseRecOn with
  | nil => rfl
  | append_singleton rows r ih =>
    rw [foldl_append, ih fun r hr => hcount r (mem_append_left _ hr), filterMap_append]
    cases hr : count r with
    | none => simp [hr]
    | some c =>
      simp only [foldl_cons, foldl_nil, hr, filterMap_cons, filterMap_nil, max?_concat (hcount r (by simp) c hr)]
      congr 1
      grind

theorem findSome?_tracker (hone : (rows.map (·.source)).Nodup) :
    (rows.findSome? fun r => if r.source = sourceKeyTracker then count r else none) =
      maxWhere (·.source == sourceKeyTracker) count rows := by
  induction rows with
  | nil => rfl
  | cons r rows ih => grind [maxWhere, filter_eq_nil_iff]

theorem maxWhere_perm {p : SourceRow → Bool} {rows' : List SourceRow} (h : rows.Perm rows') :
    maxWhere p count rows = maxWhere p count rows' := by
  have hperm := (h.filter p).filterMap count
  unfold maxWhere
  cases hl : ((rows'.filter p).filterMap count).max? with
  | none => simpa [max?_eq_none_iff.mp hl] using hperm
  | some m => grind [max?_eq_some_iff]

theorem bestCount_eq (sources : Table SourceRow.key) {h : Hash} (count : SourceRow → Option Int)
    (hcount : ∀ r ∈ sources.rows, ∀ c, count r = some c → 0 ≤ c)
    (hrows : rows.Perm (sources.rows.filter fun r => r.infoHash == h)) :
    bestCount count rows = aggregate sources h count := by
  have hmem : ∀ r ∈ rows, r ∈ sources.rows ∧ r.infoHash = h := by
    intro r hr
    simpa using hrows.mem_iff.mp hr
  have hone : (rows.map (·.source)).Nodup := by
    refine List.Nodup.of_map (fun source => (h, source)) ?_
    rw [map_map]
    have hkeys := ((filter_sublist (p := fun r => r.infoHash == h)).map SourceRow.key).nodup sources.nodup
    have hperm := (hrows.map SourceRow.key).nodup_iff.mpr hkeys
    rwa [map_congr_left fun r hr => show _ = SourceRow.key r by simp [SourceRow.key, (hmem r hr).2]]
  unfold bestCount aggregate
  dsimp only
  rw [findSome?_tracker hone, ← maxWhere_perm hrows, ← maxWhere_perm hrows,
    foldl_best fun r hr => hcount r (hmem r hr).1]
  cases htracker : maxWhere (·.source == sourceKeyTracker) count rows with
  | some c => rfl
  | none =>
    -- the tracker rows have no count, so the second pass counts the others
    unfold maxWhere at htracker ⊢
    have hnone := filterMap_eq_nil_iff.mp (max?_eq_none_iff.mp htracker)
    rw [Option.none_or, filterMap_filter]
    refine congrArg List.max? (filterMap_congr fun r hr => ?_)
    have hr' := hnone r
    simp only [mem_filter, beq_iff_eq] at hr'
    by_cases hsource : r.source = sourceKeyTracker
    · simp [hsource, hr' ⟨hr, hsource⟩]
    · simp [hsource]

/-- **The batch update writes what the Go code computes**: a row of the batch gets the counts of `Torrent.Seeders` and
`Torrent.Leechers`, in whatever order the sources were loaded, and other rows stay. -/
theorem sync_writes_best_counts (sources : Table SourceRow.key)
    (hunsigned : ∀ r ∈ sources.rows, ∀ c, r.seeders = some c ∨ r.leechers = some c → 0 ≤ c)
    (batch : List Hash) (contents : List ContentRow) (loaded : Hash → List SourceRow)
    (hloaded : ∀ h, (loaded h).Perm (sources.rows.filter fun r => r.infoHash == h)) :
    denormSync sources batch contents = contents.map fun tc =>
      if tc.infoHash ∈ batch then
        { tc with seeders := bestCount (·.seeders) (loaded tc.infoHash),
                  leechers := bestCount (·.leechers) (loaded tc.infoHash) }
      else tc := by
  refine map_congr_left fun tc _ => ?_
  have hseeders := bestCount_eq sources (·.seeders) (fun r hr c hc => hunsigned r hr c (.inl hc)) (hloaded tc.infoHash)
  have hleechers := bestCount_eq sources (·.leechers) (fun r hr c hc => hunsigned r hr c (.inr hc))
    (hloaded tc.infoHash)
  rw [hseeders, hleechers]
  generalize aggregate sources tc.infoHash (·.seeders) = seeders
  generalize aggregate sources tc.infoHash (·.leechers) = leechers
  obtain ⟨id, infoHash, own, own'⟩ := tc
  grind

def mixedSources : Table SourceRow.key where
  rows := [⟨[1], "dht", some 4, some 2⟩, ⟨[1], "tracker", none, some 0⟩]
  nodup := by decide

theorem sync_mixedSources :
    denormSync mixedSources [[1], [2]] [⟨"a", [1], none, none⟩, ⟨"b", [2], some 9, none⟩, ⟨"c", [3], some 1, none⟩]
      = [⟨"a", [1], some 4, some 0⟩, ⟨"b", [2], none, none⟩, ⟨"c", [3], some 1, none⟩] :=
  sync_writes_best_counts mixedSources (by simp only [mixedSources, forall_mem_cons]; grind) _ _
    (fun h => mixedSources.rows.filter fun r => r.infoHash == h) fun _ => .refl _

end BitAgent.Seeds
