/-
# Dhtcrawler.BanCheck — what becomes of a hash that the ban checker rejected

A rejection reaches later triage on two ways. The blocking manager, unless it refuses the hash, leaves a removal as
its last snapshot, and triage drops the hash until a restoration. The verdict is consulted by a live reader whose
lookup succeeds, until a verdict readmits the hash. `step_restricts` lists what an action can change.
-/
import BitAgent.Dhtcrawler.Triage

namespace BitAgent.Dhtcrawler

open Lib Metainfo Verdicts Cataloguerecovery Blocking List
open Relation (ReflTransGen)

variable {c : Crawler} {pg : Platform} {s : System} {hash : ProtocolID}

/-! ## What an action changes -/

theorem recordVerdict_restricts (db : Database) (mechanism reason : String)
    (evidence : Option Evidence) (written : Bool) :
    Restricts pg db (recordVerdict c db hash mechanism reason evidence written) := by
  unfold recordVerdict
  split_ifs
  · exact .verdict _ (mem_cons_of_mem _ mem_cons_self) rfl rfl
  · exact .elsewhere rfl rfl

theorem recordCsamRejects_restricts (removed : List ProtocolID) (db : Database) (site : String) (written : Bool) :
    ReflTransGen (Restricts pg) db (recordCsamRejects c db removed site written) := by
  induction removed generalizing db with
  | nil => exact .refl
  | cons first rest ih => exact .head (recordVerdict_restricts db _ _ _ written) (ih _)

theorem block_restricts (hashes : List ProtocolID) (mechanism reason : String) (doFlush : Bool) (now : Instant) :
    Restricts pg s.db (block pg s hashes mechanism reason doFlush now).1.db := by
  obtain ⟨-, hframe⟩ := block_frame pg s hashes mechanism reason doFlush now
  cases hremove : removeBlocked pg s hashes mechanism reason now with
  | error e =>
    simp only [hremove] at hframe
    rw [hframe]
    exact .elsewhere rfl rfl
  | ok db =>
    simp only [hremove] at hframe
    rw [hframe]
    rcases removeBlocked_ok hremove with ⟨-, rfl⟩ | ⟨store, snaps, -, hbatch⟩
    · exact .elsewhere rfl rfl
    · exact .removal _ _ _ _ _ _ hbatch

variable {hashes : List ProtocolID}

theorem mem_of_mem_unjudged {b : Batch} {db : Database} (h : hash ∈ unjudged c b db hashes) :
    hash ∈ hashes := by grind [unjudged]

theorem not_judged_of_mem_unjudged {b : Batch} {db : Database} (h : hash ∈ unjudged c b db hashes)
    (hlive : (c.verdicts && b.lookedUp && c.verdictsLive) = true) : ¬Judged db hash.val := by
  intro hj
  have hblocked := hj.mem_blockedSet (mem_map_of_mem (f := Subtype.val) (mem_of_mem_unjudged h))
  grind [unjudged]

theorem triage_spec (b : Batch) : ReflTransGen (Restricts pg) s.db (triage c pg s b).1.db ∧
      (triage c pg s b).1.manager.recovery = s.manager.recovery ∧
      ∀ hash ∈ (triage c pg s b).2, (s.manager.recovery.isSome → ¬Blocked (triage c pg s b).1.db hash.val) ∧
        ((c.verdicts && b.lookedUp && c.verdictsLive) = true → ¬Judged (triage c pg s b).1.db hash.val) := by
  have hrecorded : ReflTransGen (Restricts pg) s.db (recordCsamRejects c s.db
      ((allHashes c b.reqs).filter b.csamBlocked) "triage" b.recorded) :=
    recordCsamRejects_restricts _ s.db "triage" b.recorded
  unfold triage
  dsimp only
  generalize recordCsamRejects c s.db _ "triage" b.recorded = db at hrecorded ⊢
  generalize (allHashes c b.reqs).filter _ = hashes
  obtain ⟨hdb, hrec, hkept⟩ := filter_frame pg { s with db := db } hashes b.now
  generalize Blocking.filter pg { s with db := db } hashes b.now = out at hdb hrec hkept ⊢
  obtain ⟨s', result⟩ := out
  dsimp only at hdb hrec hkept
  cases result with
  | error e => grind
  | ok filtered =>
    dsimp only
    split_ifs
    · refine ⟨hdb ▸ hrecorded, hrec, ?_⟩
      intro hash hmem
      have hmem := (mem_filter.mp hmem).1
      constructor
      · intro hsome hblocked
        obtain ⟨kept, hkeeps⟩ := hkept filtered rfl hsome hash (mem_of_mem_unjudged hmem)
        rw [hdb] at hblocked
        rw [hblocked.keeps kept] at hkeeps
        cases hkeeps
      · exact not_judged_of_mem_unjudged hmem
    · grind

theorem step_restricts (a : Action) (hrestore : ∀ store id now, a ≠ .restore store id now)
    (hrecord : ∀ ev, a ≠ .record ev) :
    ReflTransGen (Restricts pg) s.db (step c pg s a).db := by
  cases a with
  | triage b => exact (triage_spec b).1
  | banRejected hash written now =>
    exact .tail (.single (block_restricts [hash] mechanismCsam "csam_crawler" false now))
      (recordVerdict_restricts _ _ _ _ _)
  | block hashes mechanism reason doFlush now => exact .single (block_restricts hashes mechanism reason doFlush now)
  | flush now =>
    simp only [step]
    grind [flushBuffered_frame]
  | remove store hashes mechanism reason now =>
    show ReflTransGen _ _ (committed s.db (removeBatch pg store s.db hashes mechanism reason now))
    cases hremove : removeBatch pg store s.db hashes mechanism reason now with
    | error e => exact .refl
    | ok out => exact .single (.removal _ _ _ _ _ _ hremove)
  | restore store id now => exact absurd rfl (hrestore store id now)
  | record ev => exact absurd rfl (hrecord ev)
  | write tables => exact .single (.elsewhere rfl rfl)
  | restart => exact .refl

theorem step_recovery (hs : s.manager.recovery = c.recovery) (a : Action) :
    (step c pg s a).manager.recovery = c.recovery := by
  cases a with
  | triage b => exact (triage_spec b).2.1.trans hs
  | banRejected hash written now => exact (block_frame pg s [hash] mechanismCsam "csam_crawler" false now).1.trans hs
  | block hashes mechanism reason doFlush now => exact (block_frame pg s hashes mechanism reason doFlush now).1.trans hs
  | flush now =>
    simp only [step]
    cases hflush : flushBuffered s now with
    | error e => exact hs
    | ok s' => exact (flushBuffered_frame hflush).2.trans hs
  | restart => rfl
  | _ => exact hs

theorem restore_committed (store : Store) (id : Int) (now : Time) : (step c pg s (.restore store id now)).db = s.db ∨
      ∃ row cat, s.db.snapshots.get? row.id = some row ∧
        (step c pg s (.restore store id now)).db = commitRestore s.db row now cat ∧
        ∀ hash : ProtocolID, row.infoHash = hash.val → Restores pg s (.restore store id now) hash := by
  show committed s.db (restore pg store s.db id now) = _ ∨ _
  cases hrestore : restore pg store s.db id now with
  | error e => exact .inl rfl
  | ok out =>
    obtain ⟨restored, db'⟩ := out
    rcases restore_cases hrestore with ⟨-, rfl⟩ | ⟨row, cat, rfl, hget, -, -, hdb⟩
    · exact .inl rfl
    · have hid : row.id = id.toNat := Serial.get?_key hget
      refine .inr ⟨row, cat, hid ▸ hget, ?_, ?_⟩
      · show committed s.db (restore pg store s.db id now) = _
        rw [hrestore]
        exact hdb
      · intro hash hhash
        exact ⟨store, id, now, db', row, rfl, hrestore, hget, hhash⟩

theorem record_written (ev : Event) : (step c pg s (.record ev)).db = s.db ∨
      (step c pg s (.record ev)).db = { s.db with ledger := s.db.ledger.write ev } := by
  show ({ s.db with ledger := (s.db.ledger.recordTx ev).getD s.db.ledger } : Database) = _ ∨
    ({ s.db with ledger := (s.db.ledger.recordTx ev).getD s.db.ledger } : Database) = _
  unfold Ledger.recordTx
  split_ifs
  · exact .inl rfl
  · exact .inr rfl

/-! ## What an action keeps -/

structure Sound (c : Crawler) (s : System) : Prop where
  recovery : s.manager.recovery = c.recovery
  ordered : Ordered s.db

theorem deployed_sound (db : Database) (bloom : List ProtocolID) : Sound c (deployed c db bloom) where
  recovery := rfl
  ordered :=
    { bound := fun _ h => absurd h not_mem_nil
      increasing := fun _ h => absurd h not_mem_nil }

theorem Sound.step (hs : Sound c s) (a : Action) : Sound c (step c pg s a) := by
  refine ⟨step_recovery hs.recovery a, ?_⟩
  cases a with
  | restore store id now =>
    rcases restore_committed (c := c) store id now with hsame | ⟨row, cat, -, hdb, -⟩
    · rw [hsame]
      exact hs.ordered
    · rw [hdb]
      exact hs.ordered.commitRestore row now cat
  | record ev =>
    rcases record_written (c := c) (s := s) ev with hsame | hdb
    · rw [hsame]
      exact hs.ordered
    · rw [hdb]
      exact hs.ordered.verdict rfl rfl
  | _ =>
    exact (restricts_chain_keeps (step_restricts _ (fun _ _ _ h => by cases h) (fun _ h => by cases h)) hs.ordered).1

theorem Sound.blocked_step (hs : Sound c s) (hb : Blocked s.db hash.val) (a : Action) :
    Blocked (Dhtcrawler.step c pg s a).db hash.val ∨ Restores pg s a hash := by
  cases a with
  | restore store id now =>
    rcases restore_committed (c := c) store id now with hsame | ⟨row, cat, hget, hdb, hrestores⟩
    · rw [hsame]
      exact .inl hb
    · by_cases hhash : row.infoHash = hash.val
      · exact .inr (hrestores hash hhash)
      · rw [hdb]
        exact .inl (hb.commitRestore hget hhash now cat)
  | record ev => grind [record_written, blocked_congr]
  | _ =>
    exact .inl ((restricts_chain_keeps
      (step_restricts _ (fun _ _ _ h => by cases h) (fun _ h => by cases h)) hs.ordered).2.1 _ hb)

theorem Sound.judged_step (hs : Sound c s) (hj : Judged s.db hash.val) (a : Action) :
    Judged (Dhtcrawler.step c pg s a).db hash.val ∨ Restores pg s a hash ∨ Readmits a hash := by
  cases a with
  | restore store id now =>
    rcases restore_committed (c := c) store id now with hsame | ⟨row, cat, -, hdb, hrestores⟩
    · rw [hsame]
      exact .inl hj
    · by_cases hhash : row.infoHash = hash.val
      · exact .inr (.inl (hrestores hash hhash))
      · have hne : ¬(restoration row).infoHash = hash.val := hhash
        grind [judged_write, commitRestore_ledger]
  | record ev =>
    rcases record_written (c := c) (s := s) ev with hsame | hdb
    · rw [hsame]
      exact .inl hj
    · rw [hdb, judged_write rfl]
      split_ifs with hhash
      · by_cases hblocking : ev.verdict ∈ blockingVerdicts
        · exact .inl hblocking
        · exact .inr (.inr ⟨ev, rfl, hhash, hblocking⟩)
      · exact .inl hj
  | _ =>
    exact .inl ((restricts_chain_keeps
      (step_restricts _ (fun _ _ _ h => by cases h) (fun _ h => by cases h)) hs.ordered).2.2 _ hj)

theorem block_accepted {now : Instant}
    (haccepted : (block pg s [hash] mechanismCsam "csam_crawler" false now).2 = .ok ()) :
    ∃ store snaps, s.manager.recovery = some store ∧
      removeBatch pg store.val s.db [hash.val] mechanismCsam "csam_crawler" now =
        .ok (snaps, (block pg s [hash] mechanismCsam "csam_crawler" false now).1.db) := by
  grind [block_frame, removeBlocked, removeBlocked_ok]

theorem Sound.banRejected_blocked (hs : Sound c s) {written : Bool} {now : Instant}
    (haccepted : (block pg s [hash] mechanismCsam "csam_crawler" false now).2 = .ok ()) :
    Blocked (banRejected c pg s hash written now).db hash.val := by
  obtain ⟨store, snaps, -, hbatch⟩ := block_accepted haccepted
  obtain ⟨hordered, hblocked⟩ := removeBatch_history hs.ordered hbatch
  have hrecord : Restricts pg (block pg s [hash] mechanismCsam "csam_crawler" false now).1.db
      (banRejected c pg s hash written now).db :=
    recordVerdict_restricts _ _ _ _ _
  exact (hrecord.keeps hordered).2.1 _ (hblocked hash.val (.inl mem_cons_self))

theorem banRejected_judged (hverdicts : c.verdicts = true) (now : Instant) :
    Judged (banRejected c pg s hash true now).db hash.val := by
  unfold banRejected recordBlockingVerdict recordVerdict
  rw [hverdicts]
  refine (judged_write rfl).mpr ?_
  rw [if_pos rfl]
  exact mem_cons_of_mem _ mem_cons_self

/-! ## Whole runs -/

section
variable {db : Database} {bloom : List ProtocolID} {schedule : Nat → Action}

theorem systemAt_sound (k : Nat) : Sound c (systemAt c pg db bloom schedule k) :=
  Run.stateAt_invariant _ (deployed_sound db bloom) (fun _ a hs => hs.step a) schedule k

/-- The block of action `i` is accepted, and no restoration commits before action `k`. -/
def BlockHolds (c : Crawler) (pg : Platform) (db : Database) (bloom : List ProtocolID)
    (schedule : Nat → Action) (hash : ProtocolID) (now : Instant) (i k : Nat) : Prop :=
  (block pg (systemAt c pg db bloom schedule i) [hash] mechanismCsam "csam_crawler" false now).2 = .ok () ∧
  ∀ j, i < j → j < k → ¬Restores pg (systemAt c pg db bloom schedule j) (schedule j) hash

/-- The verdict of action `i` is written, the reader answers at action `k`, and nothing readmits the hash in between.
-/
def VerdictHolds (c : Crawler) (pg : Platform) (db : Database) (bloom : List ProtocolID)
    (schedule : Nat → Action) (hash : ProtocolID) (written : Bool) (i k : Nat) : Prop :=
  c.verdicts = true ∧ c.verdictsLive = true ∧ written = true ∧
  (∀ b, schedule k = .triage b → b.lookedUp = true) ∧
  ∀ j, i < j → j < k → ¬Restores pg (systemAt c pg db bloom schedule j) (schedule j) hash ∧ ¬Readmits (schedule j) hash

section
variable {hash : ProtocolID} {written : Bool} {now : Instant} {i k : Nat}

theorem systemAt_banRejected (hban : schedule i = .banRejected hash written now) :
    systemAt c pg db bloom schedule (i + 1) =
      banRejected c pg (systemAt c pg db bloom schedule i) hash written now := by
  show step c pg (systemAt c pg db bloom schedule i) (schedule i) = _
  rw [hban]
  rfl

theorem BlockHolds.blocked (h : BlockHolds c pg db bloom schedule hash now i k)
    (hban : schedule i = .banRejected hash written now) (hik : i < k) :
    Blocked (systemAt c pg db bloom schedule k).db hash.val := by
  obtain ⟨haccepted, hnone⟩ := h
  have hfirst : Blocked (systemAt c pg db bloom schedule (i + 1)).db hash.val := by
    rw [systemAt_banRejected hban]
    exact (systemAt_sound i).banRejected_blocked haccepted
  have hstep : ∀ j, Blocked (systemAt c pg db bloom schedule j).db hash.val →
      Blocked (systemAt c pg db bloom schedule (j + 1)).db hash.val ∨
        Restores pg (systemAt c pg db bloom schedule j) (schedule j) hash :=
    fun j hb => (systemAt_sound j).blocked_step hb (schedule j)
  rcases Run.persists_until hstep hik hfirst with hk | ⟨j, hij, hjk, hrestores⟩
  · exact hk
  · exact absurd hrestores (hnone j hij hjk)

theorem VerdictHolds.judged (h : VerdictHolds c pg db bloom schedule hash written i k)
    (hban : schedule i = .banRejected hash written now) (hik : i < k) :
    Judged (systemAt c pg db bloom schedule k).db hash.val := by
  obtain ⟨hverdicts, -, rfl, -, hnone⟩ := h
  have hfirst : Judged (systemAt c pg db bloom schedule (i + 1)).db hash.val := by
    rw [systemAt_banRejected hban]
    exact banRejected_judged hverdicts now
  have hstep : ∀ j, Judged (systemAt c pg db bloom schedule j).db hash.val →
      Judged (systemAt c pg db bloom schedule (j + 1)).db hash.val ∨
        Restores pg (systemAt c pg db bloom schedule j) (schedule j) hash ∨
        Readmits (schedule j) hash :=
    fun j hj => (systemAt_sound j).judged_step hj (schedule j)
  rcases Run.persists_until hstep hik hfirst with hk | ⟨j, hij, hjk, hends⟩
  · exact hk
  · grind

/-- **A rejection that holds is final**: the hash is not routed to a metadata fetch while the block or the verdict
holds. -/
theorem ban_rejected_not_routed (hban : schedule i = .banRejected hash written now) (hik : i < k)
    (hholds : BlockHolds c pg db bloom schedule hash now i k ∨ VerdictHolds c pg db bloom schedule hash written i k) :
    hash ∉ routed c pg (systemAt c pg db bloom schedule k) (schedule k) := by
  intro hrouted
  cases haction : schedule k with
  | triage b =>
    rw [haction] at hrouted
    obtain ⟨hchain, -, hspec⟩ := triage_spec (c := c) (s := systemAt c pg db bloom schedule k) b
    obtain ⟨-, hblocks, hjudges⟩ := restricts_chain_keeps hchain (systemAt_sound k).ordered
    obtain ⟨hstore, hreader⟩ := hspec hash hrouted
    rcases hholds with hblock | hverdict
    · obtain ⟨store, -, hrecovery, -⟩ := block_accepted hblock.1
      have hsome : (systemAt c pg db bloom schedule k).manager.recovery.isSome := by
        rw [(systemAt_sound k).recovery, ← (systemAt_sound i).recovery, hrecovery]
        rfl
      exact hstore hsome (hblocks _ (hblock.blocked hban hik))
    · have hlive : (c.verdicts && b.lookedUp && c.verdictsLive) = true := by
        rw [hverdict.1, hverdict.2.1, hverdict.2.2.2.1 b haction]
        rfl
      exact hreader hlive (hjudges _ (hverdict.judged hban hik))
  | _ =>
    rw [haction] at hrouted
    exact absurd hrouted List.not_mem_nil

end

end

/-! ## A hash that is fetched again -/

def shadowCrawler (recovery : Option EnabledStore) : Crawler where
  recovery := recovery
  verdicts := true
  verdictsLive := false
  excludesHash := fun _ => false
  eligible := fun _ _ => true
  saveFilesThreshold := 100

/-- The hash `7 7 … 7`. -/
def bannedHash : ProtocolID := ⟨sampleHash 7, rfl⟩

def bannedBatch (now : Instant) : Batch where
  reqs := [bannedHash]
  csamBlocked := fun _ => false
  recorded := true
  lookedUp := true
  searched := true
  now := now

/-- The hash is discovered and rejected, and discovered again after a restart. -/
def bannedRun : Nat → Action
  | 0 => .triage (bannedBatch ⟨1, by decide⟩)
  | 1 => .banRejected bannedHash true ⟨2, by decide⟩
  | 2 => .restart
  | _ => .triage (bannedBatch ⟨3, by decide⟩)

/-- The torrent is in the catalogue, so that the store captures it: the block is accepted. -/
theorem captured_ban_not_routed : bannedHash ∉ routed (shadowCrawler (some ⟨sampleStore, rfl⟩)) samplePlatform
      (systemAt (shadowCrawler (some ⟨sampleStore, rfl⟩)) samplePlatform
        (sampleDatabase sampleCatalogue) [] bannedRun 3) (bannedRun 3) := by
  refine ban_rejected_not_routed (i := 1) rfl (by decide) (.inl ⟨by decide +kernel, ?_⟩)
  intro j hij hjk hrestores
  obtain rfl : j = 2 := by omega
  obtain ⟨store, id, now, db', row, hrestore, -⟩ := hrestores
  cases hrestore

/-- A hash never in the catalogue is refused, with or without a store, and fetched again. -/
theorem uncaptured_ban_routed_again : bannedRun 1 = .banRejected bannedHash true ⟨2, by decide⟩ ∧
    (bannedHash ∈ routed (shadowCrawler none) samplePlatform
      (systemAt (shadowCrawler none) samplePlatform (sampleDatabase .empty) [] bannedRun 3)
      (bannedRun 3)) ∧
    (bannedHash ∈ routed (shadowCrawler (some ⟨sampleStore, rfl⟩)) samplePlatform
      (systemAt (shadowCrawler (some ⟨sampleStore, rfl⟩)) samplePlatform (sampleDatabase .empty) []
        bannedRun 3) (bannedRun 3)) := by
  refine ⟨rfl, ?_, ?_⟩
  · decide +kernel
  · decide +kernel

end BitAgent.Dhtcrawler
