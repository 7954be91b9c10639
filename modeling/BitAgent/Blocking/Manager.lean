/-
# Blocking.Manager — the blocking manager

`internal/blocking/manager.go`. `Block` removes the torrents through the recovery store and then buffers the
hashes, which `flush` adds to the bloom filter; `Filter` lets the recovery store override both. The bloom filter
is an exact set, and a call under the mutex one step. Database errors are left out.
-/
import BitAgent.Cataloguerecovery.Removal

namespace BitAgent.Blocking

open Lib Metainfo Verdicts Cataloguerecovery

attribute [local instance] decidableMem

/-! ## The manager -/

/-- `protocol.ID`. -/
abbrev ProtocolID := { h : ID // h.length = 20 }

/-- What `time.Now` returns: never the zero time. -/
abbrev Instant := { t : Time // t ≠ 0 }

/-- A store that `WithRecovery` attaches: it must be enabled. -/
abbrev EnabledStore := { store : Store // store.cfg.enabled = true }

/-- `manager`, with the bloom filter that it last read. -/
structure Manager where
  recovery : Option EnabledStore
  buffer : List ProtocolID
  filter : Option (List ProtocolID)
  maxBufferSize : Nat
  lastFlushedAt : Time
  maxFlushWait : Int

/-- `New`, before its first use; `WithRecovery` attaches a store then. -/
def newManager (recovery : Option EnabledStore) : Manager where
  recovery := recovery
  buffer := []
  filter := none
  maxBufferSize := 1000
  lastFlushedAt := 0
  maxFlushWait := 5 * 60 * 1000000000

/-- The manager with the database, and the bloom filter in it. -/
structure System where
  manager : Manager
  db : Database
  bloom : List ProtocolID

variable (pg : Platform)

def Manager.shouldFlush (m : Manager) (now : Instant) : Bool :=
  decide (m.buffer.length ≥ m.maxBufferSize) || decide (now - m.lastFlushedAt ≥ m.maxFlushWait)

def flush (s : System) (now : Instant) : Except RecoveryError System :=
  if s.manager.buffer ≠ [] ∧ s.manager.recovery = none then .error .disabled
  else
    let bf := s.manager.buffer ++ s.bloom
    .ok
      { s with
        manager := { s.manager with buffer := [], filter := some bf, lastFlushedAt := now }
        bloom := bf }

/-- `Flush`. -/
def flushBuffered (s : System) (now : Instant) : Except RecoveryError System :=
  if s.manager.buffer = [] then .ok s else flush s now

def removeBlocked (s : System) (hashes : List ProtocolID) (mechanism reason : String)
    (now : Instant) : Except RecoveryError Database :=
  if hashes = [] then .ok s.db
  else
    match s.manager.recovery with
    | none => .error .disabled
    | some store => (removeBatch pg store.val s.db (hashes.map Subtype.val) mechanism reason now).map Prod.snd

/-- `Block`. The removal is committed even if the flush after it is refused. -/
def block (s : System) (hashes : List ProtocolID) (mechanism reason : String) (doFlush : Bool)
    (now : Instant) : System × Except RecoveryError Unit :=
  match removeBlocked pg s hashes mechanism reason now with
  | .error e => (s, .error e)
  | .ok db =>
    let s := { s with
      manager := { s.manager with buffer := hashes.foldl (fun b h => b.insert h) s.manager.buffer }
      db := db }
    if doFlush || s.manager.shouldFlush now then
      match flush s now with
      | .error e => (s, .error e)
      | .ok s => (s, .ok ())
    else (s, .ok ())

/-- The part of `Filter` before the store is asked. -/
def bloomKept (s : System) (hashes : List ProtocolID) : List ProtocolID :=
  hashes.filter fun h => !decide (h ∈ s.manager.buffer) && !decide (h ∈ s.manager.filter.getD [])

def filter (s : System) (hashes : List ProtocolID) (now : Instant) : System × Except RecoveryError (List ProtocolID) :=
  match if s.manager.filter.isNone || s.manager.shouldFlush now then flush s now else .ok s with
  | .error e => (s, .error e)
  | .ok s =>
    let kept := bloomKept s hashes
    match s.manager.recovery with
    | none => (s, .ok kept)
    | some store =>
      match Cataloguerecovery.filter pg store.val s.db (hashes.map Subtype.val)
          (kept.map Subtype.val) with
      | .error e => (s, .error e)
      | .ok recovered => (s, .ok (hashes.filter fun h => decide (h.val ∈ recovered)))

/-! ## What `Block` does -/

section
variable {pg : Platform} {s : System} {store : EnabledStore} {hashes : List ProtocolID}
  {mechanism reason : String} {now : Instant}

theorem flush_ok (now : Instant) (hrecovery : s.manager.recovery = some store) :
    ∃ s', flush s now = .ok s' ∧ s'.db = s.db ∧ s'.manager.recovery = some store := by
  refine ⟨_, if_neg fun h => ?_, rfl, hrecovery⟩
  rw [hrecovery] at h
  exact Option.some_ne_none store h.2

theorem block_ok (hrecovery : s.manager.recovery = some store) (hne : hashes ≠ [])
    {snaps : List Snapshot} {db : Database}
    (hremove : removeBatch pg store.val s.db (hashes.map Subtype.val) mechanism reason now =
      .ok (snaps, db)) (doFlush : Bool) :
    ∃ s', block pg s hashes mechanism reason doFlush now = (s', .ok ()) ∧ s'.db = db ∧
      s'.manager.recovery = some store := by
  have hblocked : removeBlocked pg s hashes mechanism reason now = .ok db := by
    unfold removeBlocked
    rw [if_neg hne, hrecovery]
    simp only [hremove]
    rfl
  unfold block
  rw [hblocked]
  dsimp only
  split_ifs
  · obtain ⟨s', hflush, hdb, hrec⟩ := flush_ok (s := System.mk
      { s.manager with buffer := hashes.foldl (fun b h => b.insert h) s.manager.buffer } db s.bloom)
      now hrecovery
    exact ⟨s', by rw [hflush], hdb, hrec⟩
  · exact ⟨_, rfl, rfl, hrecovery⟩

theorem block_error (hrecovery : s.manager.recovery = some store) (hne : hashes ≠ [])
    (hremove : ∀ out, removeBatch pg store.val s.db (hashes.map Subtype.val) mechanism reason now ≠
      .ok out) (doFlush : Bool) :
    ∃ e, block pg s hashes mechanism reason doFlush now = (s, .error e) := by
  cases hresult : removeBatch pg store.val s.db (hashes.map Subtype.val) mechanism reason now with
  | ok out => exact absurd hresult (hremove out)
  | error e =>
    have hblocked : removeBlocked pg s hashes mechanism reason now = .error e := by
      unfold removeBlocked
      rw [if_neg hne, hrecovery]
      simp only [hresult]
      rfl
    exact ⟨e, by unfold block; rw [hblocked]⟩

/-! ## What the calls leave alone -/

theorem flush_frame {s' : System} (h : flush s now = .ok s') :
    s'.db = s.db ∧ s'.manager.recovery = s.manager.recovery := by grind [flush]

theorem flushBuffered_frame {s' : System} (h : flushBuffered s now = .ok s') :
    s'.db = s.db ∧ s'.manager.recovery = s.manager.recovery := by grind [flushBuffered, flush_frame]

theorem removeBlocked_ok {db : Database} (h : removeBlocked pg s hashes mechanism reason now = .ok db) :
    (hashes = [] ∧ db = s.db) ∨ ∃ store snaps, s.manager.recovery = some store ∧
      removeBatch pg store.val s.db (hashes.map Subtype.val) mechanism reason now = .ok (snaps, db) := by
  unfold removeBlocked at h
  split_ifs at h with hnil
  · exact .inl ⟨hnil, (Except.ok.inj h).symm⟩
  · cases hrecovery : s.manager.recovery with
    | none => simp [hrecovery] at h
    | some store =>
      simp only [hrecovery] at h
      cases hremove : removeBatch pg store.val s.db (hashes.map Subtype.val) mechanism reason
          now with
      | error e =>
        rw [hremove] at h
        cases h
      | ok out =>
        rw [hremove] at h
        cases h
        exact .inr ⟨store, out.1, rfl, hremove⟩

theorem block_frame (pg : Platform) (s : System) (hashes : List ProtocolID)
    (mechanism reason : String) (doFlush : Bool) (now : Instant) :
    (block pg s hashes mechanism reason doFlush now).1.manager.recovery = s.manager.recovery ∧
      match removeBlocked pg s hashes mechanism reason now with
      | .ok db => (block pg s hashes mechanism reason doFlush now).1.db = db
      | .error e => block pg s hashes mechanism reason doFlush now = (s, .error e) := by
  grind [block, flush]

theorem filter_frame (pg : Platform) (s : System) (hashes : List ProtocolID) (now : Instant) :
    (filter pg s hashes now).1.db = s.db ∧ (filter pg s hashes now).1.manager.recovery = s.manager.recovery ∧
      ∀ kept, (filter pg s hashes now).2 = .ok kept → s.manager.recovery.isSome →
        ∀ hash ∈ kept, ∃ bloomKept, keeps pg s.db bloomKept hash.val = true := by
  have hflushed : ∀ s', (if s.manager.filter.isNone || s.manager.shouldFlush now then flush s now
      else .ok s) = .ok s' → s'.db = s.db ∧ s'.manager.recovery = s.manager.recovery := by
    grind [flush_frame]
  unfold filter
  generalize (if s.manager.filter.isNone || s.manager.shouldFlush now then flush s now
    else .ok s) = flushed at hflushed ⊢
  cases flushed with
  | error e => exact ⟨rfl, rfl, fun kept h => by cases h⟩
  | ok s' =>
    obtain ⟨hdb, hrec⟩ := hflushed s' rfl
    rw [← hdb, ← hrec]
    cases hrecovery : s'.manager.recovery with
    | none => grind
    | some store =>
      cases hfilter : Cataloguerecovery.filter pg store.val s'.db (hashes.map Subtype.val)
        ((bloomKept s' hashes).map Subtype.val) with
      | error e => grind
      | ok recovered =>
        simp only [hrecovery, hfilter]
        refine ⟨trivial, trivial, ?_⟩
        intro kept h _ hash hmem
        cases h
        have hin : hash.val ∈ recovered := of_decide_eq_true (List.mem_filter.mp hmem).2
        unfold Cataloguerecovery.filter at hfilter
        simp only [reject_bind_eq_ok] at hfilter
        obtain rfl := Except.ok.inj hfilter.2.2
        exact ⟨_, (List.mem_filter.mp hin).2⟩

end

end BitAgent.Blocking
