/-
# Evidence.LivenessRows — what becomes of a row

What a lookup finds after each statement, and from it what a step of remote origin can do to a row (`RemoteEffect`).
A row that is dead without a time of revalidation is left so by every such step: the statements of the revalidator do
not ask for a time, but it only looks up torrents that had one.
-/
import BitAgent.Evidence.Liveness

namespace BitAgent.Liveness

open Lib LabelEvidence List
open Priors (Lowering)

/-! ## Lookups -/

variable (t : Rows)

theorem get?_markAlive (hash : InfoHash) (observedAt : Time) (qbState source : String) (k : InfoHash) :
    (markAlive t hash observedAt qbState source).get? k =
      if hash = k then some (aliveRow hash observedAt qbState source) else t.get? k :=
  t.get?_upsert _ k

variable {hash : InfoHash} {old : Option Record}

theorem infoHash_suspectRow (hold : ∀ r ∈ old, r.infoHash = hash) (observedAt : Time) (qbState : String) :
    (suspectRow old hash observedAt qbState).infoHash = hash := by
  cases old with
  | none => rfl
  | some r => exact hold r rfl

theorem get?_recordSuspect (hash : InfoHash) (observedAt : Time) (qbState : String) (k : InfoHash) :
    (recordSuspect t hash observedAt qbState).1.get? k =
      if hash = k then some (suspectRow (t.get? hash) hash observedAt qbState) else t.get? k := by
  have hkey := infoHash_suspectRow (fun r (hr : t.get? hash = some r) => Table.get?_key hr) observedAt qbState
  refine (t.get?_upsert _ k).trans ?_
  rw [hkey]

theorem get?_markDead (hash : InfoHash) (blacklistedAt ttl : Time) (k : InfoHash) :
    (markDead t hash blacklistedAt ttl).get? k = (t.get? k).map fun r =>
      if hash = k then { r with
        status := .dead, blacklistedAt := some blacklistedAt, nextRevalidateAt := some (blacklistedAt + ttl) }
      else r := by
  refine t.get?_update_iff (by intro _; rfl) k ?_
  rintro r rfl
  rw [beq_iff_eq, eq_comm]

theorem get?_rearmRevalidate (hash : InfoHash) (now ttl : Time) (k : InfoHash) :
    (rearmRevalidate t hash now ttl).get? k = (t.get? k).map fun r =>
      if hash = k ∧ r.status = .dead then { r with nextRevalidateAt := some (now + ttl) } else r := by
  refine t.get?_update_iff (by intro _; rfl) k ?_
  grind

theorem get?_markAliveBatch (hashes : List InfoHash) (observedAt : Time) (source : String) (k : InfoHash) :
    (markAliveBatch t hashes observedAt source).get? k = (t.get? k).map fun r =>
      if k ∈ hashes ∧ r.status ≠ .alive ∧ r.permanent = false then { r with
        status := .alive, suspectFirstSeenAt := none, suspectObservations := 0, lastObservedAt := observedAt,
        blacklistedAt := none, nextRevalidateAt := none, aliveSource := some source }
      else r := by
  refine t.get?_update_iff (by intro _; rfl) k ?_
  grind

theorem infoHash_suspectBatchRow (hold : ∀ r ∈ old, r.infoHash = hash) (observedAt : Time) :
    (suspectBatchRow old hash observedAt).infoHash = hash := by
  cases old with
  | none => rfl
  | some r => grind [suspectBatchRow]

theorem get?_recordSuspectBatch (hashes : List InfoHash) (observedAt : Time) (k : InfoHash) :
    (recordSuspectBatch t hashes observedAt).get? k =
      if k ∈ hashes then some (suspectBatchRow (t.get? k) k observedAt) else t.get? k := by
  have hrow : ∀ old hash, (∀ r ∈ old, r.infoHash = hash) → (suspectBatchRow old hash observedAt).infoHash = hash :=
    fun _ _ hold => infoHash_suspectBatchRow hold observedAt
  refine (Table.get?_foldl_upsert hrow (nodup_dedup hashes) t k).trans ?_
  simp only [mem_dedup]

/-! ## Steps of remote origin -/

/-- What a step of remote origin makes of a row. Only a torrent that was `looked` up can be alive or get another time.
-/
inductive RemoteEffect (looked : Prop) : Option Record → Option Record → Prop
  | same (old : Option Record) : RemoteEffect looked old old
  | scraped {r r' : Record} (hperm : r.permanent = false) (halive : r'.status = .alive) :
      RemoteEffect looked (some r) (some r')
  | zero (old : Option Record) (hash : InfoHash) (observedAt : Time) :
      RemoteEffect looked old (some (suspectBatchRow old hash observedAt))
  | found {old : Option Record} {r' : Record} (hlooked : looked) (halive : r'.status = .alive) :
      RemoteEffect looked old (some r')
  | rearmed {r r' : Record} (hlooked : looked) (hdead : r.status = .dead) (hdead' : r'.status = .dead)
      (hnext : r'.nextRevalidateAt.isNone = false) : RemoteEffect looked (some r) (some r')

variable {hashes : List InfoHash}

theorem partitionLivenessEvidence_disjoint {outcomes : InfoHash → Option ScrapeOutcome} {k : InfoHash}
    (hpos : k ∈ (partitionLivenessEvidence hashes outcomes).1) :
    k ∉ (partitionLivenessEvidence hashes outcomes).2 := by grind [partitionLivenessEvidence]

theorem remoteEffect_scrape (looked : Prop) (t : Rows) (allowed : List InfoHash)
    (outcomes : InfoHash → Option ScrapeOutcome) (now : Time) (k : InfoHash) :
    RemoteEffect looked (t.get? k) ((scrape t allowed outcomes now).get? k) := by
  unfold scrape
  dsimp only
  rw [get?_recordSuspectBatch, get?_markAliveBatch]
  by_cases hpos : k ∈ (partitionLivenessEvidence allowed outcomes).1
  · rw [if_neg (partitionLivenessEvidence_disjoint hpos)]
    cases t.get? k with
    | none => exact .same none
    | some r =>
      rw [Option.map_some]
      split_ifs with h
      · exact .scraped h.2.2 rfl
      · exact .same (some r)
  · simp only [hpos, false_and, if_false, Option.map_id']
    split_ifs
    · exact .zero ..
    · exact .same _

variable (cfg : LivenessConfig)

theorem remoteEffect_revalidateOneWith {looked : Prop} (t : Rows) (lookup : Lookup) (now : Time) {k : InfoHash}
    (hlooked : hash = k → looked) :
    RemoteEffect looked (t.get? k) ((revalidateOneWith cfg t hash lookup now).get? k) := by
  have hrearm : RemoteEffect looked (t.get? k) ((rearmRevalidate t hash now cfg.blacklistTTL).get? k) := by
    rw [get?_rearmRevalidate]
    cases t.get? k with
    | none => exact .same none
    | some r =>
      rw [Option.map_some]
      split_ifs with h
      · exact .rearmed (hlooked h.1) h.2 h.2 rfl
      · exact .same (some r)
  have halive : RemoteEffect looked (t.get? k) ((markAliveFromDHT cfg t hash now).get? k) := by
    unfold markAliveFromDHT
    split_ifs
    · rw [get?_markAlive]
      split_ifs with h
      · exact .found (hlooked h) rfl
      · exact .same _
    · exact .same _
  unfold revalidateOneWith
  split_ifs
  · exact .same _
  · grind

theorem remoteEffect (s : State) (a : Remote) (k : InfoHash) :
    RemoteEffect (k ∈ s.looked) (s.rows.get? k) ((remoteStep cfg s a).rows.get? k) := by
  cases a with
  | scrape allowed outcomes now => exact remoteEffect_scrape ..
  | runOnce arranged now =>
    unfold remoteStep
    dsimp only
    split <;> exact .same _
  | revalidateOne hash lookup now =>
    unfold remoteStep
    dsimp only
    split_ifs with hmem
    · grind [remoteEffect_revalidateOneWith]
    · exact .same _

/-! ## Permanently dead rows -/

/-- The torrent is dead and has no time of revalidation. -/
def PermanentlyDead (t : Rows) (hash : InfoHash) : Prop := (t.get? hash).any Record.permanent = true

instance (t : Rows) (hash : InfoHash) : Decidable (PermanentlyDead t hash) := inferInstanceAs (Decidable (_ = _))

theorem not_permanent_of_alive {r : Record} (h : r.status = .alive) : r.permanent = false := by
  rw [Record.permanent, h]
  rfl

theorem permanent_suspectBatchRow (old : Option Record) (hash : InfoHash) (observedAt : Time) :
    (suspectBatchRow old hash observedAt).permanent = old.any Record.permanent := by
  cases old with
  | none => rfl
  | some r =>
    unfold suspectBatchRow
    dsimp only [Option.any_some]
    split
    · show ((if r.status = .dead then Status.dead else .suspect) == .dead && r.nextRevalidateAt.isNone) =
        (r.status == .dead && r.nextRevalidateAt.isNone)
      cases r.status <;> rfl
    · rfl

theorem RemoteEffect.permanent {looked : Prop} {new : Option Record} (h : RemoteEffect looked old new)
    (hlooked : looked → old.any Record.permanent = false) :
    new.any Record.permanent = old.any Record.permanent := by
  cases h with
  | same => rfl
  | scraped hperm halive => grind [not_permanent_of_alive]
  | zero hash observedAt => exact permanent_suspectBatchRow ..
  | found h halive => grind [not_permanent_of_alive]
  | rearmed h hdead hdead' hnext => grind [Record.permanent]

theorem not_permanentlyDead_of_due {t : Rows} {now : Time} {limit : Int} {arranged : List Record}
    (h : dueForRevalidation t now limit arranged = some hashes) (hmem : hash ∈ hashes) :
    ¬ PermanentlyDead t hash := by
  unfold dueForRevalidation at h
  split_ifs at h with hanswer
  cases h
  obtain ⟨r, hr, rfl⟩ := mem_map.mp hmem
  have hrow := (isPerm_iff.mp hanswer.2.1).subset (mem_of_mem_take hr)
  obtain ⟨hrows, hdue⟩ := mem_filter.mp hrow
  unfold PermanentlyDead Record.permanent
  rw [Table.get?_of_mem hrows, Option.any_some, Bool.and_eq_true, Option.isNone_iff_eq_none]
  grind [due]

/-- No torrent in hand of the revalidator is permanently dead. -/
def InHand (s : State) : Prop := ∀ hash ∈ s.looked, ¬ PermanentlyDead s.rows hash

theorem permanentlyDead_remoteStep {s : State} (hs : InHand s) (a : Remote) (hash : InfoHash) :
    PermanentlyDead (remoteStep cfg s a).rows hash ↔ PermanentlyDead s.rows hash := by
  unfold PermanentlyDead
  rw [(remoteEffect cfg s a hash).permanent fun hmem => Bool.eq_false_iff.mpr (hs hash hmem)]

theorem InHand.remoteStep {s : State} (cfg : LivenessConfig) (hs : InHand s) (a : Remote) :
    InHand (remoteStep cfg s a) := by
  intro hash hmem hperm
  rw [permanentlyDead_remoteStep cfg hs] at hperm
  cases a with
  | scrape allowed outcomes now => exact hs hash hmem hperm
  | runOnce arranged now =>
    unfold Liveness.remoteStep at hmem
    dsimp only at hmem
    split at hmem
    next hashes hdue => exact not_permanentlyDead_of_due hdue hmem hperm
    next => exact hs hash hmem hperm
  | revalidateOne k lookup now =>
    unfold Liveness.remoteStep at hmem
    dsimp only at hmem
    split_ifs at hmem
    · exact hs hash (mem_of_mem_erase hmem) hperm
    · exact hs hash hmem hperm

theorem permanentlyDead_run {s : State} (hs : InHand s) (run : List Remote) (hash : InfoHash) :
    PermanentlyDead (run.foldl (remoteStep cfg) s).rows hash ↔ PermanentlyDead s.rows hash := by
  induction run using List.reverseRecOn with
  | nil => rfl
  | append_singleton run a ih =>
    have hrun := Run.foldl_invariant (remoteStep cfg) hs (fun _ a hs => hs.remoteStep cfg a) run
    grind [permanentlyDead_remoteStep]

/-- **Permanent means permanent**, along any scrapes and revalidations in any interleaving. -/
theorem permanentlyDead_forever (cfg : LivenessConfig) (start : Rows) (before after : List Remote)
    (hash : InfoHash) (h : PermanentlyDead (before.foldl (remoteStep cfg) ⟨start, []⟩).rows hash) :
    PermanentlyDead ((before ++ after).foldl (remoteStep cfg) ⟨start, []⟩).rows hash := by
  have hrun : InHand (before.foldl (remoteStep cfg) ⟨start, []⟩) :=
    Run.foldl_invariant (remoteStep cfg) (fun _ hmem => by cases hmem) (fun _ a hs => hs.remoteStep cfg a) before
  rw [List.foldl_append]
  exact (permanentlyDead_run cfg hrun after hash).mpr h

/-- A purged torrent with five seeders stays purged. -/
theorem purged_stays_purged :
    PermanentlyDead (([] ++ [Remote.scrape [[1]] (fun _ => some ⟨true, 5, 0⟩) 1, .runOnce [] 2]).foldl
      (remoteStep newDefaultLivenessConfig)
      ⟨⟨[{ infoHash := [1], status := .dead, lastObservedAt := 0 }], List.nodup_singleton _⟩, []⟩).rows [1] :=
  permanentlyDead_forever _ _ _ _ _ (by decide)

def dead (t : Rows) : Set InfoHash := {hash | (t.get? hash).any (·.status = .dead) = true}

/-- **No remote step kills**: along any scrapes and revalidations, in any interleaving, only torrents that were dead at
the start are dead. -/
theorem dead_remote_subset (s : State) (run : List Remote) :
    dead (run.foldl (remoteStep cfg) s).rows ⊆ dead s.rows := by
  intro hash h
  induction run using List.reverseRecOn with
  | nil => exact h
  | append_singleton run a ih =>
    rw [Run.foldl_concat] at h
    refine ih ?_
    have heffect := remoteEffect cfg (run.foldl (remoteStep cfg) s) a hash
    simp only [dead, Set.mem_ofPred_eq] at h ⊢
    generalize (remoteStep cfg _ a).rows.get? hash = new at h heffect
    generalize (run.foldl (remoteStep cfg) s).rows.get? hash = old at heffect ⊢
    cases heffect with
    | same => exact h
    | scraped hperm halive => simp [halive] at h
    | zero hash observedAt => cases old <;> grind [suspectBatchRow]
    | found hlooked halive => simp [halive] at h
    | rearmed hlooked hdead hdead' hnext => simpa using hdead

end BitAgent.Liveness
