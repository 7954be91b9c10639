/-
# Evidence.OutcomeLedger — one outcome for each attempt

Every attempt is in one place: pending, in a batch in flight, counted by an update of the priors, deleted after
a private import, or lost with its batch (`Kept`). So an attempt that is no longer pending has one outcome, unless its
batch was lost (`outcomes_exact_iff`).
-/
import BitAgent.Evidence.OutcomeCounts

namespace BitAgent.Priors

open Lib LabelEvidence List

/-! ## Statements that close attempts -/

def pendingIDs (t : Attempts) : List Nat := (t.table.rows.filter GrabAttempt.pending).map (·.id)
def issued (t : Attempts) : List Nat := List.range' 1 (t.next - 1)

variable {p : GrabAttempt → Bool} (t : Attempts)

theorem pendingIDs_split (hp : ∀ a, p a = true → a.pending = true) :
    (pendingIDs t).Perm ((t.table.rows.filter p).map (·.id) ++
      (t.table.rows.filter fun a => !p a && a.pending).map (·.id)) := by
  have hselected : (t.table.rows.filter GrabAttempt.pending).filter p = t.table.rows.filter p := by
    rw [filter_filter]
    refine filter_congr fun a _ => ?_
    cases hpa : p a with
    | false => rfl
    | true => rw [hp a hpa]; rfl
  have hsplit := filter_append_perm p (t.table.rows.filter GrabAttempt.pending)
  grind [filter_filter, pendingIDs]

theorem pendingIDs_update {f : GrabAttempt → GrabAttempt} (hf : ∀ a, (f a).id = a.id)
    (hclosed : ∀ a, (f a).pending = false) :
    pendingIDs (t.update p f hf) = (t.table.rows.filter fun a => !p a && a.pending).map (·.id) := by
  have hid : ((·.id) ∘ fun a => if p a then f a else a) = GrabAttempt.id := by grind
  have hpending : ((fun a => GrabAttempt.pending a) ∘ fun a => if p a then f a else a) =
      fun a => !p a && a.pending := by grind
  show ((t.table.rows.map fun a => if p a then f a else a).filter GrabAttempt.pending).map (·.id) = _
  rw [filter_map, map_map, hid, hpending]

theorem pendingIDs_delete (p : GrabAttempt → Bool) :
    pendingIDs (t.delete p) = (t.table.rows.filter fun a => !p a && a.pending).map (·.id) := by
  show ((t.table.rows.filter fun a => !p a).filter GrabAttempt.pending).map (·.id) = _
  rw [filter_filter]
  grind

/-- A statement closed some attempts, and left the others. -/
structure Closes (s s' : Store) (attempts : List GrabAttempt) : Prop where
  next : s'.attempts.next = s.attempts.next
  split : (pendingIDs s.attempts).Perm (attempts.map (·.id) ++ pendingIDs s'.attempts)

theorem closes_nothing {s s' : Store} (h : s'.attempts = s.attempts) : Closes s s' [] := by
  refine ⟨by rw [h], ?_⟩
  rw [h]
  exact .refl _

theorem closes_update {s s' : Store} {outcome : Outcome} {resolvedAt : Time}
    {hid : ∀ a, (GrabAttempt.resolve outcome resolvedAt a).id = a.id} (hp : ∀ a, p a = true → a.pending = true)
    (hs' : s'.attempts = s.attempts.update p (·.resolve outcome resolvedAt) hid) :
    Closes s s' ((s.attempts.table.rows.filter p).map (·.resolve outcome resolvedAt)) where
  next := by
    rw [hs']
    rfl
  split := by
    rw [hs', pendingIDs_update _ hid fun _ => rfl, map_map]
    exact pendingIDs_split s.attempts hp

theorem closes_resolvePendingAndIncrement (s : Store) (hash : InfoHash) (outcome : Outcome) (resolvedAt : Time) :
    Closes s (s.resolvePendingAndIncrement hash outcome resolvedAt).1
      (s.resolvePendingAndIncrement hash outcome resolvedAt).2 := by
  unfold Store.resolvePendingAndIncrement
  split_ifs
  · exact closes_nothing rfl
  · exact closes_update (fun a ha => (Bool.and_eq_true _ _ ▸ ha).1) rfl

theorem priors_resolvePendingAndIncrement (s : Store) (hash : InfoHash) (outcome : Outcome) (resolvedAt : Time) :
    (s.resolvePendingAndIncrement hash outcome resolvedAt).1.priors = upsertCounts s.priors
      (mergeFeatures (s.resolvePendingAndIncrement hash outcome resolvedAt).2) outcome := by
  unfold Store.resolvePendingAndIncrement
  split_ifs <;> rfl

theorem closes_deletePendingByInfoHash (s : Store) (hash : InfoHash) :
    Closes s (s.deletePendingByInfoHash hash).1 (s.deletePendingByInfoHash hash).2 := by
  unfold Store.deletePendingByInfoHash
  split_ifs
  · exact closes_nothing rfl
  · refine ⟨rfl, ?_⟩
    grind [pendingIDs_delete, pendingIDs_split]

theorem priors_deletePendingByInfoHash (s : Store) (hash : InfoHash) :
    (s.deletePendingByInfoHash hash).1.priors = s.priors := by
  unfold Store.deletePendingByInfoHash
  split_ifs <;> rfl

theorem closes_expirePending (s : Store) (cutoff resolvedAt : Time) (limit : Nat) (chosen : Nat → Bool) :
    Closes s (s.expirePending cutoff resolvedAt limit chosen).1
      (s.expirePending cutoff resolvedAt limit chosen).2 := by
  unfold Store.expirePending
  dsimp only
  split_ifs
  · refine closes_update (fun a ha => ?_) rfl
    simp only [Bool.and_eq_true] at ha
    exact ha.1.1
  · exact closes_nothing rfl

theorem priors_expirePending (s : Store) (cutoff resolvedAt : Time) (limit : Nat) (chosen : Nat → Bool) :
    (s.expirePending cutoff resolvedAt limit chosen).1.priors = s.priors := by
  unfold Store.expirePending
  dsimp only
  split_ifs <;> rfl

theorem closes_purgeResolved (s : Store) (cutoff : Time) : Closes s (s.purgeResolved cutoff) [] where
  next := rfl
  split := by
    have hsame : pendingIDs (s.purgeResolved cutoff).attempts = pendingIDs s.attempts := by
      refine (pendingIDs_delete ..).trans ?_
      refine congrArg _ (filter_congr fun a _ => ?_)
      unfold GrabAttempt.pending
      cases a.resolvedAt <;> simp
    rw [hsame]
    exact .refl _

/-! ## Where the attempts are -/

def places (s : Ledger) : List Nat :=
  pendingIDs s.store.attempts ++ s.inFlight.flatten.map (·.id) ++ (s.applied.flatMap (·.2)).map (·.id) ++
    s.dropped.map (·.id) ++ s.lost.map (·.id)

def elsewhere (s : Ledger) : List Nat :=
  s.inFlight.flatten.map (·.id) ++ (s.applied.flatMap (·.2)).map (·.id) ++ s.dropped.map (·.id) ++ s.lost.map (·.id)

/-- What every step keeps: each attempt is in one place, and the priors are what the updates on record made of them.
-/
structure Kept (cfg : OutcomePriorsConfig) (start : PriorTable) (s : Ledger) : Prop where
  placed : (places s).Perm (issued s.store.attempts)
  flying : ∀ batch ∈ s.inFlight, cfg.enabled = true ∧ batch ≠ []
  replayed : ∀ side k, counted s.store.priors side k =
    counted start side k + s.applied.countP fun update => update.1 == side && carries k update.2

variable {u : Lowering} {cfg : OutcomePriorsConfig} {start : PriorTable} {s : Ledger}

theorem placed_of_closes (h : (places s).Perm (issued s.store.attempts)) {s' : Ledger}
    {attempts : List GrabAttempt} (hcloses : Closes s.store s'.store attempts)
    (hmoved : ∀ id, (elsewhere s').count id = (attempts.map (·.id)).count id + (elsewhere s).count id) :
    (places s').Perm (issued s'.store.attempts) := by
  unfold issued
  rw [hcloses.next]
  refine List.Perm.trans ?_ h
  rw [perm_iff_count]
  intro id
  have hsplit := hcloses.split.count_eq id
  grind [places, elsewhere]

theorem placed_recordGrab (h : (places s).Perm (issued s.store.attempts)) (a : GrabAttempt) :
    (places { s with store := s.store.recordGrab a }).Perm (issued (s.store.recordGrab a).attempts) := by
  have hpending : pendingIDs (s.store.recordGrab a).attempts =
      pendingIDs s.store.attempts ++ [s.store.attempts.next] := by
    unfold pendingIDs Store.recordGrab
    dsimp only
    rw [Serial.rows_insert, filter_append, map_append]
    rfl
  have hissued : issued (s.store.recordGrab a).attempts = issued s.store.attempts ++ [s.store.attempts.next] := by
    have hpos := s.store.attempts.positive
    show List.range' 1 (s.store.attempts.next + 1 - 1) = List.range' 1 (s.store.attempts.next - 1) ++ [_]
    grind [range'_concat]
  rw [hissued, perm_iff_count]
  intro id
  have hcount := h.count_eq id
  unfold places at hcount ⊢
  rw [hpending]
  simp only [count_append] at hcount ⊢
  omega

theorem Kept.replayed_concat (h : Kept cfg start s) (batch : List GrabAttempt) (side₀ side : Outcome)
    (k : FeatureKey) :
    counted (upsertCounts s.store.priors (mergeFeatures batch) side₀) side k = counted start side k +
      (s.applied ++ [(side₀, batch)]).countP fun update => update.1 == side && carries k update.2 := by
  have hcounts : (side = side₀ ∧ carries k batch = true) ↔ (side₀ == side && carries k batch) = true := by
    rw [Bool.and_eq_true, beq_iff_eq, eq_comm]
  rw [counted_merged, h.replayed, countP_append, countP_singleton, Nat.add_assoc, if_congr hcounts rfl rfl]

inductive Handles (s : Store) : Store × Closed → Prop
  | nothing : Handles s (s, .nothing)
  | grab (a : GrabAttempt) : Handles s (s.recordGrab a, .nothing)
  | dropped (hash : InfoHash) :
      Handles s ((s.deletePendingByInfoHash hash).1, .dropped (s.deletePendingByInfoHash hash).2)
  | success (hash : InfoHash) (now : Time) :
      Handles s ((s.resolvePendingAndIncrement hash .success now).1,
        .success (s.resolvePendingAndIncrement hash .success now).2)

theorem handles (u : Lowering) (cfg : OutcomePriorsConfig) (s : Store) (e : Evidence) (sources : List String)
    (primaryExt : String) (now : Time) : Handles s (handleEvidence u cfg s e sources primaryExt now) := by
  unfold handleEvidence
  split
  · exact .nothing
  split
  · exact .nothing
  split
  · exact .grab _
  · split
    · exact .dropped _
    · exact .success _ _
  all_goals exact .nothing

theorem kept_evidence (h : Kept cfg start s) (e : Evidence) (sources : List String) (primaryExt : String)
    (now : Time) : Kept cfg start (s.step u cfg (.evidence e sources primaryExt now)) := by
  have hhandles := handles u cfg s.store e sources primaryExt now
  unfold Ledger.step
  dsimp only
  generalize handleEvidence u cfg s.store e sources primaryExt now = out at hhandles
  cases hhandles with
  | nothing => exact h
  | grab a => exact ⟨placed_recordGrab h.placed a, h.flying, h.replayed⟩
  | dropped hash =>
    refine ⟨placed_of_closes h.placed (closes_deletePendingByInfoHash s.store hash) ?_, h.flying, ?_⟩
    · grind [elsewhere]
    · intro side k
      dsimp only
      rw [priors_deletePendingByInfoHash]
      exact h.replayed side k
  | success hash now =>
    refine ⟨placed_of_closes h.placed (closes_resolvePendingAndIncrement s.store hash .success now) ?_, h.flying, ?_⟩
    · grind [elsewhere]
    · intro side k
      dsimp only
      rw [priors_resolvePendingAndIncrement]
      exact h.replayed_concat ..

theorem flatten_erase {batch : List GrabAttempt} (hmem : batch ∈ s.inFlight) (id : Nat) :
    (s.inFlight.flatten.map (·.id)).count id =
      (batch.map (·.id)).count id + ((s.inFlight.erase batch).flatten.map (·.id)).count id := by
  grind [perm_cons_erase]

theorem Kept.step (h : Kept cfg start s) (a : Step) : Kept cfg start (s.step u cfg a) := by
  cases a with
  | evidence e sources primaryExt now => exact kept_evidence h e sources primaryExt now
  | expire cutoff now chosen =>
    unfold Ledger.step
    dsimp only
    split_ifs with henabled hempty
    · exact h
    · refine ⟨placed_of_closes h.placed (closes_expirePending s.store cutoff now expireBatchSize chosen) ?_,
        ?_, ?_⟩
      · grind [elsewhere]
      · intro batch hbatch
        rcases mem_append.mp hbatch with hold | hnew
        · exact h.flying batch hold
        · grind
      · intro side k
        dsimp only
        rw [priors_expirePending]
        exact h.replayed side k
    · exact h
  | apply batch =>
    unfold Ledger.step
    dsimp only
    split_ifs with hmem
    · refine ⟨placed_of_closes h.placed (closes_nothing rfl) ?_,
        fun b hb => h.flying b (mem_of_mem_erase hb), ?_⟩
      · grind [flatten_erase, elsewhere]
      · intro side k
        dsimp only
        rw [applyExpired_eq (h.flying batch hmem).1]
        exact h.replayed_concat ..
    · exact h
  | lose batch =>
    unfold Ledger.step
    dsimp only
    split_ifs with hmem
    · refine ⟨placed_of_closes h.placed (closes_nothing rfl) ?_,
        fun b hb => h.flying b (mem_of_mem_erase hb), h.replayed⟩
      grind [flatten_erase, elsewhere]
    · exact h
  | purge cutoff =>
    unfold Ledger.step
    dsimp only
    split_ifs
    · refine ⟨placed_of_closes h.placed (closes_purgeResolved s.store cutoff) ?_, h.flying, h.replayed⟩
      grind [elsewhere]
    · exact h

/-! ## Outcomes -/

section

variable (u : Lowering) (cfg : OutcomePriorsConfig) (start : PriorTable)

def after (run : List Step) : Ledger := run.foldl (Ledger.step u cfg) { store := ⟨.empty, start⟩ }

theorem kept_after (run : List Step) : Kept cfg start (after u cfg start run) := by
  refine Run.foldl_invariant (Ledger.step u cfg) ?_ (fun _ a hs => hs.step a) run
  exact ⟨.refl _, fun _ hmem => absurd hmem not_mem_nil, fun _ _ => rfl⟩

theorem after_concat (run : List Step) (a : Step) :
    after u cfg start (run ++ [a]) = (after u cfg start run).step u cfg a :=
  Run.foldl_concat ..

end

/-- The attempt has left the pending state, other than by a deletion, and is not in flight. -/
def HasLeft (s : Ledger) (id : Nat) : Prop :=
  id ∈ issued s.store.attempts ∧ id ∉ pendingIDs s.store.attempts ∧ id ∉ s.dropped.map (·.id) ∧
    id ∉ s.inFlight.flatten.map (·.id)

def outcomes (s : Ledger) (id : Nat) : Nat := ((s.applied.flatMap (·.2)).map (·.id)).count id

theorem Kept.count_places (h : Kept cfg start s) {id : Nat} (hid : id ∈ issued s.store.attempts) :
    (pendingIDs s.store.attempts).count id + (s.inFlight.flatten.map (·.id)).count id + outcomes s id +
      (s.dropped.map (·.id)).count id + (s.lost.map (·.id)).count id = 1 := by
  have hone : (issued s.store.attempts).count id = 1 := count_eq_one_of_mem nodup_range' hid
  rw [← h.placed.count_eq id, places] at hone
  simp only [count_append] at hone
  exact hone

theorem Kept.outcomes_add_lost (h : Kept cfg start s) {id : Nat} (hleft : HasLeft s id) :
    outcomes s id + (s.lost.map (·.id)).count id = 1 := by
  have hcount := h.count_places hleft.1
  rw [count_eq_zero_of_not_mem hleft.2.1, count_eq_zero_of_not_mem hleft.2.2.1,
    count_eq_zero_of_not_mem hleft.2.2.2] at hcount
  omega

theorem Kept.hasLeft_of_lost (h : Kept cfg start s) {a : GrabAttempt} (hlost : a ∈ s.lost) :
    HasLeft s a.id ∧ outcomes s a.id = 0 := by
  have hmem : a.id ∈ s.lost.map (·.id) := mem_map_of_mem hlost
  have hissued : a.id ∈ issued s.store.attempts := h.placed.subset (mem_append_right _ hmem)
  have hcount := h.count_places hissued
  have hpos := count_pos_iff.mpr hmem
  refine ⟨⟨hissued, ?_, ?_, ?_⟩, by omega⟩
  all_goals
    rw [← List.count_eq_zero]
    omega

theorem lost_eq_nil {run : List Step}
    (hsafe : ∀ past batch, past ++ [.lose batch] <+: run → batch ∉ (after u cfg start past).inFlight) :
    (after u cfg start run).lost = [] := by
  induction run using List.reverseRecOn with
  | nil => rfl
  | append_singleton run a ih =>
    have ih := ih fun past batch hpast => hsafe past batch (hpast.trans (prefix_append run [a]))
    rw [after_concat, ← ih]
    cases a with
    | evidence e sources primaryExt now =>
      unfold Ledger.step
      dsimp only
      split <;> rfl
    | expire cutoff now chosen =>
      unfold Ledger.step
      dsimp only
      split_ifs <;> rfl
    | apply batch =>
      unfold Ledger.step
      dsimp only
      split_ifs <;> rfl
    | lose batch => grind [Ledger.step]
    | purge cutoff =>
      unfold Ledger.step
      dsimp only
      split_ifs <;> rfl

/-- **One outcome each.** Along every run, every attempt that is no longer pending, and was not deleted for a private
import, is counted by exactly one update once its batch is not in flight, if and only if no step loses a batch. -/
theorem outcomes_exact_iff (u : Lowering) (cfg : OutcomePriorsConfig) (start : PriorTable) (run : List Step) :
    (∀ side k, counted (after u cfg start run).store.priors side k = counted start side k +
      (after u cfg start run).applied.countP fun update => update.1 == side && carries k update.2) ∧
    ((∀ past, past <+: run → ∀ id, HasLeft (after u cfg start past) id →
        outcomes (after u cfg start past) id = 1) ↔
      ∀ past batch, past ++ [.lose batch] <+: run → batch ∉ (after u cfg start past).inFlight) := by
  refine ⟨(kept_after u cfg start run).replayed, ?_, ?_⟩
  · intro hone past batch hpast hmem
    obtain ⟨a, ha⟩ := List.exists_mem_of_ne_nil batch ((kept_after u cfg start past).flying batch hmem).2
    have hlost : a ∈ (after u cfg start (past ++ [.lose batch])).lost := by
      grind [after_concat, Ledger.step]
    obtain ⟨hleft, hzero⟩ := (kept_after u cfg start _).hasLeft_of_lost hlost
    rw [hone _ hpast _ hleft] at hzero
    cases hzero
  · intro hsafe past hpast id hleft
    have hcount := (kept_after u cfg start past).outcomes_add_lost hleft
    grind [lost_eq_nil]

def grabEvent : Evidence where
  source := .sonarr
  kind := .webhookGrab
  sourceInstance := "main"
  sourceObjectID := "1"
  infoHash := [161]
  title := "Film.x265"
  observedAt := 0
  strength := strengthArrWebhookGrab

def failedUpdate : List Step :=
  let grabbed := after .ascii ⟨true, true⟩ .empty [.evidence grabEvent [] "" 0]
  let expired := (grabbed.store.expirePending 1 2 expireBatchSize fun _ => true).2
  [.evidence grabEvent [] "" 0, .expire 1 2 (fun _ => true), .lose expired]

/-- The attempt is closed and counts for nothing. -/
theorem expired_attempt_lost :
    HasLeft (after .ascii ⟨true, true⟩ .empty failedUpdate) 1 ∧
      outcomes (after .ascii ⟨true, true⟩ .empty failedUpdate) 1 = 0 := by
  unfold HasLeft
  decide +kernel

end BitAgent.Priors
