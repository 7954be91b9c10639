/-
# Evidence.OutcomeCounts — how often a feature is counted

`mergeFeatures` takes a batch as one observation. A run of expiries adds to a feature the number of batches that have
it, which is the number of attempts iff no batch has two such attempts (`expired_counts_iff`).
-/
import BitAgent.Evidence.Outcomes

namespace BitAgent.Priors

open Lib LabelEvidence List

/-! ## Keys -/

variable (keys : List FeatureKey)

theorem uniqueKeys_concat (k : FeatureKey) :
    uniqueKeys (keys ++ [k]) = if k ∈ uniqueKeys keys then uniqueKeys keys else uniqueKeys keys ++ [k] :=
  Run.foldl_concat (fun out k => if k ∈ out then out else out ++ [k]) [] keys k

variable {k : FeatureKey}

theorem mem_uniqueKeys {keys : List FeatureKey} : k ∈ uniqueKeys keys ↔ k ∈ keys := by
  induction keys using List.reverseRecOn with
  | nil => rfl
  | append_singleton keys k' ih => grind [uniqueKeys_concat]

theorem nodup_uniqueKeys : (uniqueKeys keys).Nodup := by
  induction keys using List.reverseRecOn with
  | nil => exact nodup_nil
  | append_singleton keys k ih => grind [uniqueKeys_concat]

theorem mem_mergeFeatures {attempts : List GrabAttempt} :
    k ∈ mergeFeatures attempts ↔ ∃ a ∈ attempts, k ∈ a.features := by
  unfold mergeFeatures
  rw [mem_uniqueKeys, mem_flatMap]

/-! ## Counts -/

def Prior.on (p : Prior) : Outcome → Nat
  | .success => p.alpha
  | .failure => p.beta

def counted (t : PriorTable) (side : Outcome) (k : FeatureKey) : Nat := ((t.get? k).getD { key := k }).on side

theorem bump_on (side side' : Outcome) (old : Option Prior) (k : FeatureKey) :
    (bump side old k).on side' = (old.getD { key := k }).on side' + if side' = side then 1 else 0 := by
  cases side <;> cases side' <;> rfl

variable (t : PriorTable)

theorem get?_upsertCounts (keys : List FeatureKey) (side : Outcome) (k : FeatureKey) :
    (upsertCounts t keys side).get? k = if k ∈ keys then some (bump side (t.get? k) k) else t.get? k := by
  have hrow : ∀ old k, (∀ p ∈ old, p.key = k) → (bump side old k).key = k := by
    intro old k hold
    cases old with
    | none => cases side <;> rfl
    | some p => cases side <;> exact hold p rfl
  refine (Table.get?_foldl_upsert hrow (nodup_uniqueKeys keys) t k).trans ?_
  simp only [mem_uniqueKeys]

theorem counted_upsertCounts (keys : List FeatureKey) (side side' : Outcome) (k : FeatureKey) :
    counted (upsertCounts t keys side) side' k = counted t side' k + if side' = side ∧ k ∈ keys then 1 else 0 := by
  grind [counted, get?_upsertCounts, bump_on]

def carries (k : FeatureKey) (batch : List GrabAttempt) : Bool := batch.any fun a => decide (k ∈ a.features)

variable {batch : List GrabAttempt}

theorem mem_mergeFeatures_iff_carries :
    k ∈ mergeFeatures batch ↔ carries k batch = true := by simp [carries, mem_mergeFeatures]

theorem counted_merged (batch : List GrabAttempt) (side side' : Outcome) (k : FeatureKey) :
    counted (upsertCounts t (mergeFeatures batch) side) side' k =
      counted t side' k + if side' = side ∧ carries k batch = true then 1 else 0 := by
  simp only [counted_upsertCounts, mem_mergeFeatures_iff_carries]

variable {cfg : OutcomePriorsConfig}

theorem applyExpired_eq (henabled : cfg.enabled = true) (t : PriorTable) (batch : List GrabAttempt) :
    applyExpired cfg t batch = upsertCounts t (mergeFeatures batch) .failure := by
  unfold applyExpired
  rw [if_neg (by simp [henabled])]
  dsimp only
  split_ifs with hempty
  · rw [isEmpty_iff.mp hempty]
    rfl
  · rfl

/-! ## Batches of expired attempts -/

theorem counted_batches (henabled : cfg.enabled = true) (t : PriorTable) (batches : List (List GrabAttempt))
    (k : FeatureKey) :
    counted (batches.foldl (applyExpired cfg) t) .failure k = counted t .failure k + batches.countP (carries k) := by
  induction batches using List.reverseRecOn with
  | nil => rfl
  | append_singleton batches batch ih => grind [applyExpired_eq, counted_merged]

def carriers (k : FeatureKey) (batch : List GrabAttempt) : Nat := batch.countP fun a => decide (k ∈ a.features)

theorem carries_iff_carriers :
    carries k batch = true ↔ 0 < carriers k batch := by
  unfold carries carriers
  rw [any_eq_true, countP_pos_iff]

theorem countP_carries_eq_iff (k : FeatureKey) (batches : List (List GrabAttempt)) :
    batches.countP (carries k) ≤ carriers k batches.flatten ∧
      (batches.countP (carries k) = carriers k batches.flatten ↔ ∀ batch ∈ batches, carriers k batch ≤ 1) := by
  induction batches with
  | nil => simp [carriers]
  | cons batch batches ih =>
    have hflat : carriers k (batch :: batches).flatten = carriers k batch + carriers k batches.flatten := by
      grind [carriers]
    grind [carries_iff_carriers]

/-- No two attempts of the batch have a feature in common. -/
def SharesNone (batch : List GrabAttempt) : Prop := batch.Pairwise fun a b => ∀ k ∈ a.features, k ∉ b.features

theorem sharesNone_iff (batch : List GrabAttempt) : SharesNone batch ↔ ∀ k, carriers k batch ≤ 1 := by
  unfold SharesNone
  induction batch with
  | nil => simp [carriers]
  | cons a batch ih =>
    have hcons : ∀ k, carriers k (a :: batch) = carriers k batch + if k ∈ a.features then 1 else 0 := by
      grind [carriers]
    have hzero : ∀ k, carriers k batch = 0 ↔ ∀ b ∈ batch, k ∉ b.features := by grind [carriers, countP_eq_zero]
    grind [pairwise_cons]

/-- **Expiry counts**: each expired attempt adds a failure to each of its features exactly if no batch has two
attempts with a feature in common. -/
theorem expired_counts_iff {cfg : OutcomePriorsConfig} (henabled : cfg.enabled = true) (t : PriorTable)
    (batches : List (List GrabAttempt)) :
    (∀ k, counted (batches.foldl (applyExpired cfg) t) .failure k = counted t .failure k + carriers k batches.flatten) ↔
    ∀ batch ∈ batches, SharesNone batch := by
  have hadded : ∀ k, (counted (batches.foldl (applyExpired cfg) t) .failure k =
      counted t .failure k + carriers k batches.flatten) ↔ ∀ batch ∈ batches, carriers k batch ≤ 1 := by
    grind [counted_batches, countP_carries_eq_iff]
  simp only [hadded, sharesNone_iff]
  grind

def codecAttempt (id : Nat) : GrabAttempt where
  id := id
  infoHash := [161]
  source := .sonarr
  sourceInstance := "main"
  releaseTitle := "Film.x265"
  features := [⟨"codec", "x265"⟩]
  grabbedAt := 0

/-- Two attempts with one codec in batches of their own. -/
theorem separate_batches_counted :
    (∀ k, counted ([[codecAttempt 1], [codecAttempt 2]].foldl (applyExpired ⟨true, true⟩) .empty) .failure k =
      counted .empty .failure k + carriers k [[codecAttempt 1], [codecAttempt 2]].flatten) ↔
    ∀ batch ∈ [[codecAttempt 1], [codecAttempt 2]], SharesNone batch :=
  expired_counts_iff rfl _ _

/-- In one batch the two attempts are one failure, in two batches they are two. -/
theorem same_attempts_other_counts :
    counted ([[codecAttempt 1, codecAttempt 2]].foldl (applyExpired ⟨true, true⟩) .empty) .failure
      ⟨"codec", "x265"⟩ = 2 ∧
    counted ([[codecAttempt 1], [codecAttempt 2]].foldl (applyExpired ⟨true, true⟩) .empty) .failure
      ⟨"codec", "x265"⟩ = 3 := by
  decide

end BitAgent.Priors
