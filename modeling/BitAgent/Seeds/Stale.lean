/-
# Seeds.Stale — which torrents are scraped next

`SelectStale` of `internal/seeds/store.go`: half of the limit for the torrents with the oldest checks, the rest for
any that are due, those never checked first. The condition of `selectionAdmission` is a parameter.
-/
import BitAgent.Lib.Ordered
import BitAgent.Seeds.Store

namespace BitAgent.Seeds

open Lib List Ordered Table

/-- A torrent, with the time of its check if the ledger has one. -/
structure Candidate where
  infoHash : Hash
  checkedAt : Option Nat

/-- `checked_at asc nulls first, info_hash asc`. -/
def Candidate.cmp : Candidate → Candidate → Ordering :=
  compareLex (compareOn (·.checkedAt)) (compareOn (·.infoHash))

instance : Std.TransCmp Candidate.cmp := inferInstanceAs (Std.TransCmp (compareLex _ _))

/-- The arguments of the query and the tables. `cutoff` is `now() - make_interval(secs => $1)`. -/
structure StaleQuery where
  db : Db
  primaryKey : db.torrents.Nodup
  admission : Hash → Bool
  cutoff : Nat
  limit : Nat

namespace StaleQuery

variable (q : StaleQuery)

def candidates : List Candidate := q.db.torrents.map fun h => ⟨h, (q.db.ledger.get? h).map (·.checkedAt)⟩

def staleChecked : List Candidate :=
  q.candidates.filter fun c => c.checkedAt.any (· < q.cutoff) && q.admission c.infoHash

def eligible : List Candidate :=
  q.candidates.filter fun c => (c.checkedAt.isNone || c.checkedAt.any (· < q.cutoff)) && q.admission c.infoHash

def rechecks : List Candidate := (orderBy Candidate.cmp q.staleChecked).take (q.limit / 2)

/-- `not exists(select 1 from rechecks ...)`. -/
def remaining : List Candidate := q.eligible.filter fun c => !q.rechecks.any (·.infoHash = c.infoHash)

def others : List Candidate := (orderBy Candidate.cmp q.remaining).take (q.limit - q.rechecks.length)

def selectStale : List Hash :=
  ((orderBy Candidate.cmp (q.rechecks ++ q.others)).take q.limit).map (·.infoHash)

variable {q}

theorem mem_staleChecked {c : Candidate} (h : c ∈ q.rechecks) : c ∈ q.staleChecked := mem_orderBy.mp (mem_of_mem_take h)

theorem staleChecked_subset : q.staleChecked ⊆ q.eligible := by grind [staleChecked, eligible]

theorem nodup_candidates : (q.candidates.map (·.infoHash)).Nodup := by
  simpa [candidates, Function.comp_def] using q.primaryKey

theorem nodup_eligible : (q.eligible.map (·.infoHash)).Nodup := nodup_candidates.sublist (filter_sublist.map _)

/-- The rechecks, and what the second query chooses from, are the torrents due. -/
theorem parts_perm : (q.rechecks ++ orderBy Candidate.cmp q.remaining).Perm q.eligible := by
  have hrechecks : q.rechecks.Perm (q.eligible.filter fun c => q.rechecks.any (·.infoHash = c.infoHash)) := by
    have hstale : q.staleChecked.Nodup := nodup_candidates.of_map.filter _
    refine (perm_ext_iff_of_nodup (((orderBy_perm _).nodup_iff.mpr hstale).sublist (take_sublist _ _))
      (nodup_eligible.of_map.filter _)).mpr fun c => ?_
    rw [mem_filter, any_eq_true]
    constructor
    · intro hc
      exact ⟨staleChecked_subset (mem_staleChecked hc), c, hc, decide_eq_true rfl⟩
    · rintro ⟨hc, r, hr, hhash⟩
      have hsame := inj_on_of_nodup_map nodup_eligible (staleChecked_subset (mem_staleChecked hr)) hc
        (of_decide_eq_true hhash)
      exact hsame ▸ hr
  exact (hrechecks.append (orderBy_perm _)).trans (filter_append_perm _ _)

/-- The cut at the end takes nothing away. -/
theorem selectStale_perm : q.selectStale.Perm ((q.rechecks ++ q.others).map (·.infoHash)) := by
  have hlimit : (q.rechecks ++ q.others).length ≤ q.limit := by
    simp only [length_append, rechecks, others, length_take]
    omega
  unfold selectStale
  rw [take_of_length_le ((orderBy_perm _).length_eq.trans_le hlimit)]
  exact (orderBy_perm _).map _

/-- In the second part everything never checked comes before what was checked. -/
theorem mem_others {c u : Candidate} (hc : c ∈ q.others) (hchecked : c.checkedAt.isSome) (hu : u ∈ q.remaining)
    (hnever : u.checkedAt = none) : u ∈ q.others := by
  have hsorted := @pairwise_orderBy _ Candidate.cmp _ q.remaining
  have hmem : u ∈ orderBy Candidate.cmp q.remaining := mem_orderBy.mpr hu
  rw [← take_append_drop (q.limit - q.rechecks.length) (orderBy _ _)] at hsorted hmem
  rcases mem_append.mp hmem with htaken | hlater
  · exact htaken
  · obtain ⟨time, htime⟩ := Option.isSome_iff_exists.mp hchecked
    have hle := (pairwise_append.mp hsorted).2.2 c hc u hlater
    simp only [Candidate.cmp, compareLex, compareOn, htime, hnever] at hle
    cases hle

/-- **What is selected**: as many torrents that are due as the limit allows, each once, with the oldest checks in them;
and another one that was checked only if nothing that was never checked is left out. -/
theorem selectStale_spec (q : StaleQuery) :
    q.selectStale.Nodup ∧ q.selectStale ⊆ q.eligible.map (·.infoHash) ∧
      q.selectStale.length = min q.limit q.eligible.length ∧
      ∃ oldest, oldest = (orderBy Candidate.cmp q.staleChecked).take (min (q.limit / 2) q.staleChecked.length) ∧
        (∀ c ∈ oldest, c.infoHash ∈ q.selectStale) ∧
        ∀ c ∈ q.staleChecked, c ∉ oldest → c.infoHash ∈ q.selectStale →
          ∀ u ∈ q.eligible, u.checkedAt = none → u.infoHash ∈ q.selectStale := by
  have hperm := @selectStale_perm q
  have hparts := @parts_perm q
  have hcut : q.rechecks ++ q.others <+ q.rechecks ++ orderBy Candidate.cmp q.remaining :=
    (take_sublist _ _).append_left _
  have hsub : q.rechecks ++ q.others ⊆ q.eligible := Subset.trans hcut.subset hparts.subset
  have holdest :
      (orderBy Candidate.cmp q.staleChecked).take (min (q.limit / 2) q.staleChecked.length) = q.rechecks := by
    rw [rechecks, ← (@orderBy_perm _ Candidate.cmp q.staleChecked).length_eq, ← take_eq_take_min]
  refine ⟨?_, ?_, ?_, _, rfl, ?_, ?_⟩
  · exact hperm.nodup_iff.mpr (((hparts.map _).nodup_iff.mpr nodup_eligible).sublist (hcut.map _))
  · exact Subset.trans hperm.subset (map_subset _ hsub)
  · have hlength := hparts.length_eq
    rw [hperm.length_eq, length_map]
    simp only [length_append, others, length_take] at hlength ⊢
    have hhalf : q.rechecks.length ≤ q.limit / 2 := length_take_le _ _
    omega
  · intro c hc
    rw [holdest] at hc
    exact hperm.mem_iff.mpr (mem_map_of_mem (mem_append_left _ hc))
  · intro c hc hyoung hselected u hu hnever
    rw [holdest] at hyoung
    obtain ⟨c', hc', hhash⟩ := mem_map.mp (hperm.mem_iff.mp hselected)
    obtain rfl : c' = c := inj_on_of_nodup_map nodup_eligible (hsub hc') (staleChecked_subset hc) hhash
    have hother : c' ∈ q.others := (mem_append.mp hc').resolve_left hyoung
    have hchecked : c'.checkedAt.isSome := by
      rw [staleChecked, mem_filter] at hc
      cases htime : c'.checkedAt <;> simp [htime] at hc ⊢
    have hleft : u ∈ q.remaining := by
      have hnot : u ∉ q.rechecks := by
        intro hr
        have hstale := mem_staleChecked hr
        simp [staleChecked, hnever] at hstale
      have hdue := hparts.mem_iff.mpr hu
      exact mem_orderBy.mp ((mem_append.mp hdue).resolve_left hnot)
    exact hperm.mem_iff.mpr (mem_map_of_mem (mem_append_right _ (mem_others hother hchecked hleft hnever)))

/-! ## Whole runs -/

theorem ledger_persist {db : Db} {call : PersistCall} {h : Hash} (hin : h ∈ db.torrents) {row : LedgerRow}
    (hrow : (persist db call).ledger.get? h = some row) :
    row.checkedAt = call.now ∨ h ∉ call.hashes ∧ db.ledger.get? h = some row := by
  obtain ⟨hashes, outcomes, now⟩ := call
  unfold persist at hrow
  dsimp only at hrow ⊢
  induction hashes generalizing db with
  | nil => exact .inr ⟨not_mem_nil, hrow⟩
  | cons k hashes ih =>
    have htorrents : (persistOne outcomes now db k).torrents = db.torrents := torrents_send db (k, ⟨outcomes k, now⟩)
    have hledger := ledger_send hin (k, ⟨outcomes k, now⟩)
    rcases ih (htorrents ▸ hin) hrow with hnow | ⟨hother, hkept⟩
    · exact .inl hnow
    · replace hkept := hledger.symm.trans hkept
      split_ifs at hkept
      · cases hold : db.ledger.get? h <;> grind [LedgerRow.replacedBy, newRow]
      · grind

/-- A cycle of the runner without error or late denial: all that is selected is checked. Until the next one torrents
come, and go with their ledger rows. -/
structure Cycle (q q' : StaleQuery) : Prop where
  limit : q'.limit = q.limit
  checks : ∃ call : PersistCall, call.hashes = q.selectStale ∧ q.cutoff ≤ call.now ∧
    ∀ h row, q'.db.ledger.get? h = some row → h ∈ q.db.torrents ∧ (persist q.db call).ledger.get? h = some row

/-- The torrents whose check is before that of a candidate. -/
def ahead (q : StaleQuery) (c : Candidate) : List Hash :=
  let before (r : LedgerRow) := (Candidate.cmp ⟨r.infoHash, some r.checkedAt⟩ c).isLE && r.infoHash ≠ c.infoHash
  (q.db.ledger.rows.filter before).map (·.infoHash)

variable {q q' : StaleQuery} {c : Candidate}

theorem mem_ahead {h : Hash} : h ∈ q.ahead c ↔ h ≠ c.infoHash ∧ ∃ row, q.db.ledger.get? h = some row ∧
    (Candidate.cmp ⟨h, some row.checkedAt⟩ c).isLE = true := by
  simp only [ahead, mem_map, mem_filter, Bool.and_eq_true, decide_eq_true_eq]
  constructor
  · rintro ⟨row, ⟨hrow, hle, hne⟩, rfl⟩
    exact ⟨hne, row, get?_of_mem hrow, hle⟩
  · rintro ⟨hne, row, hrow, hle⟩
    obtain rfl := get?_key hrow
    exact ⟨row, ⟨get?_mem hrow, hle, hne⟩, rfl⟩

theorem rechecks_ahead (hc : c ∈ q.staleChecked) (hleft : c.infoHash ∉ q.selectStale) :
    q.rechecks.length = q.limit / 2 ∧ ∀ r ∈ q.rechecks,
      r.infoHash ∈ q.selectStale ∧ r.infoHash ∈ q.ahead c := by
  have hselected : ∀ r ∈ q.rechecks, r.infoHash ∈ q.selectStale := fun r hr =>
    selectStale_perm.mem_iff.mpr (mem_map_of_mem (mem_append_left _ hr))
  have hnot : c ∉ q.rechecks := fun hr => hleft (hselected c hr)
  constructor
  · rw [rechecks, length_take]
    refine min_eq_left (le_of_not_ge fun hall => hnot ?_)
    rw [rechecks, take_of_length_le hall]
    exact mem_orderBy.mpr hc
  · intro r hr
    have hlater : c ∈ (orderBy Candidate.cmp q.staleChecked).drop (q.limit / 2) := by
      have hmem : c ∈ orderBy Candidate.cmp q.staleChecked := mem_orderBy.mpr hc
      rw [← take_append_drop (q.limit / 2) (orderBy _ _)] at hmem
      exact (mem_append.mp hmem).resolve_left hnot
    have hsorted := @pairwise_orderBy _ Candidate.cmp _ q.staleChecked
    rw [← take_append_drop (q.limit / 2) (orderBy _ _)] at hsorted
    have hle := (pairwise_append.mp hsorted).2.2 r hr c hlater
    have hstale := mem_staleChecked hr
    unfold staleChecked candidates at hstale
    obtain ⟨hmem, hchecked⟩ := mem_filter.mp hstale
    obtain ⟨k, -, rfl⟩ := mem_map.mp hmem
    refine ⟨hselected _ hr, mem_ahead.mpr ⟨fun hsame => hleft (hsame ▸ hselected _ hr), ?_⟩⟩
    cases hrow : q.db.ledger.get? k with
    | none => simp [hrow] at hchecked
    | some row => exact ⟨row, rfl, by simpa [hrow] using hle⟩

theorem ahead_of_cycle (h : Cycle q q') (hc : c ∈ q.staleChecked) {x : Hash} (hx : x ∈ q'.ahead c) :
    x ∈ q.ahead c ∧ x ∉ q.selectStale := by
  obtain ⟨hne, row, hrow, hle⟩ := mem_ahead.mp hx
  obtain ⟨call, hhashes, hnow, hrows⟩ := h.checks
  obtain ⟨hin, hpersisted⟩ := hrows x row hrow
  rcases ledger_persist hin hpersisted with hchecked | ⟨hother, hkept⟩
  · obtain ⟨time, htime, hcut⟩ : ∃ time, c.checkedAt = some time ∧ time < q.cutoff := by
      cases htime : c.checkedAt <;> grind [staleChecked]
    have hgt : compare row.checkedAt time = .gt := Nat.compare_eq_gt.mpr (by grind)
    have hthen : ((compare row.checkedAt time).then (compare x c.infoHash)).isLE = true := by
      rw [Candidate.cmp, compareLex, compareOn, htime] at hle
      exact hle
    rw [hgt] at hthen
    cases hthen
  · exact ⟨mem_ahead.mpr ⟨hne, row, hkept, hle⟩, hhashes ▸ hother⟩

/-- **One cycle** takes half of the limit from those ahead of a torrent that it does not select. -/
theorem ahead_cycle (h : Cycle q q') (hc : c ∈ q.staleChecked) (hleft : c.infoHash ∉ q.selectStale) :
    (q'.ahead c).length + q.limit / 2 ≤ (q.ahead c).length := by
  obtain ⟨hlen, hrechecks⟩ := rechecks_ahead hc hleft
  have hnodup : (q'.ahead c ++ q.rechecks.map (·.infoHash)).Nodup := by
    refine nodup_append'.mpr ⟨q'.db.ledger.nodup.sublist (filter_sublist.map _), ?_, ?_⟩
    · refine Nodup.sublist ((take_sublist _ _).map _) (((orderBy_perm _).map _).nodup_iff.mpr ?_)
      exact nodup_candidates.sublist (filter_sublist.map _)
    · grind [ahead_of_cycle, List.Disjoint]
  have hsub : q'.ahead c ++ q.rechecks.map (·.infoHash) ⊆ q.ahead c := by grind [ahead_of_cycle]
  have hle := (subperm_of_subset hnodup hsub).length_le
  rwa [length_append, length_map, hlen] at hle

/-- **Rechecks are not starved**: a torrent that is due for a recheck and has waited for `n` cycles had at least `n`
times half of the limit ahead of it, whatever comes in between. -/
theorem rechecks_not_starved (q : Nat → StaleQuery) (c : Candidate) (n : Nat)
    (hcycles : ∀ i < n, Cycle (q i) (q (i + 1)))
    (hwaits : ∀ i < n, c ∈ (q i).staleChecked ∧ c.infoHash ∉ (q i).selectStale) :
    n * ((q 0).limit / 2) ≤ ((q 0).ahead c).length := by
  have hahead : (q n).limit = (q 0).limit ∧
      ((q n).ahead c).length + n * ((q 0).limit / 2) ≤ ((q 0).ahead c).length := by
    induction n with
    | zero => simp
    | succ n ih =>
      obtain ⟨hlimit, hbefore⟩ := ih (fun i hi => hcycles i (by omega)) fun i hi => hwaits i (by omega)
      have hcycle := hcycles n n.lt_succ_self
      have hstep := ahead_cycle hcycle (hwaits n n.lt_succ_self).1 (hwaits n n.lt_succ_self).2
      rw [hlimit] at hstep
      rw [Nat.succ_mul]
      exact ⟨hcycle.limit.trans hlimit, by omega⟩
  omega

/-- Two torrents with old checks and a new one, which is selected before the second of them. -/
def backlog : StaleQuery where
  db := ⟨[[1], [2], [3]], ⟨[newRow [1] none 1, newRow [2] none 2], by decide⟩, .empty⟩
  primaryKey := by decide
  admission _ := true
  cutoff := 5
  limit := 2

theorem backlog_waits_behind_one : 1 * (backlog.limit / 2) ≤ (backlog.ahead ⟨[2], some 2⟩).length := by
  let call : PersistCall := ⟨backlog.selectStale, fun _ => none, 5⟩
  let next : StaleQuery := ⟨persist backlog.db call, by decide +kernel, fun _ => true, 9, 2⟩
  refine rechecks_not_starved (fun i => if i = 0 then backlog else next) _ 1 ?_ ?_
  · intro i hi
    obtain rfl : i = 0 := by omega
    have hrows : ∀ r ∈ (persist backlog.db call).ledger.rows, r.infoHash ∈ backlog.db.torrents := by decide +kernel
    exact ⟨rfl, call, rfl, le_rfl, fun h row hrow => ⟨get?_key hrow ▸ hrows row (get?_mem hrow), hrow⟩⟩
  · intro i hi
    obtain rfl : i = 0 := by omega
    exact ⟨mem_filter.mpr ⟨mem_map.mpr ⟨[2], by decide, rfl⟩, by decide⟩, by decide +kernel⟩

end StaleQuery

end BitAgent.Seeds
