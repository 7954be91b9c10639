/-
# Seeds.Scraper — what a tracker's numbers do to the outcomes

`mergeResult` and the two sections of `scrapeTrackerChunks` that hold the mutex: the first withholds the hashes that
an admission check denied, the second merges an answer. `countsOf` says what an outcome should show of the reported
numbers, in any order; one more shows after `mergeResult` (`counts_mergeResult`).
-/
import Mathlib
import BitAgent.Lib.GoString
import BitAgent.Lib.Prelude

namespace BitAgent.Seeds

open Lib List

attribute [local instance] decidableMem

abbrev Hash := GoString

/-! ## Outcomes -/

/-- `scrapeItem`. The numbers are only compared. -/
structure ScrapeItem where
  seeders : Int
  leechers : Int
  completed : Int
  deriving DecidableEq

structure ScrapeOutcome where
  trackerKnown : Bool
  seeders : Int
  leechers : Int
  completed : Int
  bestTracker : String

/-- `ScrapeOutcome{}`. -/
def ScrapeOutcome.zero : ScrapeOutcome :=
  { trackerKnown := false, seeders := 0, leechers := 0, completed := 0, bestTracker := "" }

def mergeResult (o : ScrapeOutcome) (trackerURL : String) (item : ScrapeItem) : ScrapeOutcome :=
  if item.seeders ≤ 0 ∧ item.leechers ≤ 0 ∧ item.completed ≤ 0 then o
  else
    { trackerKnown := true
      seeders := if o.seeders < item.seeders then item.seeders else o.seeders
      leechers := if o.leechers < item.leechers then item.leechers else o.leechers
      completed := if o.completed < item.completed then item.completed else o.completed
      bestTracker := if o.seeders < item.seeders then trackerURL else o.bestTracker }

structure Counts where
  known : Bool
  seeders : Int
  leechers : Int
  completed : Int

def ScrapeOutcome.counts (o : ScrapeOutcome) : Counts :=
  { known := o.trackerKnown, seeders := o.seeders, leechers := o.leechers, completed := o.completed }

def ScrapeItem.positive (item : ScrapeItem) : Bool :=
  decide (0 < item.seeders) || decide (0 < item.leechers) || decide (0 < item.completed)

def greatest (f : ScrapeItem → Int) (items : List ScrapeItem) : Int := (items.map f).foldl max 0

def countsOf (items : List ScrapeItem) : Counts where
  known := items.any ScrapeItem.positive
  seeders := greatest (·.seeders) items
  leechers := greatest (·.leechers) items
  completed := greatest (·.completed) items

theorem greatest_concat (f : ScrapeItem → Int) (items : List ScrapeItem) (item : ScrapeItem) :
    greatest f (items ++ [item]) = max (greatest f items) (f item) := by
  rw [greatest, map_append, foldl_append]
  rfl

theorem greatest_nonneg (f : ScrapeItem → Int) (items : List ScrapeItem) : 0 ≤ greatest f items := by
  induction items using List.reverseRecOn with
  | nil => exact Int.le_refl 0
  | append_singleton items item ih => grind [greatest_concat]

variable {items : List ScrapeItem}

theorem countsOf_perm {items' : List ScrapeItem} (h : items.Perm items') : countsOf items = countsOf items' := by
  have hgreatest : ∀ f : ScrapeItem → Int, greatest f items = greatest f items' := by
    intro f
    refine (h.map f).foldl_eq' (fun x _ y _ z => ?_) 0
    rw [Int.max_assoc, Int.max_comm x y, ← Int.max_assoc]
  grind [countsOf]

theorem ScrapeItem.not_positive_iff {item : ScrapeItem} :
    item.positive = false ↔ item.seeders ≤ 0 ∧ item.leechers ≤ 0 ∧ item.completed ≤ 0 := by
  grind [ScrapeItem.positive]

theorem counts_of_positive {item : ScrapeItem} (h : item.positive = true) (o : ScrapeOutcome) (trackerURL : String) :
    (mergeResult o trackerURL item).counts =
      { known := true, seeders := max o.seeders item.seeders, leechers := max o.leechers item.leechers,
        completed := max o.completed item.completed } := by
  grind [ScrapeItem.not_positive_iff, mergeResult, ScrapeOutcome.counts]

theorem counts_mergeResult {o : ScrapeOutcome} (h : o.counts = countsOf items) (trackerURL : String)
    (item : ScrapeItem) :
    (mergeResult o trackerURL item).counts = countsOf (items ++ [item]) := by
  have hparts : o.trackerKnown = items.any ScrapeItem.positive ∧ o.seeders = greatest (·.seeders) items ∧
      o.leechers = greatest (·.leechers) items ∧ o.completed = greatest (·.completed) items := by
    simpa [ScrapeOutcome.counts, countsOf] using h
  obtain ⟨hknown, hseeders, hleechers, hcompleted⟩ := hparts
  unfold countsOf
  rw [any_append, any_cons, any_nil, Bool.or_false, greatest_concat, greatest_concat,
    greatest_concat, ← hknown, ← hseeders, ← hleechers, ← hcompleted]
  cases hitem : item.positive with
  | true => rw [counts_of_positive hitem, Bool.or_true]
  | false =>
    -- what is ignored would not have been greater
    have hzero := ScrapeItem.not_positive_iff.mp hitem
    have hs := greatest_nonneg (·.seeders) items
    have hl := greatest_nonneg (·.leechers) items
    have hc := greatest_nonneg (·.completed) items
    rw [mergeResult, if_pos hzero, Bool.or_false, Int.max_eq_left (by omega), Int.max_eq_left (by omega),
      Int.max_eq_left (by omega)]
    rfl

/-! ## The sections under the mutex -/

structure Shared where
  out : GoMap Hash ScrapeOutcome
  withheld : List Hash

/-- The first loop of `call`: what is not allowed is withheld from now on. -/
def Shared.withhold (s : Shared) (allowed : List Hash) (chunk : List Hash) : Shared :=
  chunk.foldl (fun s h => if h ∈ allowed then s else { out := s.out.delete h, withheld := h :: s.withheld }) s

/-- The second loop of `call`: what is allowed and not withheld. -/
def Shared.admitted (s : Shared) (allowed : List Hash) : List Hash := allowed.filter fun h => decide (h ∉ s.withheld)

/-- One report, under the mutex; that of a hash withheld meanwhile is dropped. -/
def Shared.mergeOne (trackerURL : String) (s : Shared) (report : Hash × ScrapeItem) : Shared :=
  if report.1 ∈ s.withheld then s
  else { s with out := s.out.set report.1 (mergeResult ((s.out.lookup report.1).getD .zero) trackerURL report.2) }

/-- The reports of one answer, in the order of the request. -/
def Shared.merge (s : Shared) (trackerURL : String) (admitted : List Hash) (items : List ScrapeItem) : Shared :=
  (admitted.zip items).foldl (Shared.mergeOne trackerURL) s

theorem Shared.mem_withhold {s : Shared} {allowed chunk : List Hash} {h : Hash} :
    h ∈ (s.withhold allowed chunk).withheld ↔ h ∈ s.withheld ∨ h ∈ chunk ∧ h ∉ allowed := by
  unfold Shared.withhold
  induction chunk generalizing s with
  | nil => simp
  | cons k chunk ih =>
    rw [foldl_cons, ih, mem_cons]
    split_ifs with hk
    · grind
    · grind

theorem Shared.lookup_withhold {s : Shared} {allowed chunk : List Hash} (h : Hash) :
    (s.withhold allowed chunk).out.lookup h =
      if h ∈ chunk ∧ h ∉ allowed then none else s.out.lookup h := by
  unfold Shared.withhold
  induction chunk generalizing s with
  | nil => simp
  | cons k chunk ih =>
    rw [foldl_cons, ih]
    by_cases hk : k ∈ allowed
    · grind
    · grind [GoMap.lookup_delete]

structure Shared.Covers (s : Shared) (hashes : List Hash) : Prop where
  absent : ∀ h ∈ s.withheld, s.out.lookup h = none
  present : ∀ h ∈ hashes, h ∉ s.withheld → s.out.lookup h ≠ none

def about (h : Hash) (reports : List (Hash × ScrapeItem)) : List ScrapeItem :=
  (reports.filter fun r => decide (r.1 = h)).map Prod.snd

def Shared.Shows (s : Shared) (reports : List (Hash × ScrapeItem)) : Prop :=
  ∀ h o, s.out.lookup h = some o → o.counts = countsOf (about h reports)

theorem about_concat (h : Hash) (reports : List (Hash × ScrapeItem)) (report : Hash × ScrapeItem) :
    about h (reports ++ [report]) = about h reports ++ if report.1 = h then [report.2] else [] := by
  by_cases hreport : report.1 = h <;> simp [about, hreport]

section
variable {s : Shared} {hashes allowed chunk : List Hash} {reports : List (Hash × ScrapeItem)}

theorem Shared.Covers.withhold (hs : s.Covers hashes) : (s.withhold allowed chunk).Covers hashes where
  absent h hh := by
    rw [Shared.lookup_withhold]
    split_ifs with hdenied
    · rfl
    · exact hs.absent h ((Shared.mem_withhold.mp hh).resolve_right hdenied)
  present h hh hfree := by
    rw [Shared.mem_withhold, not_or] at hfree
    rw [Shared.lookup_withhold, if_neg hfree.2]
    exact hs.present h hh hfree.1

theorem Shared.Shows.withhold (hs : s.Shows reports) : (s.withhold allowed chunk).Shows reports := by
  intro h o ho
  rw [Shared.lookup_withhold] at ho
  split at ho
  · cases ho
  · exact hs h o ho

theorem Shared.withheld_mergeOne (trackerURL : String) (report : Hash × ScrapeItem) :
    (Shared.mergeOne trackerURL s report).withheld = s.withheld := by
  unfold Shared.mergeOne
  split <;> rfl

variable {report : Hash × ScrapeItem}

theorem Shared.Covers.mergeOne (hs : s.Covers hashes) (trackerURL : String) (hrequested : report.1 ∈ hashes) :
    (Shared.mergeOne trackerURL s report).Covers hashes := by
  have hnone : ∀ h, (Shared.mergeOne trackerURL s report).out.lookup h = none ↔ s.out.lookup h = none := by
    intro h
    unfold Shared.mergeOne
    split
    · exact Iff.rfl
    · rename_i hfree
      rw [GoMap.lookup_set]
      split
      · rename_i heq
        subst heq
        constructor
        · intro hnone
          cases hnone
        · intro hnone
          exact absurd hnone (hs.present _ hrequested hfree)
      · exact Iff.rfl
  refine ⟨fun h hh => ?_, fun h hh hfree => ?_⟩
  · rw [Shared.withheld_mergeOne] at hh
    exact (hnone h).mpr (hs.absent h hh)
  · rw [Shared.withheld_mergeOne] at hfree
    exact fun hlookup => hs.present h hh hfree ((hnone h).mp hlookup)

theorem Shared.Shows.mergeOne (hshows : s.Shows reports) (hs : s.Covers hashes) (trackerURL : String)
    (hrequested : report.1 ∈ hashes) :
    (Shared.mergeOne trackerURL s report).Shows (reports ++ [report]) := by
  intro h o ho
  rw [about_concat]
  unfold Shared.mergeOne at ho
  split at ho
  · rename_i hwithheld
    have hne : report.1 ≠ h := by
      rintro rfl
      rw [hs.absent _ hwithheld] at ho
      cases ho
    rw [if_neg hne, append_nil]
    exact hshows h o ho
  · rename_i hfree
    rw [GoMap.lookup_set] at ho
    split at ho
    · rename_i heq
      subst heq
      rw [if_pos rfl]
      obtain ⟨old, hold⟩ := Option.ne_none_iff_exists'.mp (hs.present _ hrequested hfree)
      rw [hold, Option.getD_some, Option.some.injEq] at ho
      rw [← ho]
      exact counts_mergeResult (hshows _ _ hold) trackerURL report.2
    · rename_i hne
      rw [if_neg (Ne.symm hne), append_nil]
      exact hshows h o ho

theorem Shared.merge_spec (hs : s.Covers hashes) (hshows : s.Shows reports) (trackerURL : String)
    {admitted : List Hash} (hadmitted : ∀ h ∈ admitted, h ∈ hashes) (items : List ScrapeItem) :
    (s.merge trackerURL admitted items).withheld = s.withheld ∧ (s.merge trackerURL admitted items).Covers hashes ∧
      (s.merge trackerURL admitted items).Shows (reports ++ admitted.zip items) := by
  have hrequested : ∀ r ∈ admitted.zip items, r.1 ∈ hashes := fun r hr => hadmitted _ (of_mem_zip hr).1
  unfold Shared.merge
  generalize admitted.zip items = answer at hrequested ⊢
  induction answer generalizing s reports with
  | nil =>
    rw [append_nil]
    exact ⟨rfl, hs, hshows⟩
  | cons report answer ih =>
    have hone := hrequested report mem_cons_self
    obtain ⟨hwithheld, hcovers, hshows'⟩ := ih (hs.mergeOne trackerURL hone) (hshows.mergeOne hs trackerURL hone)
      fun r hr => hrequested r (mem_cons_of_mem report hr)
    grind [Shared.withheld_mergeOne]

end

end BitAgent.Seeds
