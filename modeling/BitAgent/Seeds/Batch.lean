/-
# Seeds.Batch — one batch of hashes against all trackers

`ScrapeBatch` and `scrapeTrackerChunks` of `internal/seeds/scraper.go`, as a machine that takes the steps of its
goroutines in any order: for each chunk the admission check, the call of the tracker, one more try, and the merge. A
step is a section under the mutex or a call that returns. `checks` and `answers` are histories that no step reads.
That the right answer is merged under the right hashes is part of the invariant (`Worker.Aligned`, `sound_step`).
-/
import BitAgent.Lib.Run
import BitAgent.Seeds.Scraper

namespace BitAgent.Seeds

open Lib List

/-! ## The machine -/

/-- The arguments of `ScrapeBatch` and of its configuration. `gated`: there is an admission check. -/
structure Batch where
  hashes : List Hash
  trackerUrls : List String
  concurrency : Int
  maxHashesPerPacket : Int
  gated : Bool

def Batch.limit (b : Batch) : Nat := if b.maxHashesPerPacket ≤ 0 then 70 else b.maxHashesPerPacket.toNat

/-- `hashes[start:end]`. -/
def Batch.chunk (b : Batch) (start : Nat) : List Hash := (b.hashes.drop start).take b.limit

structure Answer where
  request : List Hash
  items : List ScrapeItem

def Answer.reports (a : Answer) : List (Hash × ScrapeItem) := a.request.zip a.items

inductive Phase where
  /-- not started, or at its end -/
  | idle
  /-- at the head of the loop over the chunks -/
  | loop
  /-- at the head of an attempt -/
  | attempt
  /-- waiting for the tracker -/
  | scraping (request : List Hash)
  /-- back from the tracker, with the transaction of the admission check still open -/
  | committing (answer : Answer)
  /-- about to merge -/
  | merging (answer : Answer)

/-- The variables of `scrapeTrackerChunks`. -/
structure Worker where
  phase : Phase
  start : Nat
  attempt : Nat
  admitted : List Hash
  items : List ScrapeItem
  scrapedAny : Bool
  consecutiveFails : Nat

def Worker.fresh : Worker where
  phase := .idle
  start := 0
  attempt := 0
  admitted := []
  items := []
  scrapedAny := false
  consecutiveFails := 0

structure State where
  shared : Shared
  cancelled : Bool
  admissionErr : Bool
  launched : Nat
  stopped : Bool
  workers : Nat → Worker
  checks : List (List Hash × List Hash)
  answers : List Answer

/-- `ScrapeBatch` before its loop: every hash has an outcome. -/
def Batch.begin (b : Batch) : State where
  shared := { out := b.hashes.foldl (fun out h => out.set h .zero) .empty, withheld := [] }
  cancelled := false
  admissionErr := false
  launched := 0
  stopped := false
  workers _ := .fresh
  checks := []
  answers := []

/-- What can happen next. `i` is a goroutine. -/
inductive Action where
  /-- `ScrapeBatch` starts the goroutine for the next tracker -/
  | launch
  /-- `ScrapeBatch` sees that the context is done -/
  | stop
  | cancel
  | next (i : Nat)
  /-- the goroutine sees that the context is done -/
  | leave (i : Nat)
  /-- the admission check lets some hashes through -/
  | check (i : Nat) (eligible : Hash → Bool)
  /-- the admission check fails -/
  | gateFail (i : Nat)
  /-- the tracker answers, or the call fails -/
  | answer (i : Nat) (items : List ScrapeItem) (ok : Bool)
  /-- the transaction of the admission check ends -/
  | commit (i : Nat) (ok : Bool)
  | merge (i : Nat)

def chunkScrapeRetries : Nat := 1
def maxConsecutiveChunkFails : Nat := 4

/-- To the next chunk of the same tracker. -/
def Worker.advance (b : Batch) (w : Worker) : Worker := { w with phase := .loop, start := w.start + b.limit }

/-- A call failed: the chunk is retried once. A tracker is given up if it never answered, or after four chunks in a row;
otherwise its next chunk follows. -/
def Worker.failAttempt (b : Batch) (w : Worker) : Worker :=
  if w.attempt < chunkScrapeRetries then { w with phase := .attempt, attempt := w.attempt + 1 }
  else if !w.scrapedAny then { w with phase := .idle }
  else if maxConsecutiveChunkFails ≤ w.consecutiveFails + 1 then
    { w with phase := .idle, consecutiveFails := w.consecutiveFails + 1 }
  else { w with consecutiveFails := w.consecutiveFails + 1 }.advance b

/-- A call came back; with nothing admitted there is nothing to merge. -/
def Worker.succeed (b : Batch) (w : Worker) (answer : Answer) : Worker :=
  if w.admitted = [] then w.advance b
  else { w with phase := .merging answer, consecutiveFails := 0, scrapedAny := true }

/-- Behind a gate the transaction of the check is committed before the answer counts. -/
def Worker.called (b : Batch) (w : Worker) (answer : Answer) : Worker :=
  if b.gated then { w with phase := .committing answer } else w.succeed b answer

/-- The goroutine `i` as it is now. -/
def State.update (s : State) (i : Nat) (w : Worker) : State := { s with workers := Function.update s.workers i w }

/-- `reportAdmissionError`, and the goroutine ends. -/
def State.fail (s : State) (i : Nat) : State :=
  { s.update i { s.workers i with phase := .idle } with admissionErr := true, cancelled := true }

/-- The goroutines under way. -/
def State.running (s : State) : Nat :=
  ((List.range s.launched).filter fun i =>
    match (s.workers i).phase with
    | .idle => false
    | _ => true).length

/-- The section of `call` under the mutex. -/
def State.check (b : Batch) (s : State) (i : Nat) (eligible : Hash → Bool) : State :=
  let w := s.workers i
  let chunk := b.chunk w.start
  let allowed := if b.gated then chunk.filter eligible else chunk
  let shared := s.shared.withhold allowed chunk
  let w := { w with admitted := shared.admitted allowed }
  let w := if w.admitted = [] then w.called b ⟨[], []⟩ else { w with phase := .scraping w.admitted }
  { s.update i w with shared, checks := s.checks ++ [(chunk, allowed)] }

def State.merge (b : Batch) (s : State) (i : Nat) (answer : Answer) : State :=
  let w := s.workers i
  { s.update i (w.advance b) with
    shared := s.shared.merge ((b.trackerUrls[i]?).getD "") w.admitted w.items
    answers := s.answers ++ [answer] }

def step (b : Batch) (s : State) : Action → State
  | .launch =>
    if s.stopped = false ∧ s.launched < b.trackerUrls.length ∧ s.running < max 1 b.concurrency then
      { s.update s.launched { Worker.fresh with phase := .loop } with launched := s.launched + 1 }
    else s
  | .stop => if s.cancelled then { s with stopped := true } else s
  | .cancel => { s with cancelled := true }
  | .next i =>
    match (s.workers i).phase with
    | .loop =>
      if (s.workers i).start < b.hashes.length then
        s.update i { s.workers i with phase := .attempt, attempt := 0, admitted := [], items := [] }
      else s.update i { s.workers i with phase := .idle }
    | _ => s
  | .leave i =>
    match (s.workers i).phase, s.cancelled with
    | .loop, true => s.update i { s.workers i with phase := .idle }
    | .attempt, true => s.update i { s.workers i with phase := .idle }
    | _, _ => s
  | .check i eligible =>
    match (s.workers i).phase with
    | .attempt => s.check b i eligible
    | _ => s
  | .gateFail i =>
    match (s.workers i).phase, b.gated with
    | .attempt, true => s.fail i
    | _, _ => s
  | .answer i items ok =>
    match (s.workers i).phase with
    | .scraping request =>
      let w := { s.workers i with items }
      s.update i (if ok then w.called b ⟨request, items⟩ else w.failAttempt b)
    | _ => s
  | .commit i ok =>
    match (s.workers i).phase with
    | .committing answer => if ok then s.update i ((s.workers i).succeed b answer) else s.fail i
    | _ => s
  | .merge i =>
    match (s.workers i).phase with
    | .merging answer => s.merge b i answer
    | _ => s

def stateAfter (b : Batch) (run : List Action) : State := run.foldl (step b) b.begin

/-! ## What holds in every state -/

/-- Some check refused the hash. -/
def State.Denied (s : State) (h : Hash) : Prop := ∃ c ∈ s.checks, h ∈ c.1 ∧ h ∉ c.2
def State.reports (s : State) : List (Hash × ScrapeItem) := s.answers.flatMap Answer.reports

def Worker.Aligned (b : Batch) (w : Worker) : Prop :=
  match w.phase with
  | .scraping request => w.admitted = request ∧ ∀ h ∈ request, h ∈ b.hashes
  | .committing answer =>
    w.admitted = answer.request ∧ (w.admitted ≠ [] → w.items = answer.items) ∧ ∀ h ∈ answer.request, h ∈ b.hashes
  | .merging answer => w.admitted = answer.request ∧ w.items = answer.items ∧ ∀ h ∈ answer.request, h ∈ b.hashes
  | _ => True

/-- The invariant of a batch under every interleaving. -/
structure State.Sound (b : Batch) (s : State) : Prop where
  withheld_iff : ∀ h, h ∈ s.shared.withheld ↔ s.Denied h
  covers : s.shared.Covers b.hashes
  shows : s.shared.Shows s.reports
  aligned : ∀ i, (s.workers i).Aligned b

section
variable {b : Batch} {s : State} {i : Nat}

theorem lookup_begin (b : Batch) (h : Hash) :
    b.begin.shared.out.lookup h = if h ∈ b.hashes then some .zero else none := by
  suffices hset : ∀ (hashes : List Hash) (m : GoMap Hash ScrapeOutcome),
      (hashes.foldl (fun out h => out.set h .zero) m).lookup h =
        if h ∈ hashes then some .zero else m.lookup h from hset b.hashes .empty
  intro hashes
  induction hashes with
  | nil => simp
  | cons k hashes ih => grind [GoMap.lookup_set]

theorem sound_begin (b : Batch) : b.begin.Sound b where
  withheld_iff h := by simp [Batch.begin, State.Denied]
  covers := by
    refine ⟨fun h hh => (by cases hh), fun h hh _ => ?_⟩
    grind [lookup_begin]
  shows h o ho := by
    rw [lookup_begin] at ho
    split at ho
    · cases ho
      rfl
    · cases ho
  aligned i := trivial

variable {w : Worker}

theorem aligned_update (hs : ∀ j, (s.workers j).Aligned b) (hw : w.Aligned b) (j : Nat) :
    ((s.update i w).workers j).Aligned b := by
  show (Function.update s.workers i w j).Aligned b
  grind

theorem State.Sound.update (hs : s.Sound b) (hw : w.Aligned b) : (s.update i w).Sound b where
  withheld_iff := hs.withheld_iff
  covers := hs.covers
  shows := hs.shows
  aligned := aligned_update hs.aligned hw

theorem State.Sound.fail (hs : s.Sound b) : (s.fail i).Sound b where
  withheld_iff := hs.withheld_iff
  covers := hs.covers
  shows := hs.shows
  aligned := aligned_update hs.aligned trivial

theorem aligned_failAttempt (w : Worker) : (w.failAttempt b).Aligned b := by
  unfold Worker.failAttempt
  split_ifs <;> trivial

variable {answer : Answer}

theorem aligned_succeed (hadmitted : w.admitted = answer.request) (hitems : w.admitted ≠ [] → w.items = answer.items)
    (hrequest : ∀ h ∈ answer.request, h ∈ b.hashes) :
    (w.succeed b answer).Aligned b := by
  unfold Worker.succeed
  split_ifs with hempty
  · trivial
  · exact ⟨hadmitted, hitems hempty, hrequest⟩

theorem aligned_called (hadmitted : w.admitted = answer.request) (hitems : w.admitted ≠ [] → w.items = answer.items)
    (hrequest : ∀ h ∈ answer.request, h ∈ b.hashes) :
    (w.called b answer).Aligned b := by
  unfold Worker.called
  split_ifs
  · exact ⟨hadmitted, hitems, hrequest⟩
  · exact aligned_succeed hadmitted hitems hrequest

theorem mem_hashes_of_mem_chunk {start : Nat} {h : Hash} (hh : h ∈ b.chunk start) : h ∈ b.hashes :=
  mem_of_mem_drop (mem_of_mem_take hh)

theorem State.Sound.check (hs : s.Sound b) (eligible : Hash → Bool) : (s.check b i eligible).Sound b := by
  unfold State.check
  simp only []
  generalize hchunk : b.chunk (s.workers i).start = chunk
  generalize hallowed : (if b.gated then chunk.filter eligible else chunk) = allowed
  have hsub : ∀ h ∈ allowed, h ∈ b.hashes := by grind [mem_hashes_of_mem_chunk]
  refine ⟨fun h => ?_, hs.covers.withhold, hs.shows.withhold, aligned_update hs.aligned ?_⟩
  · show h ∈ (s.shared.withhold allowed chunk).withheld ↔ ∃ c ∈ s.checks ++ [(chunk, allowed)], h ∈ c.1 ∧ h ∉ c.2
    rw [Shared.mem_withhold, hs.withheld_iff]
    constructor
    · rintro (⟨c, hc, hdenied⟩ | hdenied)
      · exact ⟨c, mem_append_left _ hc, hdenied⟩
      · exact ⟨(chunk, allowed), mem_append_right _ (mem_singleton_self _), hdenied⟩
    · rintro ⟨c, hc, hdenied⟩
      rcases mem_append.mp hc with hold | hnew
      · exact .inl ⟨c, hold, hdenied⟩
      · grind
  · split_ifs with hempty
    · grind [aligned_called]
    · exact ⟨rfl, fun h hh => hsub h (mem_filter.mp hh).1⟩

theorem State.Sound.merge (hs : s.Sound b) (hphase : (s.workers i).phase = .merging answer) :
    (s.merge b i answer).Sound b := by
  have haligned := hs.aligned i
  unfold Worker.Aligned at haligned
  rw [hphase] at haligned
  obtain ⟨hadmitted, hitems, hrequest⟩ := haligned
  have hspec := Shared.merge_spec hs.covers hs.shows ((b.trackerUrls[i]?).getD "") hrequest answer.items
  rw [← hadmitted, ← hitems] at hspec
  obtain ⟨hwithheld, hcovers, hshows⟩ := hspec
  refine ⟨fun h => ?_, hcovers, ?_, aligned_update hs.aligned trivial⟩
  · show h ∈ (Shared.merge _ _ _ _).withheld ↔ s.Denied h
    rw [hwithheld, hs.withheld_iff]
  · show (Shared.merge _ _ _ _).Shows ((s.answers ++ [answer]).flatMap Answer.reports)
    rw [flatMap_append, flatMap_singleton, Answer.reports, ← hadmitted, ← hitems]
    exact hshows

theorem sound_step (hs : s.Sound b) (a : Action) : (step b s a).Sound b := by
  cases a with
  | launch =>
    simp only [step]
    split_ifs
    · have hnew := hs.update (i := s.launched) (w := { Worker.fresh with phase := .loop }) trivial
      exact ⟨hnew.withheld_iff, hnew.covers, hnew.shows, hnew.aligned⟩
    · exact hs
  | stop =>
    simp only [step]
    split_ifs
    · exact ⟨hs.withheld_iff, hs.covers, hs.shows, hs.aligned⟩
    · exact hs
  | cancel => exact ⟨hs.withheld_iff, hs.covers, hs.shows, hs.aligned⟩
  | next i =>
    simp only [step]
    split
    · split_ifs
      · exact hs.update trivial
      · exact hs.update trivial
    · exact hs
  | leave i =>
    simp only [step]
    split
    · exact hs.update trivial
    · exact hs.update trivial
    · exact hs
  | check i eligible =>
    simp only [step]
    split
    · exact hs.check eligible
    · exact hs
  | gateFail i =>
    simp only [step]
    split
    · exact hs.fail
    · exact hs
  | answer i items ok =>
    simp only [step]
    split
    · rename_i request hphase
      have haligned := hs.aligned i
      unfold Worker.Aligned at haligned
      rw [hphase] at haligned
      cases ok with
      | true => exact hs.update (aligned_called haligned.1 (fun _ => rfl) haligned.2)
      | false => exact hs.update (aligned_failAttempt _)
    · exact hs
  | commit i ok =>
    simp only [step]
    split
    · rename_i answer hphase
      have haligned := hs.aligned i
      unfold Worker.Aligned at haligned
      rw [hphase] at haligned
      cases ok with
      | true => exact hs.update (aligned_succeed haligned.1 haligned.2.1 haligned.2.2)
      | false => exact hs.fail
    · exact hs
  | merge i =>
    simp only [step]
    split
    · rename_i answer hphase
      exact hs.merge hphase
    · exact hs

theorem sound_stateAfter (b : Batch) (run : List Action) : (stateAfter b run).Sound b :=
  Run.foldl_invariant (step b) (sound_begin b) (fun _ a hs => sound_step hs a) run

/-! ## The result -/

/-- However the goroutines take their steps: exactly the hashes that no check denied have an outcome, and it shows
what was reported for its hash, in whichever order. -/
theorem outcomes_of_every_interleaving (b : Batch) (run : List Action) :
    (∀ h, (stateAfter b run).Denied h → (stateAfter b run).shared.out.lookup h = none) ∧
      (∀ h ∈ b.hashes, ¬ (stateAfter b run).Denied h → ∃ o, (stateAfter b run).shared.out.lookup h = some o) ∧
      (∀ h o, (stateAfter b run).shared.out.lookup h = some o →
        o.counts = countsOf (about h (stateAfter b run).reports)) ∧
      ∀ (run' : List Action) (h : Hash) (o o' : ScrapeOutcome),
        (stateAfter b run).shared.out.lookup h = some o → (stateAfter b run').shared.out.lookup h = some o' →
        (about h (stateAfter b run).reports).Perm (about h (stateAfter b run').reports) → o.counts = o'.counts := by
  have hs := sound_stateAfter b run
  refine ⟨fun h hdenied => ?_, fun h hh hfree => ?_, hs.shows, fun run' h o o' ho ho' hperm => ?_⟩
  · exact hs.covers.absent h ((hs.withheld_iff h).mpr hdenied)
  · rw [← hs.withheld_iff] at hfree
    exact Option.ne_none_iff_exists'.mp (hs.covers.present h hh hfree)
  · rw [hs.shows h o ho, (sound_stateAfter b run').shows h o' ho', countsOf_perm hperm]

end

/-! ## A late denial -/

instance (s : State) (h : Hash) : Decidable (s.Denied h) :=
  inferInstanceAs (Decidable (∃ c ∈ s.checks, h ∈ c.1 ∧ h ∉ c.2))

def twoByTwo : Batch where
  hashes := [[1], [2]]
  trackerUrls := ["udp://one", "udp://two"]
  concurrency := 2
  maxHashesPerPacket := 70
  gated := true

def lateDenial : List Action :=
  [.launch, .launch, .next 0, .next 1, .check 0 fun _ => true, .check 1 fun h => decide (h = [1]),
    .answer 0 [⟨3, 1, 0⟩, ⟨5, 0, 0⟩] true, .answer 1 [⟨2, 4, 0⟩] true, .commit 0 true, .commit 1 true]

theorem outcomes_lateDenial : (stateAfter twoByTwo (lateDenial ++ [.merge 0, .merge 1])).shared.out.lookup [2] = none ∧
      ∃ o o', (stateAfter twoByTwo (lateDenial ++ [.merge 0, .merge 1])).shared.out.lookup [1] = some o ∧
        (stateAfter twoByTwo (lateDenial ++ [.merge 1, .merge 0])).shared.out.lookup [1] = some o' ∧
        o.counts = o'.counts := by
  have hresult := outcomes_of_every_interleaving twoByTwo (lateDenial ++ [.merge 0, .merge 1])
  have hother := outcomes_of_every_interleaving twoByTwo (lateDenial ++ [.merge 1, .merge 0])
  obtain ⟨o, ho⟩ := hresult.2.1 [1] (by decide) (by decide +kernel)
  obtain ⟨o', ho'⟩ := hother.2.1 [1] (by decide) (by decide +kernel)
  refine ⟨hresult.1 [2] (by decide +kernel), o, o', ho, ho', ?_⟩
  exact hresult.2.2.2 (lateDenial ++ [.merge 1, .merge 0]) [1] o o' ho ho' (by decide +kernel)

end BitAgent.Seeds
