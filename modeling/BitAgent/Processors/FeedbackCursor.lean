/-
# Processors.FeedbackCursor — paging through feedback events

A consumer asks `Feedback` for the events above its cursor and acknowledges with `AckFeedback`. An event has its number
from its insertion and is seen from its commit. So a consumer has been given every committed event up to its cursor
iff events become visible in the order of their numbers (`safe_iff_inOrder`).
-/
import BitAgent.Lib.Ordered
import BitAgent.Processors.Feedback
import Mathlib.Data.List.Induction

namespace BitAgent.Processors.Feedback

open Lib Lib.Ordered List Table

/-! ## Events and transactions -/

/-- A row of `processor_feedback_events`, with its transaction until that commits. -/
structure TxRow where
  row : Row
  tx : Option Nat

abbrev TxRow.seq (r : TxRow) : Nat := r.row.seq
def committed (db : Serial TxRow.seq) : List Row := (db.table.rows.filter fun r => decide (r.tx = none)).map TxRow.row

inductive Write
  | insert (tx : Nat) (eventID : String) (e : Event)
  | commit (tx : Nat)
  | rollback (tx : Nat)

/-- The transaction inserts an event that another has inserted, uncommitted. -/
def waits (db : Serial TxRow.seq) (tx : Nat) : Bool :=
  db.table.rows.any fun r => decide (r.tx = some tx) && db.table.rows.any fun r' =>
    decide (r'.row.eventID = r.row.eventID) && decide (r'.seq < r.seq)

/-- One step of a transaction. One that waits can only be rolled back; its row has its number already, and is dropped
when the row it waits for commits. -/
def write (db : Serial TxRow.seq) : Write → Serial TxRow.seq
  | .insert tx eventID e =>
    if waits db tx then db
    else if db.table.rows.any fun r => decide (r.row.eventID = eventID) &&
        (decide (r.tx = none) || decide (r.tx = some tx)) then db.draw
    else db.insert (fun seq => ⟨⟨seq, eventID, e, deliveryState e.entry⟩, some tx⟩) fun _ => rfl
  | .commit tx =>
    if waits db tx then db
    else
      (db.delete fun r => decide (r.tx ≠ none) && decide (r.tx ≠ some tx) && db.table.rows.any fun r' =>
          decide (r'.tx = some tx) && decide (r'.row.eventID = r.row.eventID)).update
        (fun r => decide (r.tx = some tx)) (fun r => { r with tx := none }) fun _ => rfl
  | .rollback tx => db.delete fun r => decide (r.tx = some tx)

/-! ## Pages and acknowledgements -/

/-- A row of `processor_feedback_cursors`. -/
structure Cursor where
  processorID : String
  consumerID : String
  lastSeq : Int

def Cursor.key (c : Cursor) : String × String := (c.processorID, c.consumerID)

/-- `last_seq` of a consumer. -/
def lastSeq (cursors : Table Cursor.key) (processorID consumerID : String) : Option Int :=
  (cursors.get? (processorID, consumerID)).map Cursor.lastSeq

def feedbackTiers : List String := ["operational_receipt", "teacher_consensus", "verified_import", "human_gold"]

/-- `v1.FeedbackPage`. -/
structure Page where
  items : List Row
  nextCursor : Int

/-- `($2='' OR processor_id=$2) AND ($3='' OR tier=$3)`. -/
def wanted (processorID tier : String) (row : Row) : Bool :=
  (decide (processorID = "") || decide (row.event.processorID = processorID)) &&
    (decide (tier = "") || decide (row.event.tier = tier))

/-- The rows that the query of `Feedback` selects. -/
def selected (rows : List Row) (processorID tier : String) (afterSeq : Int) : List Row :=
  rows.filter fun row => decide (afterSeq < row.seq) && wanted processorID tier row

/-- The query of `Feedback`. -/
def pageItems (rows : List Row) (processorID tier : String) (afterSeq : Int) (limit : Nat) : List Row :=
  (orderBy (comap compare Row.seq) (selected rows processorID tier afterSeq)).take limit

/-- `Feedback`; `none` is `ErrControl`. -/
def feedback (rows : List Row) (cursors : Table Cursor.key) (processorID : String)
    (afterSeq limit : Int) (tier consumerID : String) : Option Page :=
  if limit < 1 ∨ limit > 100 ∨ afterSeq < 0 then none
  else if tier ≠ "" ∧ tier ∉ feedbackTiers then none
  else
    let afterSeq :=
      if afterSeq = 0 ∧ processorID ≠ "" ∧ consumerID ≠ "" then (lastSeq cursors processorID consumerID).getD afterSeq
      else afterSeq
    let items := pageItems rows processorID tier afterSeq limit.toNat
    -- `NextCursor` is set at every row that is read
    some ⟨items, (items.getLast?.map fun row => (row.seq : Int)).getD 0⟩

def consumerName (consumerID : String) : String := if consumerID = "" then "default" else consumerID

/-- `AckFeedback`; `none` is `ErrControl`. -/
def ackFeedback (cursors : Table Cursor.key) (processorID consumerID : String) (last : Int) :
    Option (Table Cursor.key) :=
  if processorID = "" ∨ processorID.utf8ByteSize > 96 ∨ last < 0 then none
  else if (consumerName consumerID).utf8ByteSize > 96 then none
  else
    let greatest := max ((lastSeq cursors processorID (consumerName consumerID)).getD last) last
    some (cursors.upsert ⟨processorID, consumerName consumerID, greatest⟩)

/-! ## A consumer among transactions -/

/-- A consumer of a processor's events, its requests in order. -/
structure Consumer where
  processorID : String
  consumerID : String
  tier : String
  named : processorID ≠ ""
  short : processorID.utf8ByteSize ≤ 96
  shortConsumer : consumerID.utf8ByteSize ≤ 96
  knownTier : tier = "" ∨ tier ∈ feedbackTiers

/-- The tables, and the consumer's last `NextCursor` and the events it was given. -/
structure System where
  db : Serial TxRow.seq := .empty
  cursors : Table Cursor.key := .empty
  cursor : Int := 0
  returned : List Nat := []

/-- A step of a transaction, or of the consumer: go on from its cursor, start again, acknowledge. -/
inductive Action
  | write (w : Write)
  | page (resume : Bool) (limit : Int)
  | ack

variable (c : Consumer)

def step (s : System) : Action → System
  | .write w => { s with db := write s.db w }
  | .page resume limit =>
    match feedback (committed s.db) s.cursors c.processorID (if resume then 0 else s.cursor) limit c.tier
      c.consumerID with
    | none => s
    | some page =>
      { s with
        cursor := if page.items = [] then s.cursor else page.nextCursor
        returned := s.returned ++ page.items.map Row.seq }
  | .ack =>
    match ackFeedback s.cursors c.processorID c.consumerID s.cursor with
    | none => s
    | some cursors => { s with cursors := cursors }

def run (actions : List Action) : System := actions.foldl (step c) {}

def writes (actions : List Action) : List Write :=
  actions.filterMap fun
    | .write w => some w
    | _ => none

def acked (s : System) : Int := (lastSeq s.cursors c.processorID (consumerName c.consumerID)).getD 0
def Consumer.wants (row : Row) : Bool := wanted c.processorID c.tier row

def Safe (s : System) : Prop :=
  ∀ row ∈ committed s.db, c.wants row = true → (row.seq : Int) ≤ acked c s → row.seq ∈ s.returned

/-- Events that become visible have higher numbers than those that were. -/
def NewAbove (db : Serial TxRow.seq) (w : Write) : Prop :=
  ∀ row ∈ committed (write db w), row ∉ committed db → c.wants row = true →
    ∀ old ∈ committed db, c.wants old = true → old.seq < row.seq

def InOrder (ws : List Write) : Prop := ∀ earlier w, earlier ++ [w] <+: ws → NewAbove c (earlier.foldl write .empty) w

/-! The tables. -/

variable {db : Serial TxRow.seq} {row : Row}

theorem mem_committed : row ∈ committed db ↔ ⟨row, none⟩ ∈ db.table.rows := by
  rw [committed, mem_map]
  constructor
  · rintro ⟨⟨r, tx⟩, hr, rfl⟩
    grind
  · intro h
    exact ⟨_, mem_filter.mpr ⟨h, decide_eq_true rfl⟩, rfl⟩

theorem eq_of_mem_committed {row' : Row} (h : row ∈ committed db) (h' : row' ∈ committed db)
    (hseq : row.seq = row'.seq) : row = row' := by
  have hget := get?_of_mem (mem_committed.mp h)
  have hget' := get?_of_mem (mem_committed.mp h')
  grind

theorem mem_committed_write (h : row ∈ committed db) (w : Write) :
    row ∈ committed (write db w) := by
  rw [mem_committed] at h ⊢
  cases w with
  | insert tx eventID e =>
    rw [write]
    split_ifs
    · exact h
    · exact h
    · grind [Serial.rows_insert]
  | commit tx =>
    rw [write]
    split_ifs
    · exact h
    · refine mem_map.mpr ⟨⟨row, none⟩, mem_delete.mpr ⟨h, ?_⟩, ?_⟩
      · simp
      · simp
  | rollback tx => exact mem_delete.mpr ⟨h, by simp⟩

theorem seq_pos_write (h : ∀ r ∈ db.table.rows, 0 < r.seq) (w : Write) :
    ∀ r ∈ (write db w).table.rows, 0 < r.seq := by
  intro r hr
  cases w with
  | insert tx eventID e =>
    rw [write] at hr
    split_ifs at hr
    · exact h r hr
    · exact h r hr
    · rw [Serial.rows_insert] at hr
      rcases mem_append.mp hr with hold | hnew
      · exact h r hold
      · rw [mem_singleton.mp hnew]
        exact db.positive
  | commit tx =>
    rw [write] at hr
    split_ifs at hr
    · exact h r hr
    · obtain ⟨r', hr', rfl⟩ := mem_map.mp hr
      have hpos := h r' (mem_delete.mp hr').1
      split_ifs <;> exact hpos
  | rollback tx => exact h r (mem_delete.mp hr).1

/-! ## One page -/

section Page

variable {db : Serial TxRow.seq} {processorID tier : String} {afterSeq : Int} {limit : Nat}

theorem nodup_committed (db : Serial TxRow.seq) : (committed db).Nodup := by
  refine List.Nodup.map_on ?_ (db.table.rows_nodup.filter _)
  rintro ⟨row, tx⟩ hr ⟨row', tx'⟩ hr' heq
  grind

variable {rows : List Row}

theorem mem_selected : row ∈ selected rows processorID tier afterSeq ↔
    row ∈ rows ∧ afterSeq < row.seq ∧ wanted processorID tier row = true := by simp [selected]

theorem mem_of_mem_pageItems (h : row ∈ pageItems rows processorID tier afterSeq limit) :
    row ∈ rows ∧ afterSeq < row.seq ∧ wanted processorID tier row = true :=
  mem_selected.mp (mem_orderBy.mp (mem_of_mem_take h))

theorem mem_pageItems_of_le_last (hne : pageItems (committed db) processorID tier afterSeq limit ≠ [])
    (hrow : row ∈ selected (committed db) processorID tier afterSeq)
    (hle : row.seq ≤ ((pageItems (committed db) processorID tier afterSeq limit).getLast hne).seq) :
    row ∈ pageItems (committed db) processorID tier afterSeq limit := by
  have hstrict : Strict (comap compare Row.seq) (selected (committed db) processorID tier afterSeq) := by
    intro a ha b hb heq
    exact eq_of_mem_committed (mem_selected.mp ha).1 (mem_selected.mp hb).1 (compare_eq_iff_eq.mp heq)
  have hnodup : (selected (committed db) processorID tier afterSeq).Nodup := (nodup_committed db).filter _
  have hsorted := pairwise_lt_orderBy hnodup hstrict
  have hmem := (@mem_orderBy _ (comap compare Row.seq) _ row).mpr hrow
  rw [← take_append_drop limit (orderBy _ _)] at hmem
  rcases mem_append.mp hmem with htake | hdrop
  · exact htake
  · rw [← above_getLast_take hsorted hne] at hdrop
    have hlt : _ < row.seq := compare_lt_iff_lt.mp (mem_above.mp hdrop).2
    exact absurd hlt (Nat.not_lt.mpr hle)

theorem pageItems_ne_nil (hrow : row ∈ selected rows processorID tier afterSeq) (hlimit : limit ≠ 0) :
    pageItems rows processorID tier afterSeq limit ≠ [] := by
  intro hnil
  rcases take_eq_nil_iff.mp hnil with hzero | hempty
  · exact hlimit hzero
  · have hmem := (@mem_orderBy _ (comap compare Row.seq) _ row).mpr hrow
    rw [hempty] at hmem
    exact absurd hmem not_mem_nil

end Page

/-- The `after_seq` that the query is asked with. -/
def afterSeq (s : System) (resume : Bool) : Int :=
  let after := if resume then 0 else s.cursor
  if after = 0 ∧ c.consumerID ≠ "" then (lastSeq s.cursors c.processorID c.consumerID).getD 0 else after

def readFrom (s : System) (after : Int) (limit : Nat) : System :=
  let items := pageItems (committed s.db) c.processorID c.tier after limit
  { s with
    cursor := (items.getLast?.map fun row => (row.seq : Int)).getD s.cursor
    returned := s.returned ++ items.map Row.seq }

variable {c} {s : System}

theorem afterSeq_cases (s : System) (resume : Bool) :
    afterSeq c s resume = s.cursor ∨ afterSeq c s resume = acked c s ∨ afterSeq c s resume = 0 := by
  grind [afterSeq, consumerName, acked]

theorem step_page (hcursor : 0 ≤ s.cursor) (resume : Bool) (limit : Int) : step c s (.page resume limit) =
      if 1 ≤ limit ∧ limit ≤ 100 then readFrom c s (afterSeq c s resume) limit.toNat else s := by
  have hafter : ¬ (if resume then 0 else s.cursor) < 0 := by split_ifs <;> omega
  have htier : ¬ (c.tier ≠ "" ∧ c.tier ∉ feedbackTiers) := by
    rintro ⟨hne, hnot⟩
    exact c.knownTier.elim hne hnot
  rw [step, feedback]
  by_cases hlimit : 1 ≤ limit ∧ limit ≤ 100
  · rw [if_neg (by omega), if_neg htier, if_pos hlimit]
    have hsame : (if (if resume then 0 else s.cursor) = 0 ∧ c.processorID ≠ "" ∧ c.consumerID ≠ "" then
      (lastSeq s.cursors c.processorID c.consumerID).getD (if resume then 0 else s.cursor)
      else (if resume then 0 else s.cursor)) = afterSeq c s resume := by
      unfold afterSeq
      dsimp only
      by_cases hzero : (if resume then 0 else s.cursor) = 0
      · simp only [hzero, c.named, ne_eq, not_false_eq_true, true_and]
      · simp only [hzero, false_and, if_false]
    dsimp only
    rw [hsame, readFrom]
    grind [getLast?_eq_none_iff]
  · rw [if_pos (by omega), if_neg hlimit]

theorem step_ack (hcursor : 0 ≤ s.cursor) : ∃ cursors, step c s .ack = { s with cursors := cursors } ∧
      acked c { s with cursors := cursors } = max (acked c s) s.cursor := by
  have hname : ¬ (consumerName c.consumerID).utf8ByteSize > 96 := by
    rw [consumerName]
    split_ifs
    · decide
    · exact Nat.not_lt.mpr c.shortConsumer
  have hok : ¬ (c.processorID = "" ∨ c.processorID.utf8ByteSize > 96 ∨ s.cursor < 0) := by
    rintro (hempty | hlong | hneg)
    · exact c.named hempty
    · exact absurd c.short (Nat.not_le.mpr hlong)
    · exact absurd hcursor (Int.not_le.mpr hneg)
  rw [step, ackFeedback, if_neg hok, if_neg hname]
  refine ⟨_, rfl, ?_⟩
  rw [acked, acked]
  dsimp only
  have hkey : ∀ n, Cursor.key ⟨c.processorID, consumerName c.consumerID, n⟩ =
      (c.processorID, consumerName c.consumerID) := fun _ => rfl
  rw [lastSeq, get?_upsert, if_pos (hkey _), Option.map_some, Option.getD_some]
  cases lastSeq s.cursors c.processorID (consumerName c.consumerID) with
  | none => simp [hcursor]
  | some last => rfl

/-! ## Commits in order -/

def Reached (c : Consumer) (s : System) (n : Int) : Prop :=
  n = 0 ∨ ∃ row ∈ committed s.db, c.wants row = true ∧ (row.seq : Int) = n

/-- Every visible event up to `n` was returned. -/
def Covered (c : Consumer) (s : System) (n : Int) : Prop :=
  ∀ row ∈ committed s.db, c.wants row = true → (row.seq : Int) ≤ n → row.seq ∈ s.returned

structure Inv (c : Consumer) (s : System) : Prop where
  pos : ∀ r ∈ s.db.table.rows, 0 < r.seq
  returned : ∀ n ∈ s.returned, ∃ row ∈ committed s.db, row.seq = n
  cursor : Reached c s s.cursor
  acked : Reached c s (acked c s)

variable {n : Int}

theorem Reached.nonneg (h : Reached c s n) : 0 ≤ n := by
  rcases h with rfl | ⟨row, _, _, rfl⟩
  · exact Int.le_refl 0
  · exact Int.natCast_nonneg _

theorem Reached.write (h : Reached c s n) (w : Write) : Reached c { s with db := Feedback.write s.db w } n :=
  h.imp_right fun ⟨row, hrow, hrest⟩ => ⟨row, mem_committed_write hrow w, hrest⟩

theorem Inv.seq_pos (h : Inv c s) (hrow : row ∈ committed s.db) : 0 < row.seq := h.pos _ (mem_committed.mp hrow)

theorem readFrom_cursor (c : Consumer) (s : System) (after : Int) (limit : Nat) : readFrom c s after limit = s ∨
      ∃ hne : pageItems (committed s.db) c.processorID c.tier after limit ≠ [], (readFrom c s after limit).cursor =
          ((pageItems (committed s.db) c.processorID c.tier after limit).getLast hne).seq := by
  by_cases hnil : pageItems (committed s.db) c.processorID c.tier after limit = []
  · left
    simp [readFrom, hnil]
  · grind [readFrom]

theorem inv_readFrom (h : Inv c s) (after : Int) (limit : Nat) : Inv c (readFrom c s after limit) := by
  refine ⟨h.pos, fun n hn => ?_, ?_, h.acked⟩
  · rcases mem_append.mp hn with hold | hnew
    · exact h.returned n hold
    · obtain ⟨row, hrow, rfl⟩ := mem_map.mp hnew
      exact ⟨row, (mem_of_mem_pageItems hrow).1, rfl⟩
  · rcases readFrom_cursor c s after limit with hsame | ⟨hne, hcursor⟩
    · rw [hsame]
      exact h.cursor
    · obtain ⟨hmem, _, hwanted⟩ := mem_of_mem_pageItems (getLast_mem hne)
      exact .inr ⟨_, hmem, hwanted, hcursor.symm⟩

theorem inv_step (h : Inv c s) (a : Action) : Inv c (step c s a) := by
  cases a with
  | write w =>
    refine ⟨seq_pos_write h.pos w, fun n hn => ?_, h.cursor.write w, h.acked.write w⟩
    obtain ⟨row, hrow, hseq⟩ := h.returned n hn
    exact ⟨row, mem_committed_write hrow w, hseq⟩
  | page resume limit =>
    rw [step_page h.cursor.nonneg]
    grind [inv_readFrom]
  | ack =>
    obtain ⟨cursors, hstep, hacked⟩ := @step_ack c s h.cursor.nonneg
    rw [hstep]
    refine ⟨h.pos, h.returned, h.cursor, ?_⟩
    rw [hacked]
    rcases max_choice (acked c s) s.cursor with hmax | hmax
    · rw [hmax]
      exact h.acked
    · rw [hmax]
      exact h.cursor

theorem inv_run (c : Consumer) (actions : List Action) : Inv c (run c actions) := by
  induction actions using List.reverseRecOn with
  | nil => exact ⟨fun _ h => absurd h not_mem_nil, fun _ h => absurd h not_mem_nil, .inl rfl, .inl rfl⟩
  | append_singleton actions a ih =>
    rw [run, foldl_append]
    exact inv_step ih a

theorem Covered.write (h : Covered c s n) (hinv : Inv c s) (hn : Reached c s n) {w : Write} (hnew : NewAbove c s.db w) :
    Covered c { s with db := Feedback.write s.db w } n := by
  intro row hrow hwants hle
  by_cases hold : row ∈ committed s.db
  · exact h row hold hwants hle
  · have hpos : 0 < row.seq := seq_pos_write hinv.pos w _ (mem_committed.mp hrow)
    rcases hn with rfl | ⟨last, hlast, hlastWants, rfl⟩
    · omega
    · have hlt := hnew row hrow hold hwants last hlast hlastWants
      omega

theorem Covered.readFrom {n after : Int} (h : Covered c s n) (limit : Nat) : Covered c (readFrom c s after limit) n :=
  fun row hrow hwants hle => mem_append_left _ (h row hrow hwants hle)

theorem covered_readFrom_cursor {after : Int} (h : Covered c s after) (hcursor : Covered c s s.cursor)
    (limit : Nat) : Covered c (readFrom c s after limit) (readFrom c s after limit).cursor := by
  rcases readFrom_cursor c s after limit with hsame | ⟨hne, hlast⟩
  · rw [hsame]
    exact hcursor
  · rw [hlast]
    intro row hrow hwants hle
    by_cases hafter : (row.seq : Int) ≤ after
    · exact mem_append_left _ (h row hrow hwants hafter)
    · have hmem := mem_pageItems_of_le_last hne
        (mem_selected.mpr ⟨hrow, Int.not_le.mp hafter, hwants⟩) (Int.ofNat_le.mp hle)
      exact mem_append_right _ (mem_map_of_mem hmem)

theorem covered_step (hinv : Inv c s) (h : Covered c s s.cursor ∧ Covered c s (acked c s)) {a : Action}
    (hnew : ∀ w, a = .write w → NewAbove c s.db w) :
    Covered c (step c s a) (step c s a).cursor ∧ Covered c (step c s a) (acked c (step c s a)) := by
  cases a with
  | write w => exact ⟨h.1.write hinv hinv.cursor (hnew w rfl), h.2.write hinv hinv.acked (hnew w rfl)⟩
  | page resume limit =>
    have hzero : Covered c s 0 := by
      intro row hrow _ hle
      have := hinv.seq_pos hrow
      omega
    have hafter : Covered c s (afterSeq c s resume) := by grind [afterSeq_cases]
    rw [step_page hinv.cursor.nonneg]
    split_ifs
    · exact ⟨covered_readFrom_cursor hafter h.1 _, h.2.readFrom _⟩
    · exact h
  | ack =>
    obtain ⟨cursors, hstep, hacked⟩ := @step_ack c s hinv.cursor.nonneg
    rw [hstep, hacked]
    refine ⟨h.1, ?_⟩
    rcases max_choice (acked c s) s.cursor with hmax | hmax
    · rw [hmax]
      exact h.2
    · rw [hmax]
      exact h.1

theorem db_foldl_step (c : Consumer) (actions : List Action) (s : System) :
    (actions.foldl (step c) s).db = (writes actions).foldl write s.db := by
  induction actions generalizing s with
  | nil => rfl
  | cons a actions ih =>
    rw [foldl_cons, ih]
    cases a with
    | write w => rfl
    | page resume limit =>
      rw [step]
      split <;> rfl
    | ack =>
      rw [step]
      split <;> rfl

theorem covered_run {ws : List Write} (hws : InOrder c ws) (actions : List Action) (hbegin : writes actions <+: ws) :
    Covered c (run c actions) (run c actions).cursor ∧ Covered c (run c actions) (acked c (run c actions)) := by
  induction actions using List.reverseRecOn with
  | nil => exact ⟨fun _ h => absurd h not_mem_nil, fun _ h => absurd h not_mem_nil⟩
  | append_singleton actions a ih =>
    have hsplit : writes (actions ++ [a]) = writes actions ++ writes [a] := filterMap_append
    rw [hsplit] at hbegin
    rw [run, foldl_append]
    refine covered_step (inv_run c actions) (ih ((prefix_append _ _).trans hbegin)) ?_
    rintro w rfl
    rw [run, db_foldl_step]
    exact hws _ w hbegin

/-! ## Commits out of order -/

theorem readFrom_left (h : ∃ row ∈ committed s.db, c.wants row = true ∧ s.cursor < row.seq) (limit : Nat)
    (hlimit : limit ≠ 0) :
    (selected (committed s.db) c.processorID c.tier (readFrom c s s.cursor limit).cursor).length <
      (selected (committed s.db) c.processorID c.tier s.cursor).length := by
  obtain ⟨row, hrow, hwants, habove⟩ := h
  have hne := pageItems_ne_nil (mem_selected.mpr ⟨hrow, habove, hwants⟩) hlimit
  rcases readFrom_cursor c s s.cursor limit with hsame | ⟨_, hlast⟩
  · have hnil : (pageItems (committed s.db) c.processorID c.tier s.cursor limit).map Row.seq = [] := by
      have := congrArg System.returned hsame
      simpa [readFrom] using this
    exact absurd (map_eq_nil_iff.mp hnil) hne
  · obtain ⟨hmem, hgt, hwanted⟩ := mem_of_mem_pageItems (getLast_mem hne)
    set last := (pageItems (committed s.db) c.processorID c.tier s.cursor limit).getLast hne
    have hshrink : selected (committed s.db) c.processorID c.tier last.seq =
        (selected (committed s.db) c.processorID c.tier s.cursor).filter
          fun row => decide ((last.seq : Int) < row.seq) := by
      rw [selected, selected, filter_filter]
      grind
    rw [hlast, hshrink]
    refine length_filter_lt_length_iff_exists.mpr ⟨last, mem_selected.mpr ⟨hmem, hgt, hwanted⟩, ?_⟩
    simp

theorem exists_pages (hcursors : s.cursors = .empty) (hcursor : 0 ≤ s.cursor) :
    ∃ k cursor returned, (List.replicate k (.page false 100)).foldl (step c) s =
        { s with cursor := cursor, returned := returned } ∧
      ∀ row ∈ committed s.db, c.wants row = true → (row.seq : Int) ≤ cursor := by
  induction hleft : (selected (committed s.db) c.processorID c.tier s.cursor).length
    using Nat.strong_induction_on generalizing s with
  | _ left ih =>
    by_cases hmore : ∃ row ∈ committed s.db, c.wants row = true ∧ s.cursor < row.seq
    · have hafter : afterSeq c s false = s.cursor := by
        unfold afterSeq
        rw [hcursors]
        by_cases hzero : s.cursor = 0 <;> simp [hzero, lastSeq]
      have hpage : step c s (.page false 100) = readFrom c s s.cursor 100 := by grind [step_page]
      have hfewer := readFrom_left hmore 100 (by decide)
      have hnonneg : 0 ≤ (readFrom c s s.cursor 100).cursor := by grind [readFrom_cursor]
      obtain ⟨k, cursor, returned, hrun, hall⟩ :=
        ih _ (hleft ▸ hfewer) (s := readFrom c s s.cursor 100) hcursors hnonneg rfl
      refine ⟨k + 1, cursor, returned, ?_, hall⟩
      rw [replicate_succ, foldl_cons, hpage, hrun]
      rfl
    · refine ⟨0, s.cursor, s.returned, rfl, fun row hrow hwants => ?_⟩
      grind

theorem foldl_map_write (ws : List Write) (s : System) :
    (ws.map Action.write).foldl (step c) s = { s with db := ws.foldl write s.db } := by
  induction ws generalizing s with
  | nil => rfl
  | cons w ws ih =>
    rw [map_cons, foldl_cons, ih]
    rfl

theorem writes_append (actions actions' : List Action) :
    writes (actions ++ actions') = writes actions ++ writes actions' :=
  filterMap_append

theorem exists_acked (c : Consumer) (ws : List Write) : ∃ actions, writes actions = ws ∧
      ∀ row ∈ committed (run c actions).db, c.wants row = true → (row.seq : Int) ≤ acked c (run c actions) := by
  obtain ⟨k, cursor, returned, hpages, hall⟩ :=
    exists_pages (c := c) (s := { db := ws.foldl write .empty }) rfl (Int.le_refl 0)
  let pages := ws.map Action.write ++ List.replicate k (.page false 100)
  have hrun : run c pages = { db := ws.foldl write .empty, cursor := cursor, returned := returned } := by
    grind [run, foldl_map_write]
  obtain ⟨cursors, hack, hacked⟩ := step_ack (inv_run c pages).cursor.nonneg
  refine ⟨pages ++ [.ack], ?_, ?_⟩
  · grind [writes, filterMap_replicate_of_none]
  · rw [show run c (pages ++ [.ack]) = step c (run c pages) .ack from foldl_append, hack, hacked, hrun]
    intro row hrow hwants
    exact (hall row hrow hwants).trans (le_max_right _ _)

variable (c)

/-- **No event is passed over** exactly if they become visible in the order of their numbers. -/
theorem safe_iff_inOrder (ws : List Write) :
    (∀ actions, writes actions <+: ws → Safe c (run c actions)) ↔ InOrder c ws := by
  constructor
  · intro hsafe earlier w hbegin row hrow hnew hwants old hold holdWants
    obtain ⟨actions, hwrites, hall⟩ := exists_acked c earlier
    have hdb : (run c actions).db = earlier.foldl write .empty := by rw [run, db_foldl_step, hwrites]
    rw [← hdb] at hrow hnew hold
    by_contra hle
    -- the step makes an event visible that is not above what the consumer has acknowledged
    have hreturned : row.seq ∈ (run c actions).returned := by
      have hnext : run c (actions ++ [.write w]) =
          { run c actions with db := write (run c actions).db w } := foldl_append
      have h := hsafe (actions ++ [.write w]) (by rw [writes_append, hwrites]; exact hbegin) row
      rw [hnext] at h
      exact h hrow hwants ((Int.ofNat_le.mpr (Nat.not_lt.mp hle)).trans (hall old hold holdWants))
    -- but only visible events are returned
    obtain ⟨seen, hseen, hseq⟩ := (inv_run c actions).returned _ hreturned
    exact hnew (eq_of_mem_committed (mem_committed_write hseen w) hrow hseq ▸ hseen)
  · intro hws actions hbegin
    exact (covered_run hws actions hbegin).2

def trainer : Consumer where
  processorID := "regex"
  consumerID := "trainer"
  tier := ""
  named := by decide
  short := by decide
  shortConsumer := by decide
  knownTier := .inl rfl

/-- Two transactions; the one that was numbered second commits first, and the consumer acknowledges it before the
other commits. -/
def overtaken : List Action :=
  [.write (.insert 1 "a" importSucceeded),
    .write (.insert 2 "b" { importSucceeded with groundTruth := { outcome := "import_failed" } }),
    .write (.commit 2), .page false 100, .ack, .write (.commit 1), .page false 100]

/-- The first event is below the acknowledged cursor and never returned. -/
theorem overtaken_event_lost : acked trainer (run trainer overtaken) = 2 ∧
      (committed (run trainer overtaken).db).map Row.seq = [1, 2] ∧
      (run trainer overtaken).returned = [2] ∧ ¬ Safe trainer (run trainer overtaken) := by
  have hfacts : acked trainer (run trainer overtaken) = 2 ∧
      (committed (run trainer overtaken).db).map Row.seq = [1, 2] ∧
      (run trainer overtaken).returned = [2] ∧
      (committed (run trainer overtaken).db).all trainer.wants = true := by
    decide +kernel
  obtain ⟨hacked, hseqs, hreturned, hwants⟩ := hfacts
  refine ⟨hacked, hseqs, hreturned, fun hsafe => ?_⟩
  obtain ⟨row, hrow, hseq⟩ : ∃ row ∈ committed (run trainer overtaken).db, row.seq = 1 := by grind [mem_cons_self]
  have hmem := hsafe row hrow (all_eq_true.mp hwants row hrow) (by rw [hacked, hseq]; decide)
  grind

end BitAgent.Processors.Feedback
