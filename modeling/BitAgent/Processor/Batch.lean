/-
# Processor.Batch — reprocessing in batches

A batch job asks for the next `BatchSize` hashes above the last one it saw, makes a processor job of them, and after
`ChunkSize` hashes hands over to a new batch job. All jobs of a chunk are created by one INSERT, which has at most
65535 parameters and fails if a job with the same fingerprint is open. The condition for torrents without a type is
joined by OR to the whole condition, the correlation included, so one such torrent selects all of them.

A fingerprint is the hash of a queue's name and a message as JSON; here it is what is hashed. Jobs of the chain count
as open until its end.
-/
import BitAgent.Database.Enums
import BitAgent.Lib.Blocks
import BitAgent.Lib.GoString
import BitAgent.Lib.Ordered
import BitAgent.Lib.Prelude
import BitAgent.Lib.Sql
import BitAgent.Lib.Table

namespace BitAgent.Processor.Batch

open Std Lib Lib.Ordered Database List

/-! ## The message and the selection -/

/-- A row of `torrents`. -/
structure Torrent where
  infoHash : GoString
  updatedAt : Nat
  deriving DecidableEq

/-- A row of `torrent_contents`. -/
structure Content where
  infoHash : GoString
  contentType : Option String

structure Db where
  torrents : Table Torrent.infoHash
  contents : List Content
  bounded : torrents.rows.length < 2 ^ 63

inductive FlagValue
  | bool (b : Bool)
  | other (json : String)
  deriving DecidableEq

/-- What a batch message hands on to the processor jobs. -/
structure Classify where
  classifyMode : Int := 0
  classifierWorkflow : String := ""
  classifierFlags : NilMap String FlagValue := none
  skipContentFilter : Bool := false
  deriving DecidableEq

/-- The payload of a batch job. -/
structure MessageParams where
  infoHashGreaterThan : GoString
  updatedBefore : Nat
  classify : Classify := {}
  chunkSize : UInt64
  batchSize : UInt64
  contentTypes : List (Option ContentType) := []
  orphans : Bool := false
  deriving DecidableEq

def MessageParams.apisDisabled (msg : MessageParams) : Bool :=
  match msg.classify.classifierFlags.lookup "apis_enabled" with
  | some (.bool enabled) => !enabled
  | _ => false

/-- The defaults that `batch.NewQueueJob` fills in. -/
def MessageParams.withDefaults (msg : MessageParams) : MessageParams :=
  { msg with
    batchSize := if msg.batchSize = 0 then 100 else msg.batchSize
    chunkSize := if msg.chunkSize = 0 then 10000 else msg.chunkSize }

def contentTypeCondition (contentTypes : List String) (unknownContentType : Bool) (t : Torrent)
    (row : Content) : SqlBool :=
  let known := SqlBool.and (SqlBool.eq (some row.infoHash) (some t.infoHash))
    (SqlBool.isIn row.contentType contentTypes)
  if unknownContentType then SqlBool.or known (some row.contentType.isNone) else known

/-- The scope for a list of content types: `EXISTS` of the subquery. -/
def contentTypesScope (db : Db) (requested : List (Option ContentType)) (t : Torrent) : Bool :=
  let contentTypes := requested.filterMap fun ct => ct.map ContentType.text
  let unknownContentType := decide (none ∈ requested)
  db.contents.any fun row => decide (contentTypeCondition contentTypes unknownContentType t row).Holds

/-- `orphans`: torrents without any content row. -/
def orphansScope (db : Db) (t : Torrent) : Bool := !db.contents.any fun row => decide (row.infoHash = t.infoHash)

/-- The conditions that the message asks for. -/
def scopes (db : Db) (msg : MessageParams) (t : Torrent) : Bool :=
  (msg.contentTypes.isEmpty || contentTypesScope db msg.contentTypes t) && (!msg.orphans || orphansScope db t)

/-- A torrent that a batch selects, wherever it starts. -/
def selects (db : Db) (msg : MessageParams) (t : Torrent) : Bool :=
  scopes db msg t && decide (t.updatedAt < msg.updatedBefore)

/-! ## The handler -/

/-- `int(n)` for a `uint`. -/
def intOf (n : UInt64) : Int := n.toInt64.toInt

/-- `Limit(n)`: a negative limit is none. -/
def limited (n : Int) (hashes : List GoString) : List GoString := if n < 0 then hashes else hashes.take n.toNat

/-- The selected hashes above `max`, in ascending order. -/
def remaining (db : Db) (msg : MessageParams) (max : GoString) : List GoString :=
  orderBy compare ((db.torrents.rows.filter fun t =>
    selects db msg t && compare max t.infoHash == .lt).map Torrent.infoHash)

/-- One query: the next page after `max`. -/
def find (db : Db) (msg : MessageParams) (max : GoString) : List GoString :=
  limited (intOf msg.batchSize) (remaining db msg max)

structure Job where
  classify : Classify
  infoHashes : List GoString
  priority : Nat
  maxRetries : Nat := 2
  deriving DecidableEq

/-- What the loop leaves: the hashes of each job, the last hash it saw and whether it saw all. -/
structure Batches where
  hashes : List (List GoString)
  maxInfoHash : GoString
  done : Bool

theorem remaining_strict (db : Db) (msg : MessageParams) (max : GoString) :
    (remaining db msg max).Pairwise fun a b => compare a b = .lt := by
  refine pairwise_lt_orderBy ?_ fun a _ b _ h => LawfulEqCmp.eq_of_compare h
  exact (filter_sublist.map Torrent.infoHash).nodup db.torrents.nodup

variable {db : Db} {msg : MessageParams} {max : GoString}

theorem mem_remaining {hash : GoString} : hash ∈ remaining db msg max ↔
      ∃ t ∈ db.torrents.rows, t.infoHash = hash ∧ selects db msg t = true ∧ compare max hash = .lt := by
  grind [remaining, mem_orderBy]

theorem above_remaining {max' : GoString} (hlt : compare max max' = .lt) :
    above compare max' (remaining db msg max) = remaining db msg max' := by
  refine eq_of_pairwise_lt ((remaining_strict db msg max).filter _) (remaining_strict db msg max') ?_
  intro hash
  rw [mem_above, mem_remaining, mem_remaining]
  constructor
  · grind
  · rintro ⟨t, ht, heq, hsel, habove⟩
    exact ⟨⟨t, ht, heq, hsel, TransCmp.lt_trans hlt habove⟩, habove⟩

theorem find_spec (hne : find db msg max ≠ []) :
    find db msg max ++ remaining db msg ((find db msg max).getLast hne) = remaining db msg max := by
  obtain ⟨n, hn⟩ : ∃ n, find db msg max = (remaining db msg max).take n := by
    rw [find, limited]
    split_ifs
    · exact ⟨_, take_length.symm⟩
    · exact ⟨_, rfl⟩
  have hlast : compare max ((find db msg max).getLast hne) = .lt := by grind [getLast_mem, mem_remaining]
  rw [← above_remaining hlast]
  grind [above_getLast_take, remaining_strict, take_append_drop]

/-- The loop of `Handle`: page after page, until one is not full or the chunk is. -/
def loop (db : Db) (msg : MessageParams) (max : GoString) (chunkSize : UInt64) : Batches :=
  if hne : find db msg max = [] then ⟨[], max, true⟩
  else
    let torrents := find db msg max
    let max' := torrents.getLast hne
    let chunkSize' := chunkSize + UInt64.ofNat torrents.length
    if (torrents.length : Int) < intOf msg.batchSize then ⟨[torrents], max', true⟩
    else if chunkSize' ≥ msg.chunkSize then ⟨[torrents], max', false⟩
    else
      let rest := loop db msg max' chunkSize'
      ⟨torrents :: rest.hashes, rest.maxInfoHash, rest.done⟩
termination_by (remaining db msg max).length
decreasing_by grind [find_spec]

/-- The processor job for a page of hashes. -/
def MessageParams.job (msg : MessageParams) (infoHashes : List GoString) : Job where
  classify := msg.classify
  infoHashes := infoHashes
  priority := if msg.apisDisabled then 4 else 10

/-- The batch message that goes on above the hash `max`. -/
def MessageParams.after (msg : MessageParams) (max : GoString) : MessageParams :=
  { msg with infoHashGreaterThan := max }

/-- `queueJobs`: the processor jobs of a chunk, and the batch message that goes on. -/
def queueJobs (db : Db) (msg : MessageParams) : List Job × Option MessageParams :=
  let batches := loop db msg msg.infoHashGreaterThan 0
  (batches.hashes.map msg.job,
    if batches.done then none
    else some (msg.after batches.maxInfoHash).withDefaults)

/-- What a fingerprint is taken from. In JSON the flags are in the order of their names, and a nil map is left out like
an empty one. Priority and retries are not part of the message. -/
inductive Fingerprint
  | process (classify : Classify) (flags : List (String × FlagValue)) (infoHashes : List GoString)
  | batch (msg : MessageParams) (flags : List (String × FlagValue))
  deriving DecidableEq

def Classify.flags (c : Classify) : List (String × FlagValue) :=
  orderBy (comap compare Prod.fst) c.classifierFlags.entries

def Job.fingerprint (job : Job) : Fingerprint :=
  .process { job.classify with classifierFlags := none } job.classify.flags job.infoHashes

def MessageParams.fingerprint (msg : MessageParams) : Fingerprint :=
  .batch { msg with classify := { msg.classify with classifierFlags := none } } msg.classify.flags

/-- `Create(queueJobs...)`: one INSERT of thirteen columns a job, with `queue` the open jobs. -/
def create (queue new : List Fingerprint) : Except String (List Fingerprint) :=
  if 13 * new.length > 65535 then .error "extended protocol limited to 65535 parameters"
  else if new.Nodup ∧ new.all (fun f => !queue.contains f) = true then .ok (queue ++ new)
  else .error "duplicate key value violates unique constraint queue_jobs_fingerprint_idx"

def fingerprints (q : List Job × Option MessageParams) : List Fingerprint :=
  q.1.map Job.fingerprint ++ q.2.toList.map MessageParams.fingerprint

/-- The handler: the open jobs after it. -/
def handle (db : Db) (queue : List Fingerprint) (msg : MessageParams) : Except String (List Fingerprint) :=
  let new := fingerprints (queueJobs db msg)
  if new = [] then .ok queue else create queue new

/-- The first `n` batch jobs of a chain: the processor jobs that they create and the message that is left. A batch job
that fails creates none, and the chain ends. -/
def run (db : Db) : Nat → List Fingerprint → MessageParams → Except String (List Job × Option MessageParams)
  | 0, _, msg => .ok ([], some msg)
  | n + 1, queue, msg =>
    match handle db queue msg, (queueJobs db msg).2 with
    | .error e, _ => .error e
    | .ok _, none => .ok ((queueJobs db msg).1, none)
    | .ok queue, some next => (run db n queue next).map fun r => ((queueJobs db msg).1 ++ r.1, r.2)

/-! ## Content types -/

def HasRequestedType (db : Db) (requested : List (Option ContentType)) (t : Torrent) : Prop :=
  ∃ row ∈ db.contents, row.infoHash = t.infoHash ∧ row.contentType ∈ requested.map fun ct => ct.map ContentType.text

variable {requested : List (Option ContentType)}

theorem mem_known_iff {row : Content} :
    (∃ x ∈ requested.filterMap fun ct => ct.map ContentType.text, row.contentType = some x) ↔
      row.contentType.isSome = true ∧ row.contentType ∈ requested.map fun ct => ct.map ContentType.text := by
  grind [Option.isSome_iff_exists]

theorem contentTypeCondition_iff {t : Torrent} {row : Content} :
    (contentTypeCondition (requested.filterMap fun ct => ct.map ContentType.text)
      (decide (none ∈ requested)) t row).Holds ↔
    (row.infoHash = t.infoHash ∧ row.contentType.isSome = true ∧
      row.contentType ∈ requested.map fun ct => ct.map ContentType.text) ∨
    none ∈ requested ∧ row.contentType = none := by
  have hcorrelated : (SqlBool.and (SqlBool.eq (some row.infoHash) (some t.infoHash)) (SqlBool.isIn row.contentType
        (requested.filterMap fun ct => ct.map ContentType.text))).Holds ↔
      row.infoHash = t.infoHash ∧ row.contentType.isSome = true ∧
        row.contentType ∈ requested.map fun ct => ct.map ContentType.text := by
    grind [SqlBool.holds_and, SqlBool.holds_isIn, mem_known_iff, SqlBool.holds_eq]
  grind [contentTypeCondition, SqlBool.holds_or, SqlBool.holds_some, Option.isNone_iff_eq_none]

theorem contentTypesScope_iff {t : Torrent} :
    contentTypesScope db requested t = true ↔ HasRequestedType db requested t ∨
      none ∈ requested ∧ ∃ row ∈ db.contents, row.contentType = none := by
  have hnone : none ∈ (requested.map fun ct => ct.map ContentType.text) ↔ none ∈ requested := by simp
  simp only [contentTypesScope, any_eq_true, decide_eq_true_eq, contentTypeCondition_iff, HasRequestedType]
  constructor
  · grind
  · rintro (⟨row, hrow, hhash, htype⟩ | ⟨hunknown, row, hrow, hnull⟩)
    · cases hct : row.contentType with
      | none => grind
      | some x => grind
    · exact ⟨row, hrow, .inr ⟨hunknown, hnull⟩⟩

/-- **Which torrents a list of content types selects**: those with a content row of such a type; all, if the unknown
type is requested and some content row has no type. -/
theorem contentTypesScope_exact_iff (db : Db) (msg : MessageParams) (hrequested : msg.contentTypes ≠ [])
    (horphans : msg.orphans = false) :
    (∀ t ∈ db.torrents.rows, scopes db msg t = true ↔ HasRequestedType db msg.contentTypes t) ↔
      (none ∈ msg.contentTypes → (∃ row ∈ db.contents, row.contentType = none) →
        ∀ t ∈ db.torrents.rows, HasRequestedType db msg.contentTypes t) := by
  have hscope : ∀ t, scopes db msg t = true ↔ HasRequestedType db msg.contentTypes t ∨
      none ∈ msg.contentTypes ∧ ∃ row ∈ db.contents, row.contentType = none := by
    grind [scopes, contentTypesScope_iff]
  grind

def filmAndUnknown : Db where
  torrents := { rows := [⟨[1], 0⟩, ⟨[2], 0⟩], nodup := by decide }
  contents := [⟨[1], some "movie"⟩, ⟨[2], none⟩]
  bounded := by decide

/-- Asked for unknown types only, the job selects the film too. -/
theorem film_selected_as_unknown : scopes filmAndUnknown ⟨[], 1, {}, 1, 1, [none], false⟩ ⟨[1], 0⟩ = true ∧
      ¬ HasRequestedType filmAndUnknown [none] ⟨[1], 0⟩ := by
  constructor
  · decide
  · rintro ⟨row, hrow, hhash, htype⟩
    rcases List.mem_cons.mp hrow with rfl | hrow
    · exact absurd htype (by decide)
    · grind

/-- Without a torrent of unknown type the same request selects what it should. -/
theorem scopes_exact_of_typed : scopes ⟨⟨[⟨[1], 0⟩], by decide⟩, [⟨[1], some "movie"⟩], by decide⟩
        ⟨[], 1, {}, 1, 1, [none], false⟩ ⟨[1], 0⟩ = true ↔
      HasRequestedType ⟨⟨[⟨[1], 0⟩], by decide⟩, [⟨[1], some "movie"⟩], by decide⟩ [none] ⟨[1], 0⟩ :=
  (contentTypesScope_exact_iff ⟨⟨[⟨[1], 0⟩], by decide⟩, [⟨[1], some "movie"⟩], by decide⟩
    ⟨[], 1, {}, 1, 1, [none], false⟩ (by decide) rfl).mpr (by simp) _ List.mem_cons_self

/-! ## Pages and chunks -/

theorem length_remaining_lt (db : Db) (msg : MessageParams) (max : GoString) :
    (remaining db msg max).length < 2 ^ 63 := by
  rw [remaining, (orderBy_perm _).length_eq, length_map]
  exact Nat.lt_of_le_of_lt (length_filter_le _ _) db.bounded

theorem intOf_cases (n : UInt64) : n.toNat < 2 ^ 63 ∧ intOf n = n.toNat ∨ intOf n < 0 ∧ 2 ^ 63 ≤ n.toNat := by
  have hcond : intOf n = if 2 * n.toNat < 2 ^ 64 then (n.toNat : Int)
      else (n.toNat : Int) - ((2 ^ 64 : Nat) : Int) := BitVec.toInt_eq_toNat_cond n.toBitVec
  have hlt := n.toNat_lt
  split_ifs at hcond <;> omega

/-- The hashes that a page holds. A batch size from `2 ^ 63` on is no limit. -/
def pageSize (db : Db) (msg : MessageParams) : Nat :=
  if msg.batchSize.toNat < 2 ^ 63 then msg.batchSize.toNat
  else (remaining db msg msg.infoHashGreaterThan).length

/-- The hashes that a full chunk holds: so many whole pages that `ChunkSize` is reached. -/
def chunkLength (msg : MessageParams) (page : Nat) : Nat := (msg.chunkSize.toNat + page - 1) / page * page

/-- `remaining` is read in pages of `L`. -/
def Paged (msg : MessageParams) (L : Nat) (R : List GoString) : Prop :=
  0 < L ∧ (msg.batchSize.toNat = L ∧ L < 2 ^ 63 ∨ 2 ^ 63 ≤ msg.batchSize.toNat ∧ (R = [] ∨ R.length = L))

theorem paged_pageSize (hpos : 0 < msg.batchSize) (hne : remaining db msg msg.infoHashGreaterThan ≠ []) :
    Paged msg (pageSize db msg) (remaining db msg msg.infoHashGreaterThan) := by
  have hbatch : 0 < msg.batchSize.toNat := UInt64.lt_iff_toNat_lt.mp hpos
  have hlen := length_pos_iff.mpr hne
  unfold Paged pageSize
  split_ifs <;> omega

theorem pageSize_le (db : Db) (msg : MessageParams) : pageSize db msg ≤ msg.batchSize.toNat := by
  have hlen := length_remaining_lt db msg msg.infoHashGreaterThan
  unfold pageSize
  split_ifs <;> omega

section
variable {L : Nat}

theorem Paged.drop {R : List GoString} (h : Paged msg L R) {m : Nat} (hm : 0 < m) : Paged msg L (R.drop (m * L)) := by
  obtain ⟨hL, hsmall | ⟨hlarge, hR⟩⟩ := h
  · exact ⟨hL, .inl hsmall⟩
  · have hle : L ≤ m * L := Nat.le_mul_of_pos_left L hm
    refine ⟨hL, .inr ⟨hlarge, .inl (drop_eq_nil_of_le ?_)⟩⟩
    rcases hR with rfl | hR
    · exact Nat.zero_le _
    · omega

theorem find_of_paged (h : Paged msg L (remaining db msg max)) : find db msg max = (remaining db msg max).take L := by
  obtain ⟨hL, ⟨hbatch, hlt⟩ | ⟨hlarge, hR⟩⟩ := h
  · have hint := intOf_cases msg.batchSize
    rw [find, limited, if_neg (by omega)]
    congr 1
    omega
  · have hint := intOf_cases msg.batchSize
    rw [find, limited, if_pos (by omega), take_of_length_le]
    rcases hR with hR | hR
    · simp [hR]
    · exact hR.le

/-- A page is short exactly when less than a page remained. -/
theorem short_iff (h : Paged msg L (remaining db msg max)) (hne : remaining db msg max ≠ []) :
    ((find db msg max).length : Int) < intOf msg.batchSize ↔ (remaining db msg max).length < L := by
  have hint := intOf_cases msg.batchSize
  have hfind := congrArg length (find_of_paged h)
  rw [length_take] at hfind
  obtain ⟨hL, ⟨hbatch, hlt⟩ | ⟨hlarge, hR⟩⟩ := h
  · omega
  · have hfull := hR.resolve_left hne
    omega

/-- **The loop**, when it has read `k` pages of a chunk of `k + m`: it reads the pages of the next `m * L` hashes, and
is done if there are not so many. -/
theorem loop_eq {m : Nat} (k : Nat) (max : GoString)
    (hchunk : ∀ j, msg.chunkSize.toNat ≤ j * L ↔ k + m ≤ j) (hm : 0 < m)
    (hpaged : Paged msg L (remaining db msg max)) (hbound : k * L + (remaining db msg max).length < 2 ^ 63) :
    ∃ last, loop db msg max (UInt64.ofNat (k * L)) = ⟨blocks L ((remaining db msg max).take (m * L)), last,
        decide ((remaining db msg max).length < m * L)⟩ ∧
      (m * L ≤ (remaining db msg max).length →
        ((remaining db msg max).take (m * L)).getLast? = some last ∧
        remaining db msg last = (remaining db msg max).drop (m * L)) := by
  induction m generalizing k max with
  | zero => exact absurd hm (Nat.lt_irrefl 0)
  | succ m ih =>
    have hL := hpaged.1
    have hle : L ≤ (m + 1) * L := Nat.le_mul_of_pos_left L (Nat.succ_pos m)
    have hfind := find_of_paged hpaged
    by_cases hnil : remaining db msg max = []
    · refine ⟨max, ?_, ?_⟩
      · rw [loop, dif_pos (by rw [hfind, hnil, take_nil]), hnil]
        simp [hL]
      · rw [hnil, length_nil]
        omega
    · have hne : find db msg max ≠ [] := by
        rw [hfind, Ne, take_eq_nil_iff]
        exact not_or.mpr ⟨Nat.ne_of_gt hL, hnil⟩
      rw [loop, dif_neg hne]
      dsimp only
      by_cases hshort : (remaining db msg max).length < L
      · refine ⟨(find db msg max).getLast hne, ?_, fun h => by omega⟩
        rw [if_pos ((short_iff hpaged hnil).mpr hshort), blocks_take_succ hL hnil, drop_eq_nil_of_le hshort.le,
          take_nil, blocks_nil, ← hfind, decide_eq_true (Nat.lt_of_lt_of_le hshort hle)]
      · have hlen : (find db msg max).length = L := by
          rw [hfind, length_take]
          omega
        have hnext : remaining db msg ((find db msg max).getLast hne) = (remaining db msg max).drop L := by
          have hspec := find_spec hne
          rw [← hspec, drop_append_of_le_length hlen.ge, drop_of_length_le hlen.le, nil_append]
        have hsum : UInt64.ofNat (k * L) + UInt64.ofNat (find db msg max).length = UInt64.ofNat ((k + 1) * L) := by
          rw [hlen, ← UInt64.ofNat_add, Nat.succ_mul]
        have hnat : (UInt64.ofNat ((k + 1) * L)).toNat = (k + 1) * L := by
          refine UInt64.toNat_ofNat_of_lt' ?_
          have hsucc : (k + 1) * L = k * L + L := Nat.succ_mul k L
          have hsize : UInt64.size = 2 ^ 64 := rfl
          omega
        rw [if_neg (mt (short_iff hpaged hnil).mp hshort), hsum]
        by_cases hfull : m = 0
        · subst hfull
          refine ⟨(find db msg max).getLast hne, ?_, ?_⟩
          · have hfilled : UInt64.ofNat ((k + 1) * L) ≥ msg.chunkSize := by
              rw [ge_iff_le, UInt64.le_iff_toNat_le, hnat]
              exact (hchunk (k + 1)).mpr le_rfl
            rw [if_pos hfilled, blocks_take_succ hL hnil, Nat.zero_mul, take_zero, blocks_nil, ← hfind, Nat.zero_add,
              Nat.one_mul, decide_eq_false hshort]
          · intro _
            rw [Nat.zero_add, Nat.one_mul, hnext, ← hfind]
            exact ⟨getLast?_eq_some_getLast hne, rfl⟩
        · have hrest := ih (k + 1) ((find db msg max).getLast hne)
            (fun j => by rw [hchunk j]; omega) (Nat.pos_of_ne_zero hfull)
            (by rw [hnext]; simpa using hpaged.drop Nat.one_pos)
            (by rw [hnext, length_drop, Nat.succ_mul]; omega)
          obtain ⟨last, hloop, hlast⟩ := hrest
          rw [hnext] at hloop hlast
          refine ⟨last, ?_, ?_⟩
          · have hunfilled : ¬ UInt64.ofNat ((k + 1) * L) ≥ msg.chunkSize := by
              rw [ge_iff_le, UInt64.le_iff_toNat_le, hnat, hchunk (k + 1)]
              omega
            rw [if_neg hunfilled, hloop, blocks_take_succ hL hnil, ← hfind, length_drop]
            congr 1
            rw [decide_eq_decide, Nat.succ_mul]
            omega
          · intro hmore
            have hmore' : m * L ≤ ((remaining db msg max).drop L).length := by
              rw [length_drop]
              rw [Nat.succ_mul] at hmore
              omega
            obtain ⟨hgetLast, hrem⟩ := hlast hmore'
            constructor
            · rw [Nat.succ_mul, Nat.add_comm, take_add, getLast?_append, hgetLast, Option.some_or]
            · rw [hrem, drop_drop, Nat.succ_mul, Nat.add_comm]

end

/-! ## One chunk -/

/-- What a chunk of the selection needs to be created: with the batch job that goes on after a full chunk it has at
most 65535 parameters, and none of its jobs is open. -/
structure ChunkCreatable (queue : List Fingerprint) (msg : MessageParams) (L full : Nat) (chunk : List GoString) :
    Prop where
  fits : 13 * ((blocks L chunk).length + if chunk.length = full then 1 else 0) ≤ 65535
  pages : ∀ page ∈ blocks L chunk, (msg.job page).fingerprint ∉ queue
  handover : chunk.length = full → ∀ max, chunk.getLast? = some max → (msg.after max).fingerprint ∉ queue

section
variable {L full : Nat} {queue : List Fingerprint}

theorem job_fingerprint_inj {page page' : List GoString}
    (h : (msg.job page).fingerprint = (msg.job page').fingerprint) : page = page' := by
  injection h

theorem after_fingerprint_inj {max max' : GoString} (h : (msg.after max).fingerprint = (msg.after max').fingerprint) :
    max = max' := by
  injection h with hmsg _
  injection hmsg

theorem job_fingerprint_ne (page : List GoString) (msg' : MessageParams) :
    (msg.job page).fingerprint ≠ msg'.fingerprint := nofun

/-- The jobs of the chunk that begins at the message's hash. -/
structure ChunkOf (db : Db) (msg : MessageParams) (L full : Nat) : Prop where
  jobs : (queueJobs db msg).1 = (blocks L ((remaining db msg msg.infoHashGreaterThan).take full)).map msg.job
  last : (remaining db msg msg.infoHashGreaterThan).length < full → (queueJobs db msg).2 = none
  next : full ≤ (remaining db msg msg.infoHashGreaterThan).length → ∃ max,
    (queueJobs db msg).2 = some (msg.after max) ∧
    ((remaining db msg msg.infoHashGreaterThan).take full).getLast? = some max ∧
    remaining db msg max = (remaining db msg msg.infoHashGreaterThan).drop full

theorem chunkOf (hbatch : 0 < msg.batchSize) (hchunk : 0 < msg.chunkSize)
    (hpaged : Paged msg L (remaining db msg msg.infoHashGreaterThan)) : ChunkOf db msg L (chunkLength msg L) := by
  have hL := hpaged.1
  have hpos : 0 < msg.chunkSize.toNat := UInt64.lt_iff_toNat_lt.mp hchunk
  have hreach : ∀ j, msg.chunkSize.toNat ≤ j * L ↔ 0 + (msg.chunkSize.toNat + L - 1) / L ≤ j := by
    intro j
    rw [Nat.zero_add, Nat.div_le_iff_le_mul_add_pred hL, Nat.mul_comm]
    omega
  have hm : 0 < (msg.chunkSize.toNat + L - 1) / L := Nat.div_pos (by omega) hL
  obtain ⟨max, hloop, hmax⟩ := loop_eq 0 msg.infoHashGreaterThan hreach hm hpaged
    (by rw [Nat.zero_mul, Nat.zero_add]; exact length_remaining_lt db msg _)
  rw [Nat.zero_mul, show UInt64.ofNat 0 = 0 from rfl] at hloop
  have hbatch' : msg.batchSize ≠ 0 := fun h => absurd hbatch (by rw [h]; decide)
  have hchunk' : msg.chunkSize ≠ 0 := fun h => absurd hchunk (by rw [h]; decide)
  have hdefaults : (msg.after max).withDefaults = msg.after max := by
    simp [MessageParams.withDefaults, MessageParams.after, hbatch', hchunk']
  refine ⟨?_, fun hshort => ?_, fun hfull => ⟨max, ?_, hmax hfull⟩⟩
  · rw [queueJobs, hloop]
    rfl
  · rw [queueJobs, hloop]
    exact if_pos (decide_eq_true hshort)
  · rw [queueJobs, hloop]
    dsimp only
    rw [if_neg (by simpa [chunkLength] using hfull), hdefaults]

/-- The jobs of a chunk have distinct fingerprints. -/
theorem ChunkOf.nodup (h : ChunkOf db msg L full) : (fingerprints (queueJobs db msg)).Nodup := by
  have hpages : ((queueJobs db msg).1.map Job.fingerprint).Nodup := by
    rw [h.jobs, map_map]
    refine Nodup.map (fun page page' hsame => job_fingerprint_inj hsame) (nodup_blocks ?_)
    exact (nodup_of_pairwise_lt (remaining_strict db msg _)).sublist (take_sublist _ _)
  refine nodup_append.mpr ⟨hpages, ?_, ?_⟩
  · cases (queueJobs db msg).2 <;> simp
  · intro f hf f' hf'
    rw [h.jobs, map_map] at hf
    obtain ⟨page, -, rfl⟩ := mem_map.mp hf
    obtain ⟨msg', -, rfl⟩ := mem_map.mp hf'
    exact job_fingerprint_ne page msg'

/-- The handler succeeds exactly when its chunk can be created. -/
theorem ChunkOf.handle_ok_iff (h : ChunkOf db msg L full) (hne : remaining db msg msg.infoHashGreaterThan ≠ [])
    (hL : 0 < L) (hfull : 0 < full) {queue' : List Fingerprint} :
    handle db queue msg = .ok queue' ↔
      ChunkCreatable queue msg L full ((remaining db msg msg.infoHashGreaterThan).take full) ∧
        queue' = queue ++ fingerprints (queueJobs db msg) := by
  have hchunk : (remaining db msg msg.infoHashGreaterThan).take full ≠ [] := by
    rw [Ne, take_eq_nil_iff]
    exact not_or.mpr ⟨Nat.ne_of_gt hfull, hne⟩
  have hsome : fingerprints (queueJobs db msg) ≠ [] := by
    rw [fingerprints, h.jobs, blocks_of_ne_nil hL hchunk]
    exact append_ne_nil_of_left_ne_nil (cons_ne_nil _ _) _
  have hcreate : handle db queue msg = .ok queue' ↔ 13 * (fingerprints (queueJobs db msg)).length ≤ 65535 ∧
      (∀ f ∈ fingerprints (queueJobs db msg), f ∉ queue) ∧ queue' = queue ++ fingerprints (queueJobs db msg) := by
    have hnodup := h.nodup
    unfold handle create
    rw [if_neg hsome]
    grind
  have hlength : (fingerprints (queueJobs db msg)).length =
      (blocks L ((remaining db msg msg.infoHashGreaterThan).take full)).length +
        if ((remaining db msg msg.infoHashGreaterThan).take full).length = full then 1 else 0 := by
    rw [fingerprints, length_append, length_map, h.jobs, length_map, length_take]
    by_cases hlen : full ≤ (remaining db msg msg.infoHashGreaterThan).length
    · obtain ⟨max, hnext, -⟩ := h.next hlen
      rw [hnext, if_pos (by omega)]
      rfl
    · rw [h.last (by omega), if_neg (by omega)]
      rfl
  have hfree : (∀ f ∈ fingerprints (queueJobs db msg), f ∉ queue) ↔
      (∀ page ∈ blocks L ((remaining db msg msg.infoHashGreaterThan).take full), (msg.job page).fingerprint ∉ queue) ∧
        (((remaining db msg msg.infoHashGreaterThan).take full).length = full →
          ∀ max, ((remaining db msg msg.infoHashGreaterThan).take full).getLast? = some max →
            (msg.after max).fingerprint ∉ queue) := by
    rw [fingerprints, forall_mem_append, h.jobs, map_map, forall_mem_map, length_take]
    refine and_congr Iff.rfl ?_
    by_cases hlen : full ≤ (remaining db msg msg.infoHashGreaterThan).length
    · obtain ⟨max, hnext, hlast, -⟩ := h.next hlen
      rw [hnext, hlast]
      simp [hlen]
    · rw [h.last (by omega)]
      simp [hlen]
  rw [hcreate, hlength, hfree]
  exact ⟨fun ⟨hfits, ⟨hpages, hhandover⟩, heq⟩ => ⟨⟨hfits, hpages, hhandover⟩, heq⟩,
    fun ⟨⟨hfits, hpages, hhandover⟩, heq⟩ => ⟨hfits, ⟨hpages, hhandover⟩, heq⟩⟩

end

/-! ## The chain -/

/-- Every chunk of the selection can be created. -/
def Creatable (db : Db) (queue : List Fingerprint) (msg : MessageParams) : Prop :=
  ∀ chunk ∈ blocks (chunkLength msg (pageSize db msg)) (remaining db msg msg.infoHashGreaterThan),
    ChunkCreatable queue msg (pageSize db msg) (chunkLength msg (pageSize db msg)) chunk

section
variable {L : Nat} {queue : List Fingerprint}

theorem chunkLength_pos (hL : 0 < L) (hchunk : 0 < msg.chunkSize) : 0 < chunkLength msg L := by
  have hpos : 0 < msg.chunkSize.toNat := UInt64.lt_iff_toNat_lt.mp hchunk
  exact Nat.mul_pos (Nat.div_pos (by omega) hL) hL

theorem run_of_nil (hnil : remaining db msg msg.infoHashGreaterThan = []) (n : Nat) :
    run db (n + 1) queue msg = .ok ([], none) := by
  have hloop : loop db msg msg.infoHashGreaterThan 0 = ⟨[], msg.infoHashGreaterThan, true⟩ := by
    rw [loop, dif_pos]
    rw [find, hnil, limited]
    split_ifs <;> simp
  have hjobs : queueJobs db msg = ([], none) := by rw [queueJobs, hloop]; rfl
  rw [run, handle, hjobs]
  rfl

theorem ChunkCreatable.mono {full : Nat} {chunk : List GoString} {new : List Fingerprint}
    (hc : ChunkCreatable (queue ++ new) msg L full chunk) : ChunkCreatable queue msg L full chunk where
  fits := hc.fits
  pages := fun page hpage hin => hc.pages page hpage (mem_append_left _ hin)
  handover := fun hfull max hmax hin => hc.handover hfull max hmax (mem_append_left _ hin)

/-- A later chunk is as free of the jobs of the first chunk as it is of the others. -/
theorem ChunkCreatable.append {full : Nat} {chunk : List GoString} (h : ChunkOf db msg L full)
    (hmem : chunk ∈ blocks full ((remaining db msg msg.infoHashGreaterThan).drop full))
    (hc : ChunkCreatable queue msg L full chunk) :
    ChunkCreatable (queue ++ fingerprints (queueJobs db msg)) msg L full chunk := by
  have hnodup := nodup_of_pairwise_lt (remaining_strict db msg msg.infoHashGreaterThan)
  have hother : ∀ hash ∈ chunk, hash ∉ (remaining db msg msg.infoHashGreaterThan).take full := fun hash hhash hfirst =>
    disjoint_take_drop hnodup (Nat.le_refl full) hfirst (subset_of_mem_blocks hmem hhash)
  refine ⟨hc.fits, fun page hpage hin => ?_, fun hfull max hmax hin => ?_⟩
  · rcases mem_append.mp hin with hold | hnew
    · exact hc.pages page hpage hold
    · rcases mem_append.mp hnew with hjob | hnext
      · rw [h.jobs, map_map] at hjob
        obtain ⟨page', hpage', hsame⟩ := mem_map.mp hjob
        obtain rfl := job_fingerprint_inj hsame
        obtain ⟨hash, hhash⟩ := exists_mem_of_ne_nil _ (ne_nil_of_mem_blocks hpage)
        exact hother hash (subset_of_mem_blocks hpage hhash) (subset_of_mem_blocks hpage' hhash)
      · obtain ⟨msg', -, hsame⟩ := mem_map.mp hnext
        exact job_fingerprint_ne page msg' hsame.symm
  · rcases mem_append.mp hin with hold | hnew
    · exact hc.handover hfull max hmax hold
    · rcases mem_append.mp hnew with hjob | hnext
      · rw [h.jobs, map_map] at hjob
        obtain ⟨page', -, hsame⟩ := mem_map.mp hjob
        exact job_fingerprint_ne page' _ hsame
      · -- the hand-over of the first chunk starts at one of its own hashes
        by_cases hlen : full ≤ (remaining db msg msg.infoHashGreaterThan).length
        · obtain ⟨max', hnext', hlast, -⟩ := h.next hlen
          rw [hnext'] at hnext
          obtain ⟨msg', hmsg', hsame⟩ := mem_map.mp hnext
          obtain rfl := mem_singleton.mp hmsg'
          obtain rfl := after_fingerprint_inj hsame
          exact hother _ (mem_of_getLast? hmax) (mem_of_getLast? hlast)
        · rw [h.last (by omega)] at hnext
          cases hnext

/-- **The chain**: it ends exactly when every chunk can be created, with the pages of the whole selection. -/
theorem run_spec (n : Nat) (queue : List Fingerprint) (msg : MessageParams) (hbatch : 0 < msg.batchSize)
    (hchunk : 0 < msg.chunkSize) (hpaged : Paged msg L (remaining db msg msg.infoHashGreaterThan)) :
    ((∃ jobs, run db n queue msg = .ok (jobs, none)) →
      ∀ chunk ∈ blocks (chunkLength msg L) (remaining db msg msg.infoHashGreaterThan),
        ChunkCreatable queue msg L (chunkLength msg L) chunk) ∧
    ((remaining db msg msg.infoHashGreaterThan).length < n →
      (∀ chunk ∈ blocks (chunkLength msg L) (remaining db msg msg.infoHashGreaterThan),
        ChunkCreatable queue msg L (chunkLength msg L) chunk) →
      ∃ jobs, run db n queue msg = .ok (jobs, none) ∧
        jobs.flatMap Job.infoHashes = remaining db msg msg.infoHashGreaterThan ∧
        ∀ job ∈ jobs, job.infoHashes.length ≤ L) := by
  induction n generalizing queue msg with
  | zero =>
    refine ⟨?_, fun h => absurd h (Nat.not_lt_zero _)⟩
    rintro ⟨jobs, hrun⟩
    cases hrun
  | succ n ih =>
    have hL := hpaged.1
    have hfull := chunkLength_pos hL hchunk
    by_cases hnil : remaining db msg msg.infoHashGreaterThan = []
    · rw [hnil]
      exact ⟨fun _ chunk hmem => by simp at hmem, fun _ _ => ⟨[], run_of_nil hnil n, rfl, by simp⟩⟩
    · have h := chunkOf hbatch hchunk hpaged
      have hok : ∀ queue', handle db queue msg = .ok queue' ↔ ChunkCreatable queue msg L (chunkLength msg L)
          ((remaining db msg msg.infoHashGreaterThan).take (chunkLength msg L)) ∧
            queue' = queue ++ fingerprints (queueJobs db msg) := fun _ => h.handle_ok_iff hnil hL hfull
      rw [blocks_of_ne_nil hfull hnil]
      simp only [forall_mem_cons]
      have hjobs : (queueJobs db msg).1.flatMap Job.infoHashes =
          (remaining db msg msg.infoHashGreaterThan).take (chunkLength msg L) := by
        rw [h.jobs, flatMap_map]
        exact flatMap_id'.trans (flatten_blocks hL _)
      have hsize : ∀ job ∈ (queueJobs db msg).1, job.infoHashes.length ≤ L := by
        rw [h.jobs, forall_mem_map]
        exact fun page hpage => length_le_of_mem_blocks hpage
      by_cases hlen : chunkLength msg L ≤ (remaining db msg msg.infoHashGreaterThan).length
      · obtain ⟨max, hnext, hlast, hrest⟩ := h.next hlen
        have hpaged' : Paged (msg.after max) L (remaining db (msg.after max) max) := by
          rw [show remaining db (msg.after max) max = remaining db msg max from rfl, hrest]
          exact hpaged.drop (Nat.pos_of_mul_pos_right hfull)
        have hih := fun queue' => ih queue' (msg.after max) hbatch hchunk hpaged'
        rw [← hrest]
        constructor
        · rintro ⟨jobs, hrun⟩
          unfold run at hrun
          cases hhandle : handle db queue msg with
          | error e => rw [hhandle] at hrun; cases hrun
          | ok queue' =>
            obtain ⟨hfirst, rfl⟩ := (hok queue').mp hhandle
            rw [hhandle, hnext] at hrun
            obtain ⟨r, hr, heq⟩ := map_eq_ok_iff.mp hrun
            obtain ⟨-, hnone⟩ := Prod.mk.inj heq
            refine ⟨hfirst, fun chunk hmem => ?_⟩
            have hlater := (hih _).1 ⟨r.1, by rw [hr, ← hnone]⟩ chunk hmem
            exact ChunkCreatable.mono ⟨hlater.fits, hlater.pages, hlater.handover⟩
        · rintro hlt ⟨hfirst, hlater⟩
          have hhandle := (hok _).mpr ⟨hfirst, rfl⟩
          obtain ⟨jobs, hrun, hflat, hshort⟩ := (hih (queue ++ fingerprints (queueJobs db msg))).2
            (by
              show (remaining db msg max).length < n
              rw [hrest, length_drop]
              omega)
            (fun chunk hmem => by
              have happend := (hlater chunk hmem).append h (hrest ▸ hmem)
              exact ⟨happend.fits, happend.pages, happend.handover⟩)
          refine ⟨(queueJobs db msg).1 ++ jobs, ?_, ?_, ?_⟩
          · unfold run
            rw [hhandle, hnext]
            exact map_eq_ok_iff.mpr ⟨_, hrun, rfl⟩
          · rw [flatMap_append, hjobs, hflat]
            exact (congrArg _ hrest).trans (take_append_drop _ _)
          · exact forall_mem_append.mpr ⟨hsize, hshort⟩
      · have hnone := h.last (by omega)
        rw [drop_eq_nil_of_le (by omega), blocks_nil]
        constructor
        · rintro ⟨jobs, hrun⟩
          unfold run at hrun
          cases hhandle : handle db queue msg with
          | error e => rw [hhandle] at hrun; cases hrun
          | ok queue' => exact ⟨((hok queue').mp hhandle).1, by simp⟩
        · rintro - ⟨hfirst, -⟩
          refine ⟨(queueJobs db msg).1, ?_, ?_, hsize⟩
          · unfold run
            rw [(hok _).mpr ⟨hfirst, rfl⟩, hnone]
          · rw [hjobs, take_of_length_le (by omega)]

end

/-- What a finished chain owes: every selected torrent in exactly one job, and nothing else. -/
structure Covers (db : Db) (msg : MessageParams) (jobs : List Job) : Prop where
  once : ∀ t ∈ db.torrents.rows, selects db msg t = true → compare msg.infoHashGreaterThan t.infoHash = .lt →
    jobs.countP (fun job => decide (t.infoHash ∈ job.infoHashes)) = 1
  nodup : ∀ job ∈ jobs, job.infoHashes.Nodup
  only : ∀ job ∈ jobs, ∀ hash ∈ job.infoHashes, ∃ t ∈ db.torrents.rows, t.infoHash = hash ∧
    selects db msg t = true ∧ compare msg.infoHashGreaterThan hash = .lt
  size : ∀ job ∈ jobs, job.infoHashes.length ≤ msg.batchSize.toNat

theorem countP_eq_one_of_nodup_flatMap {jobs : List Job} (hnodup : (jobs.flatMap Job.infoHashes).Nodup)
    {hash : GoString} (hmem : hash ∈ jobs.flatMap Job.infoHashes) :
    jobs.countP (fun job => decide (hash ∈ job.infoHashes)) = 1 := by
  induction jobs with
  | nil => exact absurd hmem not_mem_nil
  | cons job jobs ih =>
    rw [flatMap_cons, nodup_append] at hnodup
    obtain ⟨_, hrest, hdisjoint⟩ := hnodup
    rw [countP_cons]
    by_cases hjob : hash ∈ job.infoHashes
    · have hzero : jobs.countP (fun job => decide (hash ∈ job.infoHashes)) = 0 := by grind
      rw [hzero, if_pos (decide_eq_true hjob)]
    · grind

def manyHash (n : Nat) : GoString := [UInt8.ofNat (n / 256), UInt8.ofNat (n % 256)]

theorem manyHash_inj {m n : Nat} (hm : m < 65536) (hn : n < 65536) (h : manyHash m = manyHash n) : m = n := by
  have hhigh := congrArg UInt8.toNat (cons.inj h).1
  have hlow := congrArg UInt8.toNat (cons.inj (cons.inj h).2).1
  simp only [UInt8.toNat_ofNat'] at hhigh hlow
  omega

/-- As many torrents as asked for, none with a content. -/
def manyTorrents (count : Nat) (hcount : count < 65536) : Db where
  torrents :=
    { rows := (List.range count).map fun n => ⟨manyHash n, 0⟩
      nodup := by
        rw [map_map]
        refine Nodup.map_on (fun m hm n hn h => ?_) nodup_range
        exact manyHash_inj (Nat.lt_trans (mem_range.mp hm) hcount) (Nat.lt_trans (mem_range.mp hn) hcount) h }
  contents := []
  bounded := by
    rw [length_map, length_range]
    omega

theorem length_remaining_many {count : Nat} (hcount : count < 65536) :
    (remaining (manyTorrents count hcount) ⟨[], 1, {}, 10000, 1, [], false⟩ []).length = count := by
  have hall : ∀ t ∈ (manyTorrents count hcount).torrents.rows, (selects (manyTorrents count hcount)
      ⟨[], 1, {}, 10000, 1, [], false⟩ t && compare [] t.infoHash == .lt) = true := by
    intro t ht
    obtain ⟨n, -, rfl⟩ := mem_map.mp ht
    rfl
  rw [remaining, (orderBy_perm _).length_eq, length_map, filter_eq_self.mpr hall]
  exact (length_map _).trans length_range

/-- A chain with batch size 1 and chunk size 10000 does not end if it finds more than 5041 torrents. -/
theorem run_many_stops {count : Nat} (hcount : count < 65536) (hmany : 5041 < count) (n : Nat) (jobs : List Job) :
    run (manyTorrents count hcount) n [] ⟨[], 1, {}, 10000, 1, [], false⟩ ≠ .ok (jobs, none) := by
  intro hrun
  have hlen := length_remaining_many hcount
  have hne : remaining (manyTorrents count hcount) ⟨[], 1, {}, 10000, 1, [], false⟩ [] ≠ [] := by
    intro h
    rw [h, length_nil] at hlen
    omega
  have hfits := ((run_spec (L := 1) n [] ⟨[], 1, {}, 10000, 1, [], false⟩ (by decide) (by decide)
    ⟨Nat.one_pos, .inl ⟨rfl, by decide⟩⟩).1 ⟨jobs, hrun⟩ _
    (by rw [blocks_of_ne_nil (by decide) hne]; exact mem_cons_self)).fits
  have hfull : chunkLength ⟨[], 1, {}, 10000, 1, [], false⟩ 1 = 10000 := rfl
  rw [length_blocks_one, length_take, hlen, hfull] at hfits
  omega

end BitAgent.Processor.Batch
