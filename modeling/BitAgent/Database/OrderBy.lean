/-
# Database.OrderBy — the order aliases of a search

`applySelect` projects order column `i` as `_order_i`, and `applyPost`, a loop of its own, sorts by these names. The
two agree where a rank column stands last: `applySelect` breaks there, and later columns are not projected.
-/
import BitAgent.Lib.Prelude
import Mathlib.Data.List.Infix

namespace BitAgent.Database

open List

/-! ## The two loops -/

structure Column where
  table : String := ""
  name : String := ""
  asName : String := ""
  raw : Bool := false

structure OrderByColumn where
  column : Column
  desc : Bool := false
  requiredJoins : List String := []

structure Selection where
  expr : String
  asName : Option String := none

def Selection.sql (p : Selection) : String :=
  match p.asName with
  | none => p.expr
  | some name => p.expr ++ " AS " ++ name

structure GroupingSpec where
  candidatePrefix : Bool := false
  distinctOnSQL : String
  innerOrderSQL : String

/-- The fields of `optionBuilder` that the order of a query depends on. -/
structure OptionBuilder where
  tableName : String
  tsquery : String := ""
  selections : List Selection := []
  grouping : Option GroupingSpec := none
  orderBy : List OrderByColumn := []

def queryStringRankField : String := "query_string_rank"

/-- `clause.CurrentTable`, replaced by the table of the statement. -/
def currentTable : String := "~~~ct~~~"

/-- The alias of the order column at position `i`. -/
def orderAlias (i : Nat) : String := "_order_" ++ Nat.repr i
def OrderByColumn.isRank (ob : OrderByColumn) : Bool := ob.column.name == queryStringRankField

/-- `Statement.QuoteTo` on a column without an alias. -/
def quoteTo (tableName : String) (c : Column) : String :=
  if c.raw then c.name
  else if c.table = "" then "\"" ++ c.name ++ "\""
  else
    let table := if c.table = currentTable then tableName else c.table
    "\"" ++ table ++ "\".\"" ++ c.name ++ "\""

namespace OptionBuilder

/-- What `applySelect` selects before the order columns. -/
def baseParts (b : OptionBuilder) : List Selection :=
  match b.grouping with
  | some spec => [{ expr := "DISTINCT ON (" ++ spec.distinctOnSQL ++ ") " ++ b.tableName ++ ".*" }]
  | none => if b.selections = [] then [{ expr := "*" }] else b.selections

def rankFragment (b : OptionBuilder) : String :=
  if b.tsquery = "" then "0" else "ts_rank_cd(" ++ b.tableName ++ ".tsv, ?::tsquery)"

/-- The loop of `applySelect` over the columns from `i` on. -/
def orderParts (b : OptionBuilder) (i : Nat) : List OrderByColumn → List Selection
  | [] => []
  | ob :: rest =>
    -- the `break` stands in an `if`, so it leaves the loop and not the branch
    if ob.isRank then [{ expr := b.rankFragment, asName := some (orderAlias i) }]
    else if ob.column.asName = "" then
      { expr := quoteTo b.tableName ob.column, asName := some (orderAlias i) } :: orderParts b (i + 1) rest
    else orderParts b (i + 1) rest

/-- `applySelect` with `withOrderSelect`. -/
def applySelect (b : OptionBuilder) : List Selection := b.baseParts ++ b.orderParts 0 b.orderBy

/-- The name that `applyPost` sorts by at position `i`. -/
def orderName (i : Nat) (ob : OrderByColumn) : String :=
  if ob.column.asName = "" then orderAlias i else ob.column.asName

/-- The loop of `applyPost` over the columns from `i` on. -/
def orderClauses (i : Nat) : List OrderByColumn → List (String × Bool)
  | [] => []
  | ob :: rest => (orderName i ob, ob.desc) :: orderClauses (i + 1) rest

/-- The ORDER BY of `applyPost`: names, each with its direction. -/
def applyPost (b : OptionBuilder) : List (String × Bool) := orderClauses 0 b.orderBy
def projected (b : OptionBuilder) : List String := b.applySelect.filterMap Selection.asName
def OrderProjected (b : OptionBuilder) : Prop := ∀ c ∈ b.applyPost, c.1 ∈ b.projected

instance (b : OptionBuilder) : Decidable b.OrderProjected := by
  unfold OrderProjected
  infer_instance

end OptionBuilder

/-! ## The lists that requests build -/

/-- `maps.InsertMap`: entries in the order in which their keys were first set. -/
structure InsertMap (κ ν : Type) where
  entries : List (κ × ν)
  nodup : (entries.map Prod.fst).Nodup

namespace InsertMap

variable {κ ν : Type} [DecidableEq κ]

def empty : InsertMap κ ν := ⟨[], nodup_nil⟩
def keys (m : InsertMap κ ν) : List κ := m.entries.map Prod.fst

def set (m : InsertMap κ ν) (key : κ) (value : ν) : InsertMap κ ν :=
  if h : key ∈ m.entries.map Prod.fst then
    { entries := m.entries.map fun e => if e.1 = key then (e.1, value) else e
      nodup := by
        rw [map_map]
        have hfst : Prod.fst ∘ (fun e : κ × ν => if e.1 = key then (e.1, value) else e) = Prod.fst := by grind
        rw [hfst]
        exact m.nodup }
  else
    { entries := m.entries ++ [(key, value)]
      nodup := by
        rw [map_append, nodup_append]
        refine ⟨m.nodup, nodup_singleton _, ?_⟩
        grind }

end InsertMap

inductive OrderDirection
  | ascending
  | descending
  deriving DecidableEq

def OrderDirection.desc (d : OrderDirection) : Bool := d == .descending

inductive TorrentContentOrderBy
  | relevance
  | publishedAt
  | updatedAt
  | size
  | filesCount
  | seeders
  | leechers
  | name
  | infoHash
  deriving DecidableEq

inductive TorrentFilesOrderBy
  | index
  | path
  | extension
  | size
  deriving DecidableEq

inductive QueueJobsOrderBy
  | createdAt
  | ranAt
  | priority
  deriving DecidableEq

def tableColumn (table name : String) (direction : OrderDirection) : OrderByColumn where
  column := { table := table, name := name }
  desc := direction.desc

def rawColumn (sql : String) (direction : OrderDirection) : OrderByColumn where
  column := { name := sql, raw := true }
  desc := direction.desc

def infoHashColumn (direction : OrderDirection) : OrderByColumn := tableColumn "torrent_contents" "info_hash" direction

def TorrentContentOrderBy.clauses (direction : OrderDirection) : TorrentContentOrderBy → List OrderByColumn
  | .relevance => [{ column := { name := queryStringRankField }, desc := direction.desc }]
  | .publishedAt => [tableColumn "torrent_contents" "published_at" direction, infoHashColumn direction]
  | .updatedAt => [tableColumn "torrent_contents" "updated_at" direction, infoHashColumn direction]
  | .size => [tableColumn "torrent_contents" "size" direction, infoHashColumn direction]
  | .filesCount => [rawColumn "COALESCE(torrent_contents.files_count, 0)" direction, infoHashColumn direction]
  | .seeders => [rawColumn "coalesce(torrent_contents.seeders, -1)" direction, infoHashColumn direction]
  | .leechers => [rawColumn "coalesce(torrent_contents.leechers, -1)" direction, infoHashColumn direction]
  | .name => [{ tableColumn "torrents" "name" direction with requiredJoins := ["torrents"] }]
  | .infoHash => [infoHashColumn direction]

def TorrentFilesOrderBy.clauses (direction : OrderDirection) : TorrentFilesOrderBy → List OrderByColumn
  | .index => [tableColumn "torrent_files" "index" direction]
  | .path => [tableColumn "torrent_files" "path" direction]
  | .extension => [tableColumn "torrent_files" "extension" direction]
  | .size => [tableColumn "torrent_files" "size" direction]

def QueueJobsOrderBy.clauses (direction : OrderDirection) : QueueJobsOrderBy → List OrderByColumn
  | .createdAt => [tableColumn "queue_jobs" "created_at" direction]
  | .ranAt => [tableColumn "queue_jobs" "ran_at" direction]
  | .priority => [tableColumn "queue_jobs" "priority" direction]

/-- The loop of the resolvers: a field given twice keeps its first position and last direction. -/
def fullOrderBy {κ : Type} [DecidableEq κ] (skip : κ → Bool) (input : List (κ × OrderDirection)) :
    InsertMap κ OrderDirection :=
  input.foldl (fun m ob => if skip ob.1 then m else m.set ob.1 ob.2) InsertMap.empty

def fullClauses {κ : Type} (clauses : OrderDirection → κ → List OrderByColumn)
    (fob : InsertMap κ OrderDirection) : List OrderByColumn :=
  fob.entries.flatMap fun ob => clauses ob.2 ob.1

/-- The spec that `TorrentContentGroupByContentOption` sets. -/
def groupByContent : GroupingSpec where
  candidatePrefix := true
  distinctOnSQL := "torrent_contents.content_type, torrent_contents.content_source, torrent_contents.content_id"
  innerOrderSQL := "torrent_contents.content_type, torrent_contents.content_source, torrent_contents.content_id, " ++
      "COALESCE(torrent_contents.seeders, -1) DESC, torrent_contents.info_hash"

def orderByQueryStringRank : List OrderByColumn := [{ column := { name := queryStringRankField }, desc := true }]

/-- The order of `TorrentContentDefaultOption`. -/
def torrentContentDefaultOrder : List OrderByColumn :=
  [{ column := { table := currentTable, name := "published_at" }, desc := true }]

/-- The requests for a search, as far as its order depends on them. -/
inductive Request
  | torrentContent (queryString : Option String)
      (orderBy : List (TorrentContentOrderBy × OrderDirection)) (groupByContent : Bool)
  | torrentFiles (orderBy : List (TorrentFilesOrderBy × OrderDirection))
  | queueJobs (orderBy : List (QueueJobsOrderBy × OrderDirection))
  | suggestTags
  | torznab (query : String) (disableOrderByRelevance : Bool)
  /-- The classifier's search for known content by name. -/
  | contentSearch (query : String)

namespace Request

def contentOrder (queryString : Option String) (orderBy : List (TorrentContentOrderBy × OrderDirection)) :
    InsertMap TorrentContentOrderBy OrderDirection :=
  fullOrderBy (fun field => decide (field = .relevance) && queryString.isNone) orderBy

def builder (toTsquery : String → String) : Request → OptionBuilder
  | torrentContent queryString orderBy grouped =>
    { tableName := "torrent_contents"
      tsquery := (queryString.map toTsquery).getD ""
      selections := [{ expr := "*" }]
      grouping := if grouped then some Database.groupByContent else none
      -- the last `OrderBy` option wins, so the rank order that a query string sets is gone
      orderBy := fullClauses TorrentContentOrderBy.clauses (contentOrder queryString orderBy) }
  | torrentFiles orderBy =>
    { tableName := "torrent_files"
      selections := [{ expr := "*" }]
      orderBy := fullClauses TorrentFilesOrderBy.clauses (fullOrderBy (fun _ => false) orderBy) }
  | queueJobs orderBy =>
    { tableName := "queue_jobs"
      selections := [{ expr := "*" }]
      orderBy := fullClauses QueueJobsOrderBy.clauses (fullOrderBy (fun _ => false) orderBy) }
  | suggestTags =>
    { tableName := "torrent_tags"
      selections := [{ expr := "torrent_tags.name", asName := some "name" },
        { expr := "count(torrent_tags.*)", asName := some "total_count" }]
      orderBy := [{ column := { asName := "total_count" } }, { column := { asName := "name" } }] }
  | torznab query disableOrderByRelevance =>
    { tableName := "torrent_contents"
      tsquery := if query = "" then "" else toTsquery query
      selections := [{ expr := "*" }]
      orderBy :=
        if query = "" then torrentContentDefaultOrder
        else if disableOrderByRelevance then TorrentContentOrderBy.clauses .descending .publishedAt
        else TorrentContentOrderBy.clauses .descending .relevance }
  | contentSearch query =>
    { tableName := "content"
      tsquery := toTsquery query
      selections := [{ expr := "*" }]
      orderBy := orderByQueryStringRank }

def sortsAfterRelevance : Request → Bool
  | torrentContent queryString orderBy _ =>
    decide (TorrentContentOrderBy.relevance ∈ (contentOrder queryString orderBy).keys.dropLast)
  | _ => false

end Request

/-! ## Where the loops agree -/

theorem orderAlias_inj {i j : Nat} : orderAlias i = orderAlias j ↔ i = j := by
  grind [orderAlias, String.toList_append, Lib.nat_eq_of_repr_eq, String.toList_inj, append_cancel_left]

namespace OptionBuilder

variable {l : List OrderByColumn}

theorem alias_from_succ_iff {i n : Nat} {name : String} : (∃ k < n + 1, name = orderAlias (i + k)) ↔
    name = orderAlias i ∨ ∃ k < n, name = orderAlias (i + 1 + k) := by
  constructor
  · rintro ⟨k, hk, rfl⟩
    cases k with
    | zero => exact .inl rfl
    | succ k => exact .inr ⟨k, Nat.lt_of_succ_lt_succ hk, by rw [Nat.add_right_comm]; rfl⟩
  · rintro (rfl | ⟨k, hk, rfl⟩)
    · exact ⟨0, Nat.succ_pos _, rfl⟩
    · exact ⟨k + 1, Nat.succ_lt_succ hk, by rw [Nat.add_right_comm]; rfl⟩

theorem mem_orderClauses {i : Nat} (hplain : ∀ c ∈ l, c.column.asName = "") {name : String} :
    name ∈ (orderClauses i l).map Prod.fst ↔ ∃ k < l.length, name = orderAlias (i + k) := by
  induction l generalizing i with
  | nil => simp [orderClauses]
  | cons ob rest ih =>
    have hname : orderName i ob = orderAlias i := by rw [orderName, if_pos (hplain ob mem_cons_self)]
    rw [orderClauses, map_cons, mem_cons, hname, ih fun c hc => hplain c (mem_cons_of_mem _ hc), length_cons,
      alias_from_succ_iff]

/-- How many of the order columns `applySelect` gets to project. -/
def reached : List OrderByColumn → Nat
  | [] => 0
  | ob :: rest => if ob.isRank then 1 else reached rest + 1

theorem mem_orderParts (b : OptionBuilder) {i : Nat} (hplain : ∀ c ∈ l, c.column.asName = "") {name : String} :
    name ∈ (b.orderParts i l).filterMap Selection.asName ↔ ∃ k < reached l, name = orderAlias (i + k) := by
  induction l generalizing i with
  | nil => simp [orderParts, reached]
  | cons ob rest ih =>
    rw [orderParts, reached]
    by_cases hrank : ob.isRank = true
    · rw [if_pos hrank, if_pos hrank]
      grind
    · rw [if_neg hrank, if_neg hrank, if_pos (hplain ob mem_cons_self)]
      simp only [filterMap_cons, mem_cons]
      rw [ih fun c hc => hplain c (mem_cons_of_mem _ hc), alias_from_succ_iff]

theorem length_le_reached_iff : l.length ≤ reached l ↔ ∀ c ∈ l.dropLast, c.isRank = false := by
  induction l with
  | nil => simp [reached]
  | cons ob rest ih =>
    rw [reached, length_cons]
    cases rest with
    | nil => by_cases hrank : ob.isRank = true <;> simp [hrank, reached]
    | cons ob' rest => grind

theorem asName_baseParts {b : OptionBuilder} (hall : b.selections = [{ expr := "*" }]) :
    ∀ p ∈ b.baseParts, p.asName = none := by grind [baseParts]

theorem orderProjected_iff {b : OptionBuilder} (hplain : ∀ c ∈ b.orderBy, c.column.asName = "")
    (hbase : ∀ p ∈ b.baseParts, p.asName = none) :
    b.OrderProjected ↔ ∀ c ∈ b.orderBy.dropLast, c.isRank = false := by
  have hnone : b.baseParts.filterMap Selection.asName = [] := filterMap_eq_nil_iff.mpr hbase
  have hprojected : b.projected = (b.orderParts 0 b.orderBy).filterMap Selection.asName := by
    grind [projected, applySelect]
  rw [← length_le_reached_iff]
  constructor
  · intro h
    by_contra hlt
    -- the first column that the loop of `applySelect` does not get to
    have hmem : orderAlias (0 + reached b.orderBy) ∈ (orderClauses 0 b.orderBy).map Prod.fst :=
      (mem_orderClauses hplain).mpr ⟨_, Nat.lt_of_not_le hlt, rfl⟩
    obtain ⟨c, hc, hname⟩ := mem_map.mp hmem
    have hin := h c hc
    rw [hname, hprojected] at hin
    obtain ⟨k, hk, heq⟩ := (b.mem_orderParts hplain).mp hin
    grind [orderAlias_inj]
  · intro hle c hc
    obtain ⟨k, hk, heq⟩ := (mem_orderClauses hplain).mp (mem_map_of_mem hc)
    rw [hprojected]
    exact (b.mem_orderParts hplain).mpr ⟨k, Nat.lt_of_lt_of_le hk hle, heq⟩

end OptionBuilder

theorem TorrentContentOrderBy.clauses_ne_nil (d : OrderDirection) (field : TorrentContentOrderBy) :
    field.clauses d ≠ [] := by
  cases field <;> exact cons_ne_nil _ _

variable {field : TorrentContentOrderBy}

theorem TorrentContentOrderBy.asName_clauses {d : OrderDirection} :
    ∀ c ∈ field.clauses d, c.column.asName = "" := by
  cases field <;> cases d <;> decide

theorem TorrentContentOrderBy.isRank_clauses {d : OrderDirection} :
    (field ≠ .relevance → ∀ c ∈ field.clauses d, c.isRank = false) ∧
      (field = .relevance → ∃ c, field.clauses d = [c] ∧ c.isRank = true) := by
  cases field with
  | relevance => exact ⟨fun h => absurd rfl h, fun _ => ⟨_, rfl, rfl⟩⟩
  | _ => exact ⟨fun _ => by cases d <;> decide, nofun⟩

theorem rank_before_end_iff (entries : List (TorrentContentOrderBy × OrderDirection)) :
    (∀ c ∈ (entries.flatMap fun ob => ob.1.clauses ob.2).dropLast, c.isRank = false) ↔
      TorrentContentOrderBy.relevance ∉ (entries.map Prod.fst).dropLast := by
  induction entries with
  | nil => simp
  | cons e rest ih =>
    rw [flatMap_cons, map_cons]
    cases rest with
    | nil =>
      rw [flatMap_nil, append_nil]
      constructor
      · intro _
        exact not_mem_nil
      · intro _ c hc
        by_cases hrel : e.1 = .relevance
        · obtain ⟨_, hone, _⟩ := (TorrentContentOrderBy.isRank_clauses (d := e.2)).2 hrel
          grind
        · exact TorrentContentOrderBy.isRank_clauses.1 hrel c (mem_of_mem_dropLast hc)
    | cons e' rest =>
      have hne : ((e' :: rest).flatMap fun ob => ob.1.clauses ob.2) ≠ [] := by
        grind [TorrentContentOrderBy.clauses_ne_nil, append_eq_nil_iff]
      rw [dropLast_append_of_ne_nil hne, forall_mem_append, ih, map_cons,
        dropLast_cons_cons, ← map_cons, mem_cons, not_or]
      refine and_congr_left' ?_
      by_cases hrel : e.1 = .relevance
      · obtain ⟨c, hone, hrank⟩ := (TorrentContentOrderBy.isRank_clauses (d := e.2)).2 hrel
        rw [hone, hrel]
        simp [hrank]
      · exact ⟨fun _ => Ne.symm hrel, fun _ => TorrentContentOrderBy.isRank_clauses.1 hrel⟩

section fullClauses

variable {κ : Type} {clauses : OrderDirection → κ → List OrderByColumn}

theorem forall_mem_fullClauses {P : OrderByColumn → Prop} (h : ∀ d field, ∀ c ∈ clauses d field, P c)
    (fob : InsertMap κ OrderDirection) : ∀ c ∈ fullClauses clauses fob, P c := by
  intro c hc
  obtain ⟨e, _, he⟩ := mem_flatMap.mp hc
  exact h _ _ c he

end fullClauses

theorem orderProjected_of_fields {κ : Type} {clauses : OrderDirection → κ → List OrderByColumn}
    (h : ∀ d field, ∀ c ∈ clauses d field, c.column.asName = "" ∧ c.isRank = false)
    (fob : InsertMap κ OrderDirection) (table tsquery : String) :
    OptionBuilder.OrderProjected
      { tableName := table, tsquery := tsquery, selections := [{ expr := "*" }],
        orderBy := fullClauses clauses fob } :=
  (OptionBuilder.orderProjected_iff (fun c hc => (forall_mem_fullClauses h fob c hc).1)
    (OptionBuilder.asName_baseParts rfl)).mpr fun c hc => (forall_mem_fullClauses h fob c (mem_of_mem_dropLast hc)).2

namespace Request

/-- Every name sorted by is projected, unless relevance is followed by a further field. -/
theorem orderProjected_builder_iff (toTsquery : String → String) (r : Request) :
    (r.builder toTsquery).OrderProjected ↔ r.sortsAfterRelevance = false := by
  cases r with
  | torrentContent queryString orderBy grouped =>
    have hplain : ∀ c ∈ fullClauses TorrentContentOrderBy.clauses (contentOrder queryString orderBy),
        c.column.asName = "" :=
      forall_mem_fullClauses (fun _ _ => TorrentContentOrderBy.asName_clauses) _
    rw [OptionBuilder.orderProjected_iff hplain (OptionBuilder.asName_baseParts rfl),
      sortsAfterRelevance, decide_eq_false_iff_not]
    exact rank_before_end_iff _
  | torrentFiles orderBy =>
    refine iff_of_true (orderProjected_of_fields ?_ _ _ _) rfl
    intro d field
    cases field <;> cases d <;> decide
  | queueJobs orderBy =>
    refine iff_of_true (orderProjected_of_fields ?_ _ _ _) rfl
    intro d field
    cases field <;> cases d <;> decide
  | suggestTags =>
    have hnames : (builder id suggestTags).OrderProjected := by decide
    exact iff_of_true hnames rfl
  | torznab query disableOrderByRelevance =>
    refine iff_of_true ?_ rfl
    refine (OptionBuilder.orderProjected_iff ?_ (OptionBuilder.asName_baseParts rfl)).mpr ?_
    · simp only [builder]
      split_ifs <;> decide
    · simp only [builder]
      split_ifs <;> decide
  | contentSearch query =>
    refine iff_of_true ((OptionBuilder.orderProjected_iff ?_ (OptionBuilder.asName_baseParts rfl)).mpr ?_) rfl
    · exact forall_mem_singleton.mpr rfl
    · exact forall_mem_nil _

/-- A search by relevance, then date, sorts by `_order_1`, which it does not project. -/
theorem relevance_then_date_not_projected : ¬ (builder (fun s => s) (torrentContent (some "ubuntu")
      [(.relevance, .descending), (.publishedAt, .descending)] false)).OrderProjected := by
  decide

end Request

end BitAgent.Database
