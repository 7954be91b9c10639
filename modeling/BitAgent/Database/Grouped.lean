/-
# Database.Grouped — one release per content, from a prefix

A grouped search shows the release with the most seeders of each content. `groupedPrefixItems` tries to answer from
the first few hundred releases in the user's order and returns the page if it is full. A full page is the page of
the whole query (`groupedPrefixItems_eq_wholePage`): the prefix loses only rows that come after it.
-/
import BitAgent.Database.OrderBy
import BitAgent.Lib.GoString
import BitAgent.Lib.Ordered
import BitAgent.Lib.Table
import Mathlib.Data.List.Dedup

namespace BitAgent.Database

open Std Lib Lib.Ordered List

/-! ## Eligible rows -/

/-- A row of `torrent_contents`: what grouping reads, and the others. -/
structure TorrentContent (π : Type) where
  infoHash : GoString
  contentType : Option String
  contentSource : Option String
  contentId : Option String
  seeders : Option Int
  other : π
  deriving DecidableEq

/-- `encode(bytes, 'hex')`. -/
def encodeHex (bytes : GoString) : String :=
  String.ofList (bytes.flatMap fun b => [Nat.digitChar (b.toNat / 16), Nat.digitChar (b.toNat % 16)])

/-- The generated primary key of `torrent_contents`. -/
def TorrentContent.id {π : Type} (r : TorrentContent π) : String :=
  encodeHex r.infoHash ++ ":" ++ r.contentType.getD "?" ++ ":" ++ r.contentSource.getD "?" ++ ":" ++
    r.contentId.getD "?"

/-- The table `torrent_contents`; a matched row has the type of its content. -/
structure TorrentContents (π : Type) where
  table : Table (TorrentContent.id : TorrentContent π → String)
  matched : ∀ r ∈ table.rows, r.contentId.isSome = true → r.contentType.isSome = true

/-- A row of a join: a release, unless a right join has none, and a row of each joined table or NULLs. -/
structure Joined (π τ : Type) where
  base : Option (TorrentContent π)
  joined : String → Option τ

inductive JoinType
  | inner
  | left
  | right

/-- `query.TableJoin` with the rows of its table. -/
structure Join (π τ : Type) where
  table : String
  type : JoinType
  atMostOne : Bool
  rows : List τ
  on : Joined π τ → τ → Bool
  /-- What `AtMostOne` promises: the ON predicate matches a unique key. -/
  promise : atMostOne = true → ∀ row, (rows.filter (on row)).length ≤ 1

namespace Join

variable {π τ : Type} (J : Join π τ)

/-- A row together with what it is joined to. -/
def extend (row : Joined π τ) (r : Option τ) : Joined π τ := { row with joined := Function.update row.joined J.table r }
def matched (row : Joined π τ) : List (Joined π τ) := (J.rows.filter (J.on row)).map fun r => J.extend row (some r)

def apply (rows : List (Joined π τ)) : List (Joined π τ) :=
  match J.type with
  | .inner => rows.flatMap J.matched
  | .left => rows.flatMap fun row => if (J.matched row).isEmpty then [J.extend row none] else J.matched row
  | .right => rows.flatMap J.matched ++
      (J.rows.filter fun r => rows.all fun row => !J.on row r).map fun r => J.extend ⟨none, fun _ => none⟩ (some r)

end Join

/-- A grouped search: `where_` is its condition, `value` evaluates the expression of an order column. -/
structure GroupedQuery (π τ ω : Type) where
  builder : OptionBuilder
  limit : Option Nat
  nextPage : Bool
  offset : Nat
  groupBy : List Column
  joins : List (Join π τ)
  where_ : Joined π τ → Bool
  value : Column → Joined π τ → Option ω
  /-- Joins of the rendered statement that no `TableJoin` declares. -/
  undeclaredJoins : Nat
  inTransaction : Bool

/-- A row of `SELECT torrent_contents.*, … AS _order_0, …`. -/
structure Projected (π ω : Type) where
  base : TorrentContent π
  order : List (Option ω)
  deriving DecidableEq

/-- The columns that releases are grouped by. -/
structure GroupKey where
  contentType : Option String
  contentSource : Option String
  contentId : Option String
  deriving DecidableEq

def Projected.key {π ω : Type} (r : Projected π ω) : GroupKey :=
  ⟨r.base.contentType, r.base.contentSource, r.base.contentId⟩

def Projected.id {π ω : Type} (r : Projected π ω) : String := r.base.id

namespace GroupedQuery

variable {π τ ω : Type} (q : GroupedQuery π τ ω)

def from_ (t : TorrentContents π) : List (Joined π τ) :=
  q.joins.foldl (fun rows J => J.apply rows) (t.table.rows.map fun r => ⟨some r, fun _ => none⟩)

/-- The projection of a joined row that the WHERE clause, with `content_id IS NOT NULL`, lets pass. -/
def project (row : Joined π τ) : Option (Projected π ω) :=
  match row.base with
  | none => none
  | some r =>
    if r.contentId.isSome && q.where_ row then some ⟨r, q.builder.orderBy.map fun ob => q.value ob.column row⟩
    else none

def eligible (t : TorrentContents π) : List (Projected π ω) := (q.from_ t).filterMap q.project

/-! ## The two queries -/

def orderFrom (cmpValue : ω → ω → Ordering) (i : Nat) : List OrderByColumn → Projected π ω → Projected π ω → Ordering
  | [] => fun _ _ => .eq
  | ob :: rest =>
    compareLex (directed (comap (nullsLast cmpValue) fun r => r.order.getD i none) ob.desc)
      (orderFrom cmpValue (i + 1) rest)

def userOrder (cmpValue : ω → ω → Ordering) : Projected π ω → Projected π ω → Ordering :=
  orderFrom cmpValue 0 q.builder.orderBy

/-- `COALESCE(seeders, -1) DESC, info_hash`. -/
def winnerOrder : Projected π ω → Projected π ω → Ordering :=
  compareLex (directed (comap compare fun r => r.base.seeders.getD (-1)) true) (comap compare fun r => r.base.infoHash)

/-- `content_type, content_source, content_id` under the collation of the database. -/
def keyOrder (collate : String → String → Ordering) : GroupKey → GroupKey → Ordering :=
  compareLex (comap (nullsLast collate) GroupKey.contentType)
    (compareLex (comap (nullsLast collate) GroupKey.contentSource) (comap (nullsLast collate) GroupKey.contentId))

/-- How many rows a full page has; `nextPage` asks for one more than the limit. -/
def wanted (limit : Nat) : Nat := limit + q.nextPage.toNat

/-- The LIMIT and OFFSET of `applyPost`. -/
def paginate (rows : List (Projected π ω)) : List (Projected π ω) :=
  match q.limit with
  | none => rows.drop q.offset
  | some limit => page q.offset (q.wanted limit) rows

section queries

variable (collate : String → String → Ordering) (cmpValue : ω → ω → Ordering) (t : TorrentContents π)

/-- The query of `doItemsGrouped`: one row per content, the user's order, the page. -/
def wholePage : List (Projected π ω) :=
  q.paginate (orderBy (q.userOrder cmpValue) (distinctOn Projected.key
      (orderBy (groupOrder Projected.key (keyOrder collate) winnerOrder) (q.eligible t))))

def candidates (size : Nat) : List (Projected π ω) := (orderBy (q.userOrder cmpValue) (q.eligible t)).take size

/-- SQL equality holds between equal values that are not NULL. -/
def sqlEq {α : Type} [DecidableEq α] : Option α → Option α → Bool
  | some a, some b => decide (a = b)
  | _, _ => false

def inBranch (sourceNull : Bool) (k : GroupKey) (winner : Projected π ω) : Bool :=
  sqlEq winner.base.contentType k.contentType && sqlEq winner.base.contentId k.contentId &&
    if sourceNull then k.contentSource.isNone && winner.base.contentSource.isNone
    else k.contentSource.isSome && sqlEq winner.base.contentSource k.contentSource

def branch (rows : List (Projected π ω)) (k : GroupKey) (sourceNull : Bool) : List String :=
  ((orderBy winnerOrder (rows.filter (inBranch sourceNull k))).take 1).map Projected.id

/-- `representative`: the branches under `UNION ALL`. -/
def representative (rows : List (Projected π ω)) (k : GroupKey) : List String := [false, true].flatMap (branch rows k)

def winners (rows found : List (Projected π ω)) : List String :=
  (found.map Projected.key).dedup.flatMap (representative rows)

/-- `selected`: the candidates joined to the winners by id. -/
def selected (rows found : List (Projected π ω)) : List (Projected π ω) :=
  found.flatMap fun candidate => ((winners rows found).filter fun id => id = candidate.id).map fun _ => candidate

def prefixPage (size : Nat) : List (Projected π ω) :=
  q.paginate (orderBy (q.userOrder cmpValue) (selected (q.eligible t) (q.candidates cmpValue t size)))

end queries

/-- The key list that a grouped search has to be grouped by. -/
def keySQL : String :=
  ", ".intercalate (["content_type", "content_source", "content_id"].map fun key => "torrent_contents." ++ key)

def prefixApplies : Bool :=
  match q.builder.grouping, q.limit with
  | some spec, some limit =>
    spec.candidatePrefix && decide (q.builder.tableName = "torrent_contents") &&
    decide (limit ≠ 0) && decide (limit ≤ 1000) && decide (q.offset ≤ 10000) &&
    decide (q.builder.orderBy ≠ []) && decide (q.groupBy = []) &&
    decide (spec.distinctOnSQL = keySQL) &&
    decide (spec.innerOrderSQL = keySQL ++
      ", COALESCE(torrent_contents.seeders, -1) DESC, torrent_contents.info_hash") &&
    (q.joins.all fun J => J.atMostOne && ["torrents", "content", "metadata_sources"].contains J.table) &&
    !q.inTransaction && decide (q.undeclaredJoins = 0)
  | _, _ => false

def firstPrefix : Nat :=
  match q.builder.orderBy.head? with
  | some ob =>
    if ob.column.table = "torrents" ∧ ob.column.name = "name" then if q.offset > 0 then 8192 else 4096
    else 512
  | none => 512

/-- `for ; prefix <= 32768; prefix *= 2`; seven doublings always lead past the bound. -/
def prefixSizes : List Nat :=
  ((List.range 7).map fun n => q.firstPrefix * 2 ^ n).takeWhile fun size => decide (size ≤ 32768)

/-- How the search can end from outside: an error of the query with a given prefix, and one of the context after it.
-/
structure Outside where
  queryErr : Nat → Option String
  ctxErr : Nat → Option String

/-- The loop over prefixes; `none` says that no page was complete. -/
def tryPrefixes (cmpValue : ω → ω → Ordering) (t : TorrentContents π) (outside : Outside) (limit : Nat) :
    List Nat → Except String (Option (List (Projected π ω)))
  | [] => .ok none
  | size :: sizes =>
    match outside.queryErr size with
    | some err => .error ("grouped candidate prefix: " ++ err)
    | none =>
      let items := q.prefixPage cmpValue t size
      if q.wanted limit ≤ items.length then .ok (some items)
      else
        match outside.ctxErr size with
        | some err => .error err
        | none => tryPrefixes cmpValue t outside limit sizes

/-- `groupedPrefixItems`: a complete page, or `none`. -/
def groupedPrefixItems (cmpValue : ω → ω → Ordering) (t : TorrentContents π) (outside : Outside) :
    Except String (Option (List (Projected π ω))) :=
  match q.limit with
  | some limit => if q.prefixApplies then q.tryPrefixes cmpValue t outside limit q.prefixSizes else .ok none
  | none => .ok none

def hasNextPage (nItems : Nat) : Bool :=
  q.nextPage && match q.limit with
    | none => false
    | some limit => decide (limit < nItems)

/-- The end of `doItemsGrouped`: the items, without the one that only shows that there are more. -/
def finish (items : List (Projected π ω)) : List (Projected π ω) × Bool :=
  if q.hasNextPage items.length then (items.dropLast, true) else (items, false)

/-- `doItemsGrouped`, up to the callbacks. -/
def doItemsGrouped (collate : String → String → Ordering) (cmpValue : ω → ω → Ordering)
    (t : TorrentContents π) (outside : Outside) : Except String (List (Projected π ω) × Bool) :=
  match q.groupedPrefixItems cmpValue t outside with
  | .error err => .error err
  | .ok (some items) => .ok (q.finish items)
  | .ok none => .ok (q.finish (q.wholePage collate cmpValue t))

end GroupedQuery

/-! ## What joins preserve -/

namespace Join

variable {π τ : Type} {J : Join π τ}

theorem filterMap_base_flatMap_sublist {f : Joined π τ → List (Joined π τ)}
    (h : ∀ row, f row = [] ∨ ∃ row', f row = [row'] ∧ row'.base = row.base) (rows : List (Joined π τ)) :
    ((rows.flatMap f).filterMap Joined.base).Sublist (rows.filterMap Joined.base) := by
  induction rows with
  | nil => exact List.Sublist.slnil
  | cons row rows ih =>
    rw [flatMap_cons, filterMap_append]
    have hrest : (rows.filterMap Joined.base).Sublist ((row :: rows).filterMap Joined.base) :=
      (sublist_cons_self row rows).filterMap _
    rcases h row with hnone | ⟨row', hone, hbase⟩
    · rw [hnone, filterMap_nil, nil_append]
      exact ih.trans hrest
    · rw [hone]
      cases hb : row.base with
      | none => simpa [hbase, hb] using ih
      | some r => simpa [hbase, hb] using ih

theorem matched_cases (hone : J.atMostOne = true) (row : Joined π τ) :
    J.matched row = [] ∨ ∃ row', J.matched row = [row'] ∧ row'.base = row.base := by
  have hlen := J.promise hone row
  rw [matched]
  match hrows : J.rows.filter (J.on row), hlen with
  | [], _ => exact .inl rfl
  | [r], _ => exact .inr ⟨_, rfl, rfl⟩

theorem filterMap_base_apply_sublist (hone : J.atMostOne = true) (rows : List (Joined π τ)) :
    ((J.apply rows).filterMap Joined.base).Sublist (rows.filterMap Joined.base) := by
  rw [apply]
  split
  · exact filterMap_base_flatMap_sublist (matched_cases hone) rows
  · refine filterMap_base_flatMap_sublist (fun row => ?_) rows
    rcases matched_cases hone row with hnone | ⟨row', hrow, hbase⟩
    · simp only [hnone, isEmpty_nil, if_true]
      exact .inr ⟨_, rfl, rfl⟩
    · grind
  · -- the rows that a right join adds have no release
    have hnull : ((J.rows.filter fun r => rows.all fun row => !J.on row r).map fun r =>
      J.extend ⟨none, fun _ => none⟩ (some r)).filterMap Joined.base = [] := by
      rw [filterMap_eq_nil_iff]
      intro row hrow
      obtain ⟨r, _, rfl⟩ := mem_map.mp hrow
      rfl
    rw [filterMap_append, hnull, append_nil]
    exact filterMap_base_flatMap_sublist (matched_cases hone) rows

end Join

namespace GroupedQuery

variable {π τ ω : Type} {q : GroupedQuery π τ ω}

theorem filterMap_base_from_sublist (hjoins : ∀ J ∈ q.joins, J.atMostOne = true) (t : TorrentContents π) :
    ((q.from_ t).filterMap Joined.base).Sublist t.table.rows := by
  have hstep : ∀ (joins : List (Join π τ)) (rows : List (Joined π τ)), (∀ J ∈ joins, J.atMostOne = true) →
      ((joins.foldl (fun rows J => J.apply rows) rows).filterMap Joined.base).Sublist (rows.filterMap Joined.base) := by
    intro joins
    induction joins with
    | nil => exact fun rows _ => List.Sublist.refl _
    | cons J joins ih =>
      intro rows hall
      exact (ih _ fun J hJ => hall J (mem_cons_of_mem _ hJ)).trans
        (Join.filterMap_base_apply_sublist (hall J mem_cons_self) rows)
  have hbase : (t.table.rows.map fun r => (⟨some r, fun _ => none⟩ : Joined π τ)).filterMap Joined.base =
      t.table.rows := by
    rw [filterMap_map]
    exact filterMap_some
  have hjoined := hstep q.joins (t.table.rows.map fun r => ⟨some r, fun _ => none⟩) hjoins
  rw [hbase] at hjoined
  exact hjoined

theorem base_of_project {row : Joined π τ} {r : Projected π ω} (h : q.project row = some r) :
    row.base = some r.base ∧ r.base.contentId.isSome = true := by grind [project]

theorem map_base_eligible_sublist (hjoins : ∀ J ∈ q.joins, J.atMostOne = true) (t : TorrentContents π) :
    ((q.eligible t).map Projected.base).Sublist t.table.rows := by
  have hproject : ∀ rows : List (Joined π τ),
      ((rows.filterMap q.project).map Projected.base).Sublist (rows.filterMap Joined.base) := by
    intro rows
    induction rows with
    | nil => exact List.Sublist.slnil
    | cons row rows ih =>
      rw [filterMap_cons]
      cases h : q.project row with
      | none => grind
      | some r => grind [base_of_project]
  exact (hproject _).trans (filterMap_base_from_sublist hjoins t)

/-- What is used of the rows: no id occurs twice, and no content type or id is NULL. -/
structure Sound (rows : List (Projected π ω)) : Prop where
  nodup : (rows.map Projected.id).Nodup
  contentType : ∀ r ∈ rows, r.base.contentType.isSome = true
  contentId : ∀ r ∈ rows, r.base.contentId.isSome = true

theorem sound_eligible (hjoins : ∀ J ∈ q.joins, J.atMostOne = true) (t : TorrentContents π) : Sound (q.eligible t) := by
  have hsub := map_base_eligible_sublist hjoins t
  have hid : ∀ r ∈ q.eligible t, r.base.contentId.isSome = true := by
    intro r hr
    obtain ⟨row, _, hrow⟩ := mem_filterMap.mp hr
    exact (base_of_project hrow).2
  refine ⟨?_, ?_, hid⟩
  · have hnodup := (hsub.map TorrentContent.id).nodup t.table.nodup
    rw [map_map] at hnodup
    exact hnodup
  · intro r hr
    exact t.matched _ (hsub.subset (mem_map_of_mem hr)) (hid r hr)

/-! ## The selected rows -/

namespace Sound

variable {rows : List (Projected π ω)}

theorem eq_of_id (h : Sound rows) {r s : Projected π ω} (hr : r ∈ rows) (hs : s ∈ rows)
    (hid : r.id = s.id) : r = s := inj_on_of_nodup_map h.nodup hr hs hid

theorem eq_of_winnerOrder (h : Sound rows) {r s : Projected π ω} (hr : r ∈ rows) (hs : s ∈ rows)
    (hkey : r.key = s.key) (hcmp : winnerOrder r s = .eq) : r = s := by
  have hhash : r.base.infoHash = s.base.infoHash := LawfulEqCmp.eq_of_compare (Ordering.then_eq_eq.mp hcmp).2
  obtain ⟨htype, hsource, hid⟩ := GroupKey.mk.inj hkey
  refine h.eq_of_id hr hs ?_
  grind [Projected.id, TorrentContent.id]

theorem strict_group (h : Sound rows) (k : GroupKey) :
    Strict winnerOrder (rows.filter fun r => decide (r.key = k)) := by
  intro r hr s hs hcmp
  obtain ⟨hr, hrk⟩ := mem_filter.mp hr
  obtain ⟨hs, hsk⟩ := mem_filter.mp hs
  exact h.eq_of_winnerOrder hr hs ((of_decide_eq_true hrk).trans (of_decide_eq_true hsk).symm) hcmp

end Sound

theorem sqlEq_some_iff {α : Type} [DecidableEq α] {a b : Option α} (hb : b.isSome = true) :
    sqlEq a b = decide (a = b) := by
  obtain ⟨b, rfl⟩ := Option.isSome_iff_exists.mp hb
  cases a with
  | none => rfl
  | some a => simp [sqlEq]

variable {k : GroupKey}

theorem inBranch_eq (htype : k.contentType.isSome = true) (hid : k.contentId.isSome = true) (sourceNull : Bool)
    (r : Projected π ω) :
    inBranch sourceNull k r = (decide (r.key = k) && (sourceNull == k.contentSource.isNone)) := by
  have hkey : decide (r.key = k) = (decide (r.base.contentType = k.contentType) &&
      decide (r.base.contentId = k.contentId) && decide (r.base.contentSource = k.contentSource)) := by
    rw [Projected.key, Bool.eq_iff_iff]
    cases k
    grind
  rw [inBranch, sqlEq_some_iff htype, sqlEq_some_iff hid, hkey]
  cases sourceNull with
  | true =>
    cases k.contentSource with
    | none => cases r.base.contentSource <;> simp
    | some _ => simp
  | false =>
    cases hsource : k.contentSource with
    | none => simp
    | some _ => simp [sqlEq_some_iff]

theorem representative_eq (rows : List (Projected π ω)) (htype : k.contentType.isSome = true)
    (hid : k.contentId.isSome = true) :
    representative rows k =
      ((orderBy winnerOrder (rows.filter fun r => decide (r.key = k))).take 1).map Projected.id := by
  have hbranch : ∀ sourceNull, branch rows k sourceNull =
      if (sourceNull == k.contentSource.isNone) = true then
        ((orderBy winnerOrder (rows.filter fun r => decide (r.key = k))).take 1).map Projected.id
      else [] := by
    intro sourceNull
    have hfilter : rows.filter (inBranch sourceNull k) =
        rows.filter fun r => decide (r.key = k) && (sourceNull == k.contentSource.isNone) :=
      filter_congr fun r _ => inBranch_eq htype hid sourceNull r
    rw [branch, hfilter]
    split_ifs with hcond
    · simp only [hcond, Bool.and_true]
    · rw [Bool.not_eq_true] at hcond
      simp [hcond, orderBy]
  grind [representative]

instance : TransCmp (winnerOrder : Projected π ω → Projected π ω → Ordering) :=
  inferInstanceAs (TransCmp (compareLex _ _))

variable {rows : List (Projected π ω)}

theorem mem_representative_iff (h : Sound rows) (htype : k.contentType.isSome = true)
    (hid : k.contentId.isSome = true) {id : String} :
    id ∈ representative rows k ↔ ∃ r ∈ rows, r.key = k ∧ r.id = id ∧ Best Projected.key winnerOrder rows r := by
  rw [representative_eq rows htype hid, mem_map]
  constructor
  · rintro ⟨r, hr, rfl⟩
    obtain ⟨hmem, hbest⟩ := (mem_take_one_orderBy (h.strict_group k)).mp hr
    obtain ⟨hrow, hkey⟩ := mem_filter.mp hmem
    refine ⟨r, hrow, of_decide_eq_true hkey, rfl, ?_⟩
    intro s hs hsr
    grind
  · rintro ⟨r, hrow, hkey, rfl, hbest⟩
    refine ⟨r, (mem_take_one_orderBy (h.strict_group k)).mpr ⟨?_, ?_⟩, rfl⟩
    · exact mem_filter.mpr ⟨hrow, decide_eq_true hkey⟩
    · intro s hs
      obtain ⟨hs, hsk⟩ := mem_filter.mp hs
      exact hbest s hs ((of_decide_eq_true hsk).trans hkey.symm)

variable {found : List (Projected π ω)}

theorem mem_winners_iff (h : Sound rows) (hfound : found ⊆ rows) {r : Projected π ω} (hr : r ∈ found) :
    r.id ∈ winners rows found ↔ Best Projected.key winnerOrder rows r := by
  rw [winners, mem_flatMap]
  constructor
  · rintro ⟨k, hk, hid⟩
    obtain ⟨s, hs, rfl⟩ := mem_map.mp (mem_dedup.mp hk)
    obtain ⟨r', hr', _, hid', hbest⟩ :=
      (mem_representative_iff h (h.contentType s (hfound hs)) (h.contentId s (hfound hs))).mp hid
    rwa [← h.eq_of_id hr' (hfound hr) hid']
  · intro hbest
    refine ⟨r.key, mem_dedup.mpr (mem_map_of_mem hr), ?_⟩
    exact (mem_representative_iff h (h.contentType r (hfound hr)) (h.contentId r (hfound hr))).mpr
      ⟨r, hfound hr, rfl, rfl, hbest⟩

theorem nodup_winners (h : Sound rows) (hfound : found ⊆ rows) :
    (winners rows found).Nodup := by
  have hparts : ∀ k ∈ (found.map Projected.key).dedup, k.contentType.isSome = true ∧ k.contentId.isSome = true := by
    intro k hk
    obtain ⟨s, hs, rfl⟩ := mem_map.mp (mem_dedup.mp hk)
    exact ⟨h.contentType s (hfound hs), h.contentId s (hfound hs)⟩
  rw [winners, nodup_flatMap]
  constructor
  · intro k hk
    rw [representative_eq rows (hparts k hk).1 (hparts k hk).2]
    match orderBy winnerOrder (rows.filter fun r => decide (r.key = k)) with
    | [] => exact nodup_nil
    | _ :: _ => exact nodup_singleton _
  · refine (nodup_dedup _).imp_of_mem ?_
    intro k l hk hl hne id hidk hidl
    obtain ⟨r, hr, hrk, hid, _⟩ := (mem_representative_iff h (hparts k hk).1 (hparts k hk).2).mp hidk
    obtain ⟨s, hs, hsl, hid', _⟩ := (mem_representative_iff h (hparts l hl).1 (hparts l hl).2).mp hidl
    have heq := h.eq_of_id hr hs (hid.trans hid'.symm)
    exact hne (hrk.symm.trans (heq ▸ hsl))

theorem selected_eq (h : Sound rows) (hfound : found ⊆ rows) :
    selected rows found = found.filter fun r => decide (Best Projected.key winnerOrder rows r) := by
  have hrow : ∀ r ∈ found, (((winners rows found).filter fun id => id = r.id).map fun _ => r) =
        if Best Projected.key winnerOrder rows r then [r] else [] := by
    intro r hr
    have hcount : ((winners rows found).filter fun id => id = r.id) =
        List.replicate ((winners rows found).count r.id) r.id := filter_beq r.id
    grind [nodup_winners, mem_winners_iff]
  have hfilter : ∀ l : List (Projected π ω),
      (l.flatMap fun r => if Best Projected.key winnerOrder rows r then [r] else []) =
        l.filter fun r => decide (Best Projected.key winnerOrder rows r) := by
    intro l
    induction l with
    | nil => rfl
    | cons r l ih => grind
  rw [selected, flatMap_congr hrow, hfilter]

/-! ## The pages -/

instance orderFrom_trans (cmpValue : ω → ω → Ordering) [TransCmp cmpValue] (i : Nat)
    (columns : List OrderByColumn) :
    TransCmp (orderFrom cmpValue i columns : Projected π ω → Projected π ω → Ordering) := by
  induction columns generalizing i with
  | nil => exact { eq_swap := rfl, isLE_trans := fun _ _ => rfl }
  | cons ob rest ih =>
    have := ih (i + 1)
    exact inferInstanceAs (TransCmp (compareLex _ _))

instance (cmpValue : ω → ω → Ordering) [TransCmp cmpValue] : TransCmp (q.userOrder cmpValue) :=
  orderFrom_trans cmpValue 0 q.builder.orderBy

instance keyOrder_trans (collate : String → String → Ordering) [TransCmp collate] :
    TransCmp (keyOrder collate) :=
  inferInstanceAs (TransCmp (compareLex _ (compareLex _ _)))

instance keyOrder_lawful (collate : String → String → Ordering) [TransCmp collate] [LawfulEqCmp collate] :
    LawfulEqCmp (keyOrder collate) where
  eq_of_compare := by
    rintro ⟨t, s, i⟩ ⟨t', s', i'⟩ h
    obtain ⟨ht, h⟩ := Ordering.then_eq_eq.mp h
    obtain ⟨hs, hi⟩ := Ordering.then_eq_eq.mp h
    rw [GroupKey.mk.injEq]
    exact ⟨LawfulEqCmp.eq_of_compare ht, LawfulEqCmp.eq_of_compare hs, LawfulEqCmp.eq_of_compare hi⟩

section pages

variable {collate : String → String → Ordering} [TransCmp collate] [LawfulEqCmp collate]
  {cmpValue : ω → ω → Ordering} [TransCmp cmpValue] {t : TorrentContents π}

def bests (q : GroupedQuery π τ ω) (cmpValue : ω → ω → Ordering) (t : TorrentContents π) : List (Projected π ω) :=
  (orderBy (q.userOrder cmpValue) (q.eligible t)).filter fun r =>
    decide (Best Projected.key winnerOrder (q.eligible t) r)

theorem wholePage_eq (h : Sound (q.eligible t)) (hstrict : Strict (q.userOrder cmpValue) (q.eligible t)) :
    q.wholePage collate cmpValue t = q.paginate (q.bests cmpValue t) := by
  have hgroup : Strict (groupOrder Projected.key (keyOrder collate) winnerOrder) (q.eligible t) := by
    intro r hr s hs hcmp
    obtain ⟨hkey, hwin⟩ := Ordering.then_eq_eq.mp hcmp
    exact h.eq_of_winnerOrder hr hs (LawfulEqCmp.eq_of_compare hkey) hwin
  have hperm := distinctOn_orderBy_perm (List.Nodup.of_map _ h.nodup) hgroup
  rw [wholePage, orderBy_congr (hstrict.subset fun r hr => (mem_filter.mp (hperm.mem_iff.mp hr)).1)
    hperm, orderBy_filter hstrict, bests]

theorem prefixPage_eq (h : Sound (q.eligible t)) (hstrict : Strict (q.userOrder cmpValue) (q.eligible t)) (size : Nat) :
    ∃ rows, rows <+: q.bests cmpValue t ∧ q.prefixPage cmpValue t size = q.paginate rows := by
  have hfound : q.candidates cmpValue t size ⊆ q.eligible t := fun r hr => mem_orderBy.mp (mem_of_mem_take hr)
  refine ⟨(q.candidates cmpValue t size).filter fun r =>
    decide (Best Projected.key winnerOrder (q.eligible t) r), ?_, ?_⟩
  · exact (List.take_prefix size _).filter _
  · rw [prefixPage, selected_eq h hfound]
    congr 1
    refine orderBy_eq_of_perm (hstrict.subset ?_) (List.Perm.refl _) ?_
    · exact fun r hr => hfound (mem_filter.mp hr).1
    · exact ((pairwise_orderBy _).sublist (take_sublist size _)).filter _

variable {outside : Outside} {items : List (Projected π ω)}

theorem tryPrefixes_eq_wholePage (h : Sound (q.eligible t)) (hstrict : Strict (q.userOrder cmpValue) (q.eligible t))
    {limit : Nat} (hlimit : q.limit = some limit) {sizes : List Nat}
    (hitems : q.tryPrefixes cmpValue t outside limit sizes = .ok (some items)) :
    items = q.wholePage collate cmpValue t := by
  induction sizes with
  | nil => exact nomatch hitems
  | cons size sizes ih =>
    unfold tryPrefixes at hitems
    split at hitems
    · exact nomatch hitems
    · dsimp only at hitems
      split_ifs at hitems with hfull
      · obtain rfl := Option.some.inj (Except.ok.inj hitems)
        obtain ⟨rows, hbegin, hpage⟩ := prefixPage_eq h hstrict size
        grind [wholePage_eq, paginate, page_eq_of_prefix]
      · grind

omit [TransCmp collate] [LawfulEqCmp collate] [TransCmp cmpValue] in
theorem atMostOne_of_prefixApplies (h : q.prefixApplies = true) : ∀ J ∈ q.joins, J.atMostOne = true := by
  unfold prefixApplies at h
  split at h
  · simp only [Bool.and_eq_true, all_eq_true] at h
    intro J hJ
    exact (h.1.1.2 J hJ).1
  · cases h

omit [TransCmp collate] [LawfulEqCmp collate] [TransCmp cmpValue] in
theorem tryPrefixes_of_groupedPrefixItems (h : q.groupedPrefixItems cmpValue t outside = .ok (some items)) :
    ∃ limit, q.limit = some limit ∧ q.prefixApplies = true ∧
      q.tryPrefixes cmpValue t outside limit q.prefixSizes = .ok (some items) := by
  unfold groupedPrefixItems at h
  split at h
  next limit hlimit =>
    split_ifs at h with happlies
    · exact ⟨limit, hlimit, happlies, h⟩
    · cases h
  next => cases h

/-- **The prefix search is exact**: a complete page is that of the whole query, in the same order. -/
theorem groupedPrefixItems_eq_wholePage (q : GroupedQuery π τ ω) (collate : String → String → Ordering)
    [TransCmp collate] [LawfulEqCmp collate] (cmpValue : ω → ω → Ordering) [TransCmp cmpValue]
    (t : TorrentContents π) (outside : Outside)
    (hstrict : Strict (q.userOrder cmpValue) (q.eligible t)) (items : List (Projected π ω))
    (hitems : q.groupedPrefixItems cmpValue t outside = .ok (some items)) :
    items = q.wholePage collate cmpValue t := by
  obtain ⟨limit, hlimit, happlies, hprefixes⟩ := tryPrefixes_of_groupedPrefixItems hitems
  have hsound := sound_eligible (atMostOne_of_prefixApplies happlies) t
  exact tryPrefixes_eq_wholePage hsound hstrict hlimit hprefixes

/-- The join with `torrents` by its primary key. -/
def torrentsByHash : Join Int GoString where
  table := "torrents"
  type := .inner
  atMostOne := true
  rows := [[1], [2]]
  on row hash := decide (row.base.map TorrentContent.infoHash = some hash)
  promise := by
    intro _ row
    cases row.base with
    | none => decide
    | some base =>
      by_cases hone : base.infoHash = [1]
      · simp [hone]
      · by_cases htwo : base.infoHash = [2] <;> simp [hone, htwo]

def newestFilms : GroupedQuery Int GoString Int where
  builder :=
    { tableName := "torrent_contents"
      grouping := some groupByContent
      orderBy := TorrentContentOrderBy.clauses .descending .publishedAt }
  limit := some 1
  nextPage := false
  offset := 0
  groupBy := []
  joins := [torrentsByHash]
  where_ row := decide (row.base.bind TorrentContent.contentType = some "movie")
  value c row := if c.name = "published_at" then row.base.map TorrentContent.other else none
  undeclaredJoins := 0
  inTransaction := false

def twoReleases : TorrentContents Int where
  table :=
    { rows := [⟨[1], some "movie", some "tmdb", some "603", some 5, 10⟩,
        ⟨[2], some "movie", some "tmdb", some "603", none, 20⟩]
      nodup := by decide +kernel }
  matched := by decide

theorem older_release_wins : newestFilms.groupedPrefixItems compare twoReleases ⟨fun _ => none, fun _ => none⟩ =
        .ok (some [⟨⟨[1], some "movie", some "tmdb", some "603", some 5, 10⟩, [some 10, none]⟩]) ∧
      [⟨⟨[1], some "movie", some "tmdb", some "603", some 5, 10⟩, [some 10, none]⟩] =
        newestFilms.wholePage compare compare twoReleases := by
  have hitems : newestFilms.groupedPrefixItems compare twoReleases ⟨fun _ => none, fun _ => none⟩ =
      .ok (some [⟨⟨[1], some "movie", some "tmdb", some "603", some 5, 10⟩, [some 10, none]⟩]) := by
    decide +kernel
  have hstrict : Strict (newestFilms.userOrder compare) (newestFilms.eligible twoReleases) := by
    unfold Strict
    decide +kernel
  exact ⟨hitems, groupedPrefixItems_eq_wholePage newestFilms compare compare twoReleases _ hstrict _ hitems⟩

/-- **A page of either kind** is the page of the whole query. -/
theorem doItemsGrouped_eq (hstrict : Strict (q.userOrder cmpValue) (q.eligible t))
    {result : List (Projected π ω) × Bool} (h : q.doItemsGrouped collate cmpValue t outside = .ok result) :
    result = q.finish (q.wholePage collate cmpValue t) := by
  unfold doItemsGrouped at h
  split at h
  next => exact nomatch h
  next hitems =>
    obtain ⟨limit, hlimit, happlies, hprefixes⟩ := tryPrefixes_of_groupedPrefixItems hitems
    have hsound := sound_eligible (atMostOne_of_prefixApplies happlies) t
    rw [← Except.ok.inj h]
    exact congrArg q.finish (tryPrefixes_eq_wholePage hsound hstrict hlimit hprefixes)
  next => exact (Except.ok.inj h).symm

theorem older_release_returned : newestFilms.finish (newestFilms.wholePage compare compare twoReleases) =
    ([⟨⟨[1], some "movie", some "tmdb", some "603", some 5, 10⟩, [some 10, none]⟩], false) := by
  refine (doItemsGrouped_eq (by unfold Strict; decide +kernel) (show newestFilms.doItemsGrouped compare compare
    twoReleases ⟨fun _ => none, fun _ => none⟩ = .ok _ by decide +kernel)).symm

end pages

end GroupedQuery

end BitAgent.Database
