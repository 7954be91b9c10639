/-
# Lib.Table — database tables with a primary key

A `Table key` is a list of rows no two of which share a key. The statements of a program become `update p f` (an `f`
that leaves the key alone), `insertNew x` (`ON CONFLICT DO NOTHING`), `upsert x` (`DO UPDATE` of the whole row) and
`delete p`, each with one lemma about lookups by key. A `Serial` is a table whose key is drawn from a sequence: a new
row has a higher key than every row before it.
-/
import Mathlib.Data.List.Nodup
import Mathlib.Data.List.Perm.Subperm

namespace BitAgent.Lib

open List

/-- A table with rows `ρ` and the primary key `key`. -/
structure Table {ρ κ : Type} (key : ρ → κ) where
  rows : List ρ
  nodup : (rows.map key).Nodup

namespace Table

variable {ρ κ : Type} [DecidableEq κ] {key : ρ → κ}

def empty : Table key := ⟨[], nodup_nil⟩
def get? (t : Table key) (k : κ) : Option ρ := t.rows.find? fun x => key x = k

/-- `UPDATE … SET … WHERE …`. -/
def update (t : Table key) (p : ρ → Bool) (f : ρ → ρ)
    (hf : ∀ x, key (f x) = key x := by intro _; rfl) : Table key where
  rows := t.rows.map fun x => if p x then f x else x
  nodup := by
    have hkeys : (fun x => key (if p x then f x else x)) = key := by
      funext x
      split_ifs
      · exact hf x
      · rfl
    rw [map_map, show key ∘ (fun x => if p x then f x else x) = key from hkeys]
    exact t.nodup

/-- `INSERT … ON CONFLICT DO NOTHING`. -/
def insertNew (t : Table key) (x : ρ) : Table key :=
  if h : key x ∈ t.rows.map key then t
  else
    { rows := t.rows ++ [x]
      nodup := by
        rw [map_append, map_singleton]
        exact nodup_append.mpr ⟨t.nodup, nodup_singleton _, by grind⟩ }

/-- `DELETE … WHERE …`. -/
def delete (t : Table key) (p : ρ → Bool) : Table key where
  rows := t.rows.filter fun x => !p x
  nodup := (filter_sublist.map key).nodup t.nodup

/-- `INSERT … ON CONFLICT DO UPDATE`, replacing the whole row. -/
def upsert (t : Table key) (x : ρ) : Table key := (t.delete fun y => key y = key x).insertNew x

/-! ## What a lookup finds -/

variable {t : Table key} {x : ρ} {k : κ}

theorem get?_key (h : t.get? k = some x) : key x = k := by simpa using find?_some h

theorem get?_mem (h : t.get? k = some x) : x ∈ t.rows := mem_of_find?_eq_some h

theorem get?_of_mem (h : x ∈ t.rows) : t.get? (key x) = some x := by
  obtain ⟨rows, hnodup⟩ := t
  induction rows with
  | nil => cases h
  | cons y rows ih => grind [get?]

theorem rows_nodup {σ ι : Type} {k : σ → ι} (t : Table k) : t.rows.Nodup := List.Nodup.of_map k t.nodup

theorem get?_eq_none_iff : t.get? k = none ↔ k ∉ t.rows.map key := by
  simp [get?, find?_eq_none]

@[simp] theorem get?_empty (k : κ) : (empty : Table key).get? k = none := rfl

@[simp] theorem get?_update (t : Table key) (p : ρ → Bool) (f : ρ → ρ) (hf : ∀ x, key (f x) = key x) (k : κ) :
    (t.update p f hf).get? k = (t.get? k).map fun x => if p x then f x else x := by
  unfold get? update
  rw [find?_map]
  congr 2
  grind

variable {p : ρ → Bool} {f : ρ → ρ}

theorem get?_update_iff (t : Table key) (hf : ∀ x, key (f x) = key x) (k : κ) {q : ρ → Prop} [DecidablePred q]
    (hq : ∀ x, key x = k → (p x = true ↔ q x)) :
    (t.update p f hf).get? k = (t.get? k).map fun x => if q x then f x else x := by
  rw [get?_update]
  cases hget : t.get? k with
  | none => rfl
  | some x => grind [get?_key]

theorem isSome_get?_update (t : Table key) (p : ρ → Bool) (f : ρ → ρ) (hf : ∀ x, key (f x) = key x)
    (k : κ) : ((t.update p f hf).get? k).isSome = (t.get? k).isSome := by
  rw [get?_update, Option.isSome_map]

omit [DecidableEq κ] in
theorem update_eq_self (t : Table key) (hf : ∀ x, key (f x) = key x) (h : ∀ x ∈ t.rows, p x = false) :
    t.update p f hf = t := by
  have hrows : t.rows.map (fun x => if p x then f x else x) = t.rows := by
    conv_rhs => rw [← map_id t.rows]
    grind [map_congr_left]
  cases t
  unfold update
  congr

omit [DecidableEq κ] in
theorem mem_update {hf : ∀ x, key (f x) = key x} (h : x ∈ (t.update p f hf).rows) :
    (∃ y ∈ t.rows, p y = true ∧ x = f y) ∨ (x ∈ t.rows ∧ p x = false) := by
  obtain ⟨y, hy, rfl⟩ := mem_map.mp h
  grind

theorem mem_insertNew {y : ρ} (h : x ∈ (t.insertNew y).rows) : x ∈ t.rows ∨ x = y := by grind [insertNew]

theorem rows_insertNew (hfree : key x ∉ t.rows.map key) :
    (t.insertNew x).rows = t.rows ++ [x] := by
  unfold insertNew
  rw [dif_neg hfree]

omit [DecidableEq κ] in
theorem mem_delete : x ∈ (t.delete p).rows ↔ x ∈ t.rows ∧ p x = false := by
  show x ∈ t.rows.filter _ ↔ _
  rw [mem_filter, Bool.not_eq_true']

theorem get?_insertNew (t : Table key) (x : ρ) (k : κ) :
    (t.insertNew x).get? k = (t.get? k).or (if key x = k then some x else none) := by
  unfold insertNew
  split_ifs with hmem hkey hkey
  · -- the key is taken, so the lookup was successful before
    cases hget : t.get? k with
    | some y => rfl
    | none => exact absurd (hkey ▸ hmem) (get?_eq_none_iff.mp hget)
  · simp
  · simp [get?, find?_append, hkey]
  · simp [get?, find?_append, hkey]

@[simp] theorem get?_delete (t : Table key) (p : ρ → Bool) (k : κ) :
    (t.delete p).get? k = (t.get? k).filter fun x => !p x := by
  cases hget : t.get? k with
  | none =>
    rw [Option.filter_none, get?_eq_none_iff]
    rw [get?_eq_none_iff] at hget
    exact fun hmem => hget ((filter_sublist.map key).subset hmem)
  | some x =>
    have hx := get?_mem hget
    have hkey := get?_key hget
    rw [Option.filter_some]
    split_ifs with hp
    · rw [← hkey]
      exact get?_of_mem (t := t.delete p) (mem_filter.mpr ⟨hx, hp⟩)
    · rw [get?_eq_none_iff]
      intro hmem
      obtain ⟨y, hy, hyk⟩ := mem_map.mp hmem
      obtain ⟨hyt, hyp⟩ := mem_filter.mp hy
      have hyx : some y = some x := by rw [← get?_of_mem hyt, hyk, hget]
      cases hyx
      exact hp hyp

theorem get?_upsert (t : Table key) (x : ρ) (k : κ) : (t.upsert x).get? k = if key x = k then some x else t.get? k := by
  unfold upsert
  rw [get?_insertNew, get?_delete]
  split_ifs with hkey
  · cases hget : t.get? k with
    | none => rfl
    | some y => grind [get?_key]
  · cases hget : t.get? k with
    | none => rfl
    | some y => grind [get?_key]

theorem get?_foldl_upsert {row : Option ρ → κ → ρ}
    (hrow : ∀ old k, (∀ x ∈ old, key x = k) → key (row old k) = k) {l : List κ} (hl : l.Nodup) (t : Table key)
    (k : κ) :
    (l.foldl (fun t k => t.upsert (row (t.get? k) k)) t).get? k =
      if k ∈ l then some (row (t.get? k) k) else t.get? k := by
  induction l generalizing t with
  | nil => rfl
  | cons k0 l ih =>
    obtain ⟨hnew, hrest⟩ := nodup_cons.mp hl
    have hkey := hrow (t.get? k0) k0 fun x hx => get?_key hx
    rw [foldl_cons, ih hrest, get?_upsert, hkey]
    by_cases hk : k0 = k
    · subst hk
      simp [hnew]
    · simp [hk, Ne.symm hk]

/-! ## Counting -/

/-- **Counting rule.** If every row counted in `u` has the key of one counted in `t`, or one of `extra`, then `u`
counts at most `extra.length` more. -/
theorem countP_le {u : Table key} {q : ρ → Bool} (extra : List κ)
    (h : ∀ {k x}, u.get? k = some x → q x = true → k ∈ extra ∨ ∃ y, t.get? k = some y ∧ p y = true) :
    u.rows.countP q ≤ t.rows.countP p + extra.length := by
  have hsub : (u.rows.filter q).map key ⊆ (t.rows.filter p).map key ++ extra := by
    grind [get?_of_mem, get?_key, get?_mem]
  -- the keys of the counted rows are distinct, so there are no more of them than on the right
  have hnodup : ((u.rows.filter q).map key).Nodup := (filter_sublist.map key).nodup u.nodup
  have hle := (List.Nodup.subperm hnodup hsub).length_le
  grind

theorem countP_lt {u : Table key} {q : ρ → Bool}
    (h : ∀ {k x}, u.get? k = some x → q x = true → ∃ y, t.get? k = some y ∧ p y = true) {y : ρ}
    (hy : t.get? k = some y) (hp : p y = true) (hlost : ∀ {x}, u.get? k = some x → q x = false) :
    u.rows.countP q < t.rows.countP p := by
  -- the row that is lost is not counted in `t` any more by `p'`, and no other row is lost
  let p' : ρ → Bool := fun x => p x && decide (key x ≠ k)
  have hle : u.rows.countP q ≤ t.rows.countP p' := by
    refine countP_le [] ?_
    grind [get?_key]
  refine Nat.lt_of_le_of_lt hle ?_
  have hkey := get?_key hy
  obtain ⟨l1, l2, hsplit⟩ := append_of_mem (get?_mem hy)
  have hmono : ∀ l : List ρ, l.countP p' ≤ l.countP p := by
    intro l
    refine countP_mono_left ?_
    intro x _ hx
    exact (Bool.and_eq_true _ _ ▸ hx).1
  grind

end Table

/-! ## Serial keys -/

/-- A table whose key comes from a sequence. -/
structure Serial {ρ : Type} (key : ρ → Nat) where
  table : Table key
  next : Nat
  positive : 0 < next
  below : ∀ x ∈ table.rows, key x < next

namespace Serial

variable {ρ : Type} {key : ρ → Nat}

def empty : Serial key := ⟨.empty, 1, Nat.one_pos, fun _ h => by cases h⟩
def get? (t : Serial key) (k : Nat) : Option ρ := t.table.get? k

/-- The greatest key among the rows that satisfy `p`. -/
def maxKey (t : Serial key) (p : ρ → Bool) : Option Nat := ((t.table.rows.filter p).map key).max?

/-- `INSERT … RETURNING key`, the key being the next of the sequence. -/
def insert (t : Serial key) (row : Nat → ρ) (hrow : ∀ n, key (row n) = n := by intro _; rfl) : Serial key where
  table := t.table.insertNew (row t.next)
  next := t.next + 1
  positive := Nat.succ_pos _
  below := by
    intro x hx
    unfold Table.insertNew at hx
    split_ifs at hx
    · exact Nat.lt_succ_of_lt (t.below x hx)
    · rcases mem_append.mp hx with hold | hnew
      · exact Nat.lt_succ_of_lt (t.below x hold)
      · grind

/-- `nextval`: the sequence moves on, whatever becomes of the key that was drawn. -/
def draw (t : Serial key) : Serial key where
  table := t.table
  next := t.next + 1
  positive := Nat.succ_pos _
  below := fun x hx => Nat.lt_succ_of_lt (t.below x hx)

/-- A row whose key was drawn before is entered. -/
def place (t : Serial key) (x : ρ) : Serial key :=
  if h : key x < t.next then
    { table := t.table.insertNew x
      next := t.next
      positive := t.positive
      below := by
        intro y hy
        unfold Table.insertNew at hy
        split_ifs at hy
        · exact t.below y hy
        · rcases mem_append.mp hy with hold | hnew
          · exact t.below y hold
          · rw [mem_singleton.mp hnew]
            exact h }
  else t

/-- `UPDATE … SET … WHERE …`. -/
def update (t : Serial key) (p : ρ → Bool) (f : ρ → ρ)
    (hf : ∀ x, key (f x) = key x := by intro _; rfl) : Serial key where
  table := t.table.update p f hf
  next := t.next
  positive := t.positive
  below := by
    intro x hx
    obtain ⟨y, hy, rfl⟩ := mem_map.mp hx
    split_ifs
    · rw [hf]
      exact t.below y hy
    · exact t.below y hy

/-- `DELETE … WHERE …`; the sequence goes on. -/
def delete (t : Serial key) (p : ρ → Bool) : Serial key where
  table := t.table.delete p
  next := t.next
  positive := t.positive
  below := fun x hx => t.below x (mem_filter.mp hx).1

variable {t : Serial key} {x : ρ}

theorem get?_key {k : Nat} (h : t.get? k = some x) : key x = k := Table.get?_key h

theorem next_not_mem (t : Serial key) : t.next ∉ t.table.rows.map key := by
  intro hmem
  obtain ⟨x, hx, hkey⟩ := mem_map.mp hmem
  exact absurd (t.below x hx) (by rw [hkey]; exact Nat.lt_irrefl _)

theorem rows_insert (t : Serial key) (row : Nat → ρ) (hrow : ∀ n, key (row n) = n) :
    (t.insert row hrow).table.rows = t.table.rows ++ [row t.next] := by
  have hfree : key (row t.next) ∉ t.table.rows.map key := by
    rw [hrow]
    exact t.next_not_mem
  exact Table.rows_insertNew hfree

theorem rows_place (hdrawn : key x < t.next) (hfree : key x ∉ t.table.rows.map key) :
    (t.place x).table.rows = t.table.rows ++ [x] ∧ (t.place x).next = t.next := by
  grind [place, Table.rows_insertNew]

variable {u : Serial key}

theorem get?_append_free (hrows : u.table.rows = t.table.rows ++ [x]) (hfree : key x ∉ t.table.rows.map key) (k : Nat) :
    u.get? k = if k = key x then some x else t.get? k := by
  show u.table.rows.find? _ = _
  rw [hrows, find?_append]
  show (t.table.get? k).or ([x].find? fun y => key y = k) = _
  split_ifs with hk
  · rw [hk, Table.get?_eq_none_iff.mpr hfree]
    simp
  · have hne : ¬ key x = k := fun h => hk h.symm
    simp only [find?_cons, find?_nil, hne, decide_false, Option.or_none]
    rfl

theorem get?_append (hrows : u.table.rows = t.table.rows ++ [x]) (hkey : key x = t.next) (k : Nat) :
    u.get? k = if k = t.next then some x else t.get? k := by
  rw [← hkey]
  refine get?_append_free hrows ?_ k
  rw [hkey]
  exact t.next_not_mem

variable {p : ρ → Bool}

theorem maxKey_append_above (hrows : u.table.rows = t.table.rows ++ [x])
    (habove : ∀ y ∈ t.table.rows, p y = true → key y < key x) :
    u.maxKey p = if p x then some (key x) else t.maxKey p := by
  unfold maxKey
  grind [max?_eq_some_iff]

theorem maxKey_bind_append (hrows : u.table.rows = t.table.rows ++ [x]) (hfree : key x ∉ t.table.rows.map key)
    (hp : p x = false) :
    (u.maxKey p).bind u.get? = (t.maxKey p).bind t.get? := by
  have hsame : u.maxKey p = t.maxKey p := by grind [maxKey]
  rw [hsame]
  cases hmax : t.maxKey p with
  | none => rfl
  | some m =>
    obtain ⟨y, hy, rfl⟩ := mem_map.mp (max?_mem hmax)
    have hmem : key y ∈ t.table.rows.map key := mem_map_of_mem (mem_filter.mp hy).1
    rw [Option.bind_some, Option.bind_some, get?_append_free hrows hfree, if_neg]
    intro heq
    exact hfree (heq ▸ hmem)

theorem maxKey_append (hrows : u.table.rows = t.table.rows ++ [x]) (hkey : key x = t.next) (p : ρ → Bool) :
    u.maxKey p = if p x then some t.next else t.maxKey p := by
  rw [← hkey]
  refine maxKey_append_above hrows fun y hy _ => ?_
  rw [hkey]
  exact t.below y hy

theorem get?_insert (t : Serial key) (row : Nat → ρ) (hrow : ∀ n, key (row n) = n) (k : Nat) :
    (t.insert row hrow).get? k = if k = t.next then some (row t.next) else t.get? k :=
  get?_append (t.rows_insert row hrow) (hrow _) k

theorem maxKey_insert (t : Serial key) {row : Nat → ρ} (hrow : ∀ n, key (row n) = n) (p : ρ → Bool) :
    (t.insert row hrow).maxKey p = if p (row t.next) then some t.next else t.maxKey p :=
  maxKey_append (t.rows_insert row hrow) (hrow _) p

theorem rows_insert_update (t : Serial key) {row : Nat → ρ} (hrow : ∀ n, key (row n) = n)
    {f : ρ → ρ} (hf : ∀ x, key (f x) = key x) :
    ((t.insert row hrow).update (fun x => decide (key x = t.next)) f hf).table.rows =
      t.table.rows ++ [f (row t.next)] := by
  have hold : ∀ x ∈ t.table.rows, (if decide (key x = t.next) then f x else x) = x := by
    intro x hx
    rw [if_neg]
    simpa using Nat.ne_of_lt (t.below x hx)
  show (t.insert row hrow).table.rows.map (fun x => if decide (key x = t.next) then f x else x) = _
  rw [rows_insert, map_append, map_singleton, hrow, decide_eq_true rfl, if_pos rfl, map_congr_left hold, map_id']

theorem get?_update (t : Serial key) (p : ρ → Bool) (f : ρ → ρ) (hf : ∀ x, key (f x) = key x) (k : Nat) :
    (t.update p f hf).get? k = (t.get? k).map fun x => if p x then f x else x :=
  Table.get?_update _ _ _ hf _

theorem maxKey_update (t : Serial key) {q : ρ → Bool} {f : ρ → ρ} (hf : ∀ x, key (f x) = key x)
    (hp : ∀ x ∈ t.table.rows, q x = true → p (f x) = p x) :
    (t.update q f hf).maxKey p = t.maxKey p := by
  show (((t.table.rows.map fun x => if q x then f x else x).filter p).map key).max? = _
  have hkeep : ∀ x ∈ t.table.rows, (p ∘ fun x => if q x then f x else x) x = p x := by grind
  have hkeys : (key ∘ fun x => if q x then f x else x) = key := by grind
  rw [filter_map, map_map, hkeys, filter_congr hkeep]
  rfl

theorem le_maxKey (p : ρ → Bool) (hmem : x ∈ t.table.rows) (hp : p x = true) :
    ∃ m, t.maxKey p = some m ∧ key x ≤ m := by
  have hkey : key x ∈ (t.table.rows.filter p).map key := mem_map_of_mem (mem_filter.mpr ⟨hmem, hp⟩)
  cases hmax : t.maxKey p with
  | none =>
    rw [max?_eq_none_iff.mp hmax] at hkey
    cases hkey
  | some m => exact ⟨m, rfl, (max?_eq_some_iff.mp hmax).2 _ hkey⟩

theorem maxKey_bind_get? (h : (t.maxKey p).bind t.get? = some x) : p x = true ∧ t.maxKey p = some (key x) := by
  obtain ⟨k, hmax, hget⟩ := Option.bind_eq_some_iff.mp h
  obtain ⟨y, hy, hkey⟩ := mem_map.mp (max?_mem hmax)
  obtain ⟨hmem, hp⟩ := mem_filter.mp hy
  have hyx : some y = some x := by
    rw [← hget, ← hkey]
    exact (Table.get?_of_mem hmem).symm
  grind

end Serial

end BitAgent.Lib
