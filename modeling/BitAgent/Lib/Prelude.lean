/-
# Lib.Prelude — guard clauses, finite maps and machine numbers

Some small pieces of a Go program's vocabulary that the models share:

  * `reject cond msg`, a guard clause `if cond { return errors.New(msg) }`;
  * `GoMap`, a map as its entries, one per key, and `NilMap`, a map that may be nil;
  * `Float64`, a double as NaN, an infinity or the rational it denotes, with the IEEE comparisons and
    round-to-nearest-even addition. The sign of zero is not represented: no comparison sees it;
  * signed 64-bit integers, which wrap around, and decimal texts of integers, which determine them.
-/
import Mathlib.Data.Rat.Floor
import Mathlib.Data.List.Nodup

namespace BitAgent.Lib

open List

/-- Membership, decided by the decidable equality of the elements. -/
@[reducible] def decidableMem {α : Type} [DecidableEq α] (a : α) (l : List α) : Decidable (a ∈ l) := inferInstance

/-! ## Guard clauses -/

/-- `if cond { return errors.New(msg) }`. -/
def reject {ε : Type} (cond : Bool) (msg : ε) : Except ε Unit := if cond then .error msg else .ok ()

section
variable {ε α β : Type}

@[simp] theorem reject_eq_ok {cond : Bool} {msg : ε} {u : Unit} : reject cond msg = .ok u ↔ cond = false := by
  cases cond <;> simp [reject]

@[simp] theorem reject_bind_eq_ok {cond : Bool} {msg : ε} {f : Unit → Except ε β} {b : β} :
    (reject cond msg >>= f) = .ok b ↔ cond = false ∧ f () = .ok b := by
  cases cond <;> simp [reject, bind, Except.bind]

theorem accepted_bind_iff {first : Except ε α} {rest : α → Except ε β} {r : β} :
    (first >>= rest) = .ok r ↔ ∃ v, first = .ok v ∧ rest v = .ok r := by
  rcases first with e | v <;> simp [bind, Except.bind]

theorem checked_bind_iff {first : Except ε Unit} {rest : Unit → Except ε β} {r : β} :
    (first >>= rest) = .ok r ↔ first = .ok () ∧ rest () = .ok r := by
  rcases first with e | v <;> simp [bind, Except.bind]

theorem forM_eq_ok_iff {check : α → Except ε Unit} {items : List α} :
    items.forM check = .ok () ↔ ∀ x ∈ items, check x = .ok () := by
  induction items with
  | nil => simp [List.forM, pure, Except.pure]
  | cons x items ih => rw [List.forM, checked_bind_iff, forall_mem_cons, ih]

theorem map_eq_ok_iff {f : α → β} {x : Except ε α} {y : β} : x.map f = .ok y ↔ ∃ a, x = .ok a ∧ f a = y := by
  cases x with
  | error e => simp [Except.map]
  | ok a => simp [Except.map]

theorem map_bind_congr {γ δ : Type} {f : α → γ} {g : β → δ} {x y : Except ε α}
    {rest rest' : α → Except ε β} (hfirst : x.map f = y.map f)
    (hrest : ∀ a b, f a = f b → (rest a).map g = (rest' b).map g) :
    (x >>= rest).map g = (y >>= rest').map g := by
  cases x with
  | error e =>
    cases y with
    | error e' => exact congrArg Except.error (Except.error.inj hfirst)
    | ok b => cases hfirst
  | ok a =>
    cases y with
    | error e' => cases hfirst
    | ok b => exact hrest a b (Except.ok.inj hfirst)

end

/-! ## Maps -/

/-- A Go map: finitely many entries, at most one for each key. -/
structure GoMap (κ ν : Type) where
  entries : List (κ × ν)
  nodup : (entries.map Prod.fst).Nodup
  deriving DecidableEq

namespace GoMap

variable {κ ν : Type}

/-- `map[κ]ν{}`. -/
def empty : GoMap κ ν := ⟨[], nodup_nil⟩

/-- `len(m)`. -/
def len (m : GoMap κ ν) : Nat := m.entries.length

/-- `v, ok := m[k]`. -/
def lookup [DecidableEq κ] (m : GoMap κ ν) (k : κ) : Option ν := (m.entries.find? fun e => e.1 = k).map Prod.snd

/-- `m[k] = v`. -/
def set [DecidableEq κ] (m : GoMap κ ν) (k : κ) (v : ν) : GoMap κ ν where
  entries := (m.entries.filter fun e => decide (e.1 ≠ k)) ++ [(k, v)]
  nodup := by
    rw [map_append, nodup_append]
    refine ⟨(filter_sublist.map Prod.fst).nodup m.nodup, nodup_singleton _, ?_⟩
    intro a ha b hb heq
    obtain ⟨e, he, rfl⟩ := mem_map.mp ha
    have hne : e.1 ≠ k := by simpa using (mem_filter.mp he).2
    exact hne (heq.trans (mem_singleton.mp hb))

theorem lookup_eq_some_iff [DecidableEq κ] {m : GoMap κ ν} {k : κ} {v : ν} :
    m.lookup k = some v ↔ (k, v) ∈ m.entries := by
  constructor
  · intro h
    obtain ⟨e, he, rfl⟩ := Option.map_eq_some_iff.mp h
    grind
  · intro h
    obtain ⟨e, he⟩ : ∃ e, (m.entries.find? fun e => decide (e.1 = k)) = some e := by
      rw [← Option.isSome_iff_exists, find?_isSome]
      exact ⟨(k, v), h, by simp⟩
    have hk : e.1 = k := by simpa using find?_some he
    have heq : e = (k, v) := inj_on_of_nodup_map m.nodup (mem_of_find?_eq_some he) h hk
    rw [lookup, he, heq]
    rfl

theorem lookup_set [DecidableEq κ] (m : GoMap κ ν) (k : κ) (v : ν) (k' : κ) :
    (m.set k v).lookup k' = if k' = k then some v else m.lookup k' := by
  apply Option.ext
  intro w
  rw [lookup_eq_some_iff]
  show (k', w) ∈ (m.entries.filter fun e => decide (e.1 ≠ k)) ++ [(k, v)] ↔ _
  grind [lookup_eq_some_iff]

/-- `delete(m, k)`. -/
def delete [DecidableEq κ] (m : GoMap κ ν) (k : κ) : GoMap κ ν where
  entries := m.entries.filter fun e => decide (e.1 ≠ k)
  nodup := (filter_sublist.map Prod.fst).nodup m.nodup

theorem lookup_delete [DecidableEq κ] (m : GoMap κ ν) (k k' : κ) :
    (m.delete k).lookup k' = if k' = k then none else m.lookup k' := by
  apply Option.ext
  intro w
  rw [lookup_eq_some_iff]
  show (k', w) ∈ (m.entries.filter fun e => decide (e.1 ≠ k)) ↔ _
  grind [lookup_eq_some_iff]

theorem lookup_foldl_set [DecidableEq κ] {l : List (κ × ν)} (hl : (l.map Prod.fst).Nodup) (m : GoMap κ ν)
    (k : κ) (v : ν) :
    (l.foldl (fun m e => m.set e.1 e.2) m).lookup k = some v ↔
      (k, v) ∈ l ∨ k ∉ l.map Prod.fst ∧ m.lookup k = some v := by
  induction l generalizing m with
  | nil => simp
  | cons e l ih =>
    rw [map_cons, nodup_cons] at hl
    rw [foldl_cons, ih hl.2, lookup_set, map_cons, mem_cons, mem_cons]
    grind

/-- `m[k] = append(m[k], v)`. -/
def push [DecidableEq κ] (m : GoMap κ (List ν)) (k : κ) (v : ν) : GoMap κ (List ν) :=
  m.set k ((m.lookup k).getD [] ++ [v])

theorem mem_foldl_push [DecidableEq κ] (items : List (κ × ν)) (m : GoMap κ (List ν)) (k : κ) (v : ν) :
    v ∈ ((items.foldl (fun m item => m.push item.1 item.2) m).lookup k).getD [] ↔
      v ∈ (m.lookup k).getD [] ∨ (k, v) ∈ items := by
  induction items generalizing m with
  | nil => simp
  | cons item items ih =>
    obtain ⟨k', v'⟩ := item
    rw [foldl_cons, ih, push, lookup_set, mem_cons, ← or_assoc, Prod.mk.injEq]
    grind

end GoMap

/-- A value of a Go map type: a map, or nil. -/
abbrev NilMap (κ ν : Type) := Option (GoMap κ ν)

namespace NilMap

variable {κ ν : Type}

def entries (m : NilMap κ ν) : List (κ × ν) := (m.map GoMap.entries).getD []

/-- `v, ok := m[k]`. -/
def lookup [DecidableEq κ] (m : NilMap κ ν) (k : κ) : Option ν := (m.entries.find? fun e => e.1 = k).map Prod.snd

/-- `m[k] = v`; a nil map is made first. -/
def set [DecidableEq κ] (m : NilMap κ ν) (k : κ) (v : ν) : NilMap κ ν :=
  some
    { entries := (m.entries.filter fun e => decide (e.1 ≠ k)) ++ [(k, v)]
      nodup := by
        have hnodup : (m.entries.map Prod.fst).Nodup := by
          cases m with
          | none => exact nodup_nil
          | some m => exact m.nodup
        rw [map_append, nodup_append]
        refine ⟨(filter_sublist.map Prod.fst).nodup hnodup, nodup_singleton _, ?_⟩
        intro a ha b hb heq
        obtain ⟨e, he, rfl⟩ := mem_map.mp ha
        have hne : e.1 ≠ k := by simpa using (mem_filter.mp he).2
        exact hne (heq.trans (mem_singleton.mp hb)) }

theorem lookup_eq_some_iff [DecidableEq κ] {m : NilMap κ ν} {k : κ} {v : ν} :
    m.lookup k = some v ↔ (k, v) ∈ m.entries := by
  cases m with
  | none => exact ⟨fun h => (by cases h), fun h => (by cases h)⟩
  | some m => exact GoMap.lookup_eq_some_iff (m := m)

end NilMap

/-! ## Doubles -/

/-- A `float64` up to the sign of zero. -/
inductive Float64 where
  | nan
  | inf (negative : Bool)
  | finite (q : Rat)
  deriving DecidableEq

namespace Float64

/-- `!math.IsNaN(n) && !math.IsInf(n, 0)`. -/
def isFinite : Float64 → Bool
  | .finite _ => true
  | _ => false

/-- The IEEE comparison `a < b`, false if a side is NaN. -/
def lt : Float64 → Float64 → Bool
  | .finite p, .finite q => decide (p < q)
  | .inf n, .finite _ => n
  | .finite _, .inf n => !n
  | .inf n, .inf m => n && !m
  | .nan, _ => false
  | _, .nan => false

/-- The nearest integer to a non-negative rational, ties to even. -/
def roundEven (q : Rat) : Int :=
  let n := q.floor
  let frac := q - n
  if frac < 1 / 2 then n
  else if 1 / 2 < frac then n + 1
  else if n % 2 = 0 then n else n + 1

/-- The exponent of the last place: 52 bits below the leading bit, not below the subnormals. -/
def ulpExponent (q : Rat) : Int :=
  let e : Int := (q.num.natAbs.log2 : Int) - (q.den.log2 : Int)
  -- the quotient of the leading bits may be one too large
  let e := if q.num.natAbs * 2 ^ (-e).toNat < q.den * 2 ^ e.toNat then e - 1 else e
  max e (-1022) - 52

/-- `2 ^ e` as a rational. -/
def pow2 (e : Int) : Rat := if 0 ≤ e then (2 : Rat) ^ e.toNat else 1 / (2 : Rat) ^ (-e).toNat

/-- The nearest double, ties to even, with overflow to infinity. -/
def round (q : Rat) : Float64 :=
  if q = 0 then .finite 0
  else
    let u := pow2 (ulpExponent (if q < 0 then -q else q))
    let m := roundEven ((if q < 0 then -q else q) / u) * u
    if pow2 1024 ≤ m then .inf (decide (q < 0)) else .finite (if q < 0 then -m else m)

def add : Float64 → Float64 → Float64
  | .finite p, .finite q => round (p + q)
  | .inf n, .inf m => if n = m then .inf n else .nan
  | .inf n, .finite _ => .inf n
  | .finite _, .inf n => .inf n
  | .nan, _ => .nan
  | _, .nan => .nan

def mul : Float64 → Float64 → Float64
  | .finite p, .finite q => round (p * q)
  | .inf n, .inf m => .inf (n != m)
  | .inf n, .finite q => if q = 0 then .nan else .inf (n != decide (q < 0))
  | .finite q, .inf n => if q = 0 then .nan else .inf (n != decide (q < 0))
  | .nan, _ => .nan
  | _, .nan => .nan

/-- IEEE division by a positive number. -/
def divPos (x : Float64) (d : Nat) : Float64 :=
  match x with
  | .finite p => round (p / d)
  | x => x

/-- `math.Round`: the nearest integer, ties away from zero. -/
def roundAway : Float64 → Float64
  | .finite q => .finite (if q < 0 then -((-q + 1 / 2).floor : Rat) else ((q + 1 / 2).floor : Rat))
  | x => x

/-- `math.Max(lo, math.Min(hi, x))`. -/
def clamp (lo hi : Rat) (x : Float64) : Float64 :=
  match x with
  | .nan => .nan
  | x =>
    let low := if lt x (.finite hi) then x else .finite hi
    if lt (.finite lo) low then low else .finite lo

end Float64

example : Float64.add (.finite (1 / 2)) (.finite (1 / 4)) = .finite (3 / 4) := by decide +kernel

/-! ## Signed and unsigned 64-bit integers -/

theorem toNat_toUInt64 (x : Int64) : (x.toUInt64.toNat : Int) = if 0 ≤ x.toInt then x.toInt else x.toInt + 2 ^ 64 := by
  have hcond : x.toInt = if 2 * x.toUInt64.toNat < 2 ^ 64 then (x.toUInt64.toNat : Int)
      else (x.toUInt64.toNat : Int) - ((2 ^ 64 : Nat) : Int) :=
    BitVec.toInt_eq_toNat_cond x.toBitVec
  have hlt := x.toUInt64.toNat_lt
  split_ifs at hcond ⊢ <;> omega

theorem toNat_toUInt64_lt_iff (x : Int64) : x.toUInt64.toNat < 2 ^ 63 ↔ 0 ≤ x := by
  have hval := toNat_toUInt64 x
  have hlow := x.le_toInt
  have hhigh := x.toInt_lt
  grind [Int64.le_iff_toInt_le]

theorem toInt_foldl_add (xs : List Int64) (a : Int64) :
    (xs.foldl (· + ·) a).toInt = (a.toInt + (xs.map Int64.toInt).sum).bmod (2 ^ 64) := by
  induction xs generalizing a with
  | nil => simp
  | cons x xs ih => rw [foldl_cons, ih, Int64.toInt_add, Int.bmod_add_bmod, map_cons, sum_cons, Int.add_assoc]

theorem toInt_foldl_add_eq_iff (xs : List Int64) : (xs.foldl (· + ·) 0).toInt = (xs.map Int64.toInt).sum ↔
      -2 ^ 63 ≤ (xs.map Int64.toInt).sum ∧ (xs.map Int64.toInt).sum < 2 ^ 63 := by
  grind [toInt_foldl_add]

/-! ## Decimal texts -/

theorem nat_eq_of_repr_eq {m n : Nat} (h : m.repr = n.repr) : m = n := by
  grind [Nat.toList_repr, Nat.ofDigitChars_ten_toDigits]

theorem repr_ne_minus (m n : Nat) : m.repr ≠ "-" ++ n.repr := by
  intro h
  have hdigits := congrArg String.toList h
  rw [Nat.toList_repr, String.toList_append] at hdigits
  have hminus : '-' ∈ Nat.toDigits 10 m := by
    rw [hdigits]
    exact mem_cons_self
  exact absurd (Nat.isDigit_of_mem_toDigits (by decide) (by decide) hminus) (by decide)

theorem int_eq_of_repr_eq {m n : Int} (h : m.repr = n.repr) : m = n := by
  cases m with
  | ofNat m =>
    cases n with
    | ofNat n => exact congrArg Int.ofNat (nat_eq_of_repr_eq h)
    | negSucc n => exact absurd h (repr_ne_minus m (n + 1))
  | negSucc m =>
    cases n with
    | ofNat n => exact absurd h.symm (repr_ne_minus n (m + 1))
    | negSucc n => grind [Int.repr, String.toList_append, nat_eq_of_repr_eq, String.toList_inj]

/-! ## Lists -/

theorem countP_le_one {α : Type} {R : α → α → Prop} {p : α → Bool} {l : List α} (hl : l.Pairwise R)
    (hR : ∀ a ∈ l, ∀ b ∈ l, R a b → p a = true → p b = false) : l.countP p ≤ 1 := by
  induction hl with
  | nil => exact Nat.zero_le _
  | @cons a l hhead _ ih => grind [countP_eq_zero]

end BitAgent.Lib
