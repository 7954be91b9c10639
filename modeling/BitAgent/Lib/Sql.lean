/-
# Lib.Sql — conditions with NULL, and documents

A SQL condition has three values, and a WHERE clause keeps the rows for which it is true. `SqlBool` is
that logic; each connective has one lemma that says when it `Holds`. `Jsonb` is the part of Postgres'
`jsonb` that has no arrays, numbers or texts, with the operators `#>`, `@>` and `jsonb_exists`.
-/
import Mathlib.Data.List.Nodup

namespace BitAgent.Lib

/-! ## Conditions -/

/-- The value of a condition; `none` is NULL. -/
abbrev SqlBool := Option Bool

namespace SqlBool

variable {α : Type} [DecidableEq α]

def Holds (b : SqlBool) : Prop := b = some true

instance (b : SqlBool) : Decidable b.Holds := inferInstanceAs (Decidable (b = some true))

def and : SqlBool → SqlBool → SqlBool
  | some false, _ => some false
  | some true, b => b
  | none, some false => some false
  | none, _ => none

def or : SqlBool → SqlBool → SqlBool
  | some true, _ => some true
  | some false, b => b
  | none, some true => some true
  | none, _ => none

def all (l : List SqlBool) : SqlBool := l.foldr and (some true)

/-- `a = b`. -/
def eq (a b : Option α) : SqlBool :=
  match a, b with
  | some a, some b => some (decide (a = b))
  | _, _ => none

def isIn (a : Option α) (l : List α) : SqlBool :=
  match a with
  | none => none
  | some a => if l = [] then none else some (decide (a ∈ l))

@[simp] theorem holds_some {b : Bool} : Holds (some b) ↔ b = true := by rw [Holds, Option.some.injEq]

@[simp] theorem not_holds_none : ¬ Holds none := nofun

@[simp] theorem holds_and {a b : SqlBool} : (a.and b).Holds ↔ a.Holds ∧ b.Holds := by
  match a, b with
  | some false, _ => simp [and]
  | some true, _ => simp [and]
  | none, some false => simp [and]
  | none, some true => simp [and]
  | none, none => simp [and]

@[simp] theorem holds_or {a b : SqlBool} : (a.or b).Holds ↔ a.Holds ∨ b.Holds := by
  match a, b with
  | some false, _ => simp [or]
  | some true, _ => simp [or]
  | none, some false => simp [or]
  | none, some true => simp [or]
  | none, none => simp [or]

theorem holds_all {l : List SqlBool} : (all l).Holds ↔ ∀ b ∈ l, Holds b := by
  induction l with
  | nil => simp [all]
  | cons b l ih => grind [all, holds_and]

theorem holds_eq {a b : Option α} : (eq a b).Holds ↔ a.isSome = true ∧ a = b := by
  match a, b with
  | some a, some b => simp [eq]
  | none, _ => simp [eq]
  | some a, none => simp [eq]

theorem holds_isIn {a : Option α} {l : List α} : (isIn a l).Holds ↔ ∃ x ∈ l, a = some x := by
  match a, l with
  | none, _ => simp [isIn]
  | some a, [] => simp [isIn]
  | some a, x :: l => simp [isIn]

end SqlBool

/-! ## Documents -/

/-- A `jsonb` document of objects and nulls. -/
inductive Jsonb where
  | null
  | object (members : List (String × Jsonb))

namespace Jsonb

def member (name : String) : Jsonb → Option Jsonb
  | null => none
  | object members => members.lookup name

/-- `doc #> path`. -/
def getPath (doc : Jsonb) (path : List String) : Option Jsonb :=
  path.foldl (fun d name => d.bind (member name)) (some doc)

/-- `jsonb_exists(doc, name)`. -/
def hasMember (doc : Jsonb) (name : String) : Bool := (doc.member name).isSome

/-- The document is `{}`. -/
def isEmptyObject : Jsonb → Bool
  | object [] => true
  | _ => false

mutual

/-- `doc @> other`: what `other` has, `doc` has too. -/
def contains (doc : Jsonb) : Jsonb → Bool
  | null =>
    match doc with
    | null => true
    | object _ => false
  | object members =>
    match doc with
    | null => false
    | object own => containsMembers own members

/-- Every member of the second list is contained in the member of that name of the first. -/
def containsMembers (own : List (String × Jsonb)) : List (String × Jsonb) → Bool
  | [] => true
  | m :: members =>
    (match own.lookup m.1 with
    | some value => value.contains m.2
    | none => false) && containsMembers own members

end

theorem containsMembers_iff {own members : List (String × Jsonb)} : containsMembers own members = true ↔
    ∀ m ∈ members, ∃ value, own.lookup m.1 = some value ∧ value.contains m.2 = true := by
  induction members with
  | nil => simp [containsMembers]
  | cons m members ih =>
    rw [containsMembers, Bool.and_eq_true, ih, List.forall_mem_cons]
    grind

end Jsonb

end BitAgent.Lib
