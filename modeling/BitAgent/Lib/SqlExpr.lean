/-
# Lib.SqlExpr — SQL expressions with placeholders

An expression is evaluated in a row with a list of arguments, which fill its placeholders in the order of the text.
`Yields` says of a part of the text and its part of the list that they fit, with one lemma for each way to build an
expression. Evaluation gives `none` where the database reports an error; `CASE` evaluates no branch that it does not
take.
-/
import Mathlib
import BitAgent.Lib.GoString
import BitAgent.Lib.Regex
import BitAgent.Lib.Sql

namespace BitAgent.Lib

open List

inductive SqlValue
  | null
  | bool (b : Bool)
  | int (n : Int)
  | text (s : List Char)
  | bytea (b : GoString)
  deriving DecidableEq

namespace SqlValue

def cond : SqlValue → Option SqlBool
  | null => some none
  | bool b => some (some b)
  | _ => none

def ofCond : SqlBool → SqlValue
  | none => null
  | some b => bool b

end SqlValue

inductive SqlOp
  | btrim
  | eq
  | lt
  /-- `text ~ pattern`. -/
  | regex
  | and
  | or
  | add

namespace SqlOp

/-- The operators that are NULL on NULL. -/
def strict : SqlOp → SqlValue → SqlValue → Option SqlValue
  | .btrim, .text s, .text chars =>
    some (.text ((s.dropWhile fun c => decide (c ∈ chars)).rdropWhile fun c => decide (c ∈ chars)))
  | .eq, .bool x, .bool y => some (.bool (decide (x = y)))
  | .eq, .int x, .int y => some (.bool (decide (x = y)))
  | .eq, .text x, .text y => some (.bool (decide (x = y)))
  | .eq, .bytea x, .bytea y => some (.bool (decide (x = y)))
  | .lt, .int x, .int y => some (.bool (decide (x < y)))
  | .regex, .text s, .text pattern => (Regex.compile .postgres pattern).map fun r => .bool (r.search s)
  | .add, .int x, .int y => some (.int (x + y))
  | _, .null, _ => some .null
  | _, _, .null => some .null
  | _, _, _ => none

def apply (o : SqlOp) (x y : SqlValue) : Option SqlValue :=
  match o with
  | .and => x.cond.bind fun a => y.cond.map fun b => .ofCond (SqlBool.and a b)
  | .or => x.cond.bind fun a => y.cond.map fun b => .ofCond (SqlBool.or a b)
  | o => o.strict x y

end SqlOp

inductive SqlExpr
  /-- `?` -/
  | param
  | column (name : String)
  | value (v : SqlValue)
  /-- Nothing where an expression should be: a syntax error. -/
  | missing
  | op (o : SqlOp) (a b : SqlExpr)
  | not (a : SqlExpr)
  /-- `decode(a,'hex')` -/
  | decodeHex (a : SqlExpr)
  | coalesce (a b : SqlExpr)
  /-- `CASE WHEN c THEN a ELSE b END`; several `WHEN` are one in the `ELSE` of the other. -/
  | caseWhen (c a b : SqlExpr)

namespace SqlExpr

def holes : SqlExpr → Nat
  | param => 1
  | column _ => 0
  | value _ => 0
  | missing => 0
  | op _ a b => a.holes + b.holes
  | not a => a.holes
  | decodeHex a => a.holes
  | coalesce a b => a.holes + b.holes
  | caseWhen c a b => c.holes + a.holes + b.holes

/-- The value of an expression; `args` are for its placeholders and those after it. -/
def eval (row : String → SqlValue) : SqlExpr → List SqlValue → Option SqlValue
  | param, args => args.head?
  | column name, _ => some (row name)
  | value v, _ => some v
  | missing, _ => none
  | op o a b, args => (a.eval row args).bind fun x => (b.eval row (args.drop a.holes)).bind fun y => o.apply x y
  | not a, args => (a.eval row args).bind fun x => x.cond.map fun c => SqlValue.ofCond (c.map fun b => !b)
  | decodeHex a, args =>
    (a.eval row args).bind fun
      | .text s => (GoString.hexDecode s).map .bytea
      | .null => some .null
      | _ => none
  | coalesce a b, args => (a.eval row args).bind fun x => if x = .null then b.eval row (args.drop a.holes) else some x
  | caseWhen c a b, args =>
    (c.eval row args).bind fun x => x.cond.bind fun cond =>
      if cond = some true then a.eval row (args.drop c.holes)
      else b.eval row (args.drop (c.holes + a.holes))

def join (o : SqlOp) : List SqlExpr → SqlExpr
  | [] => missing
  | e :: es => es.foldl (op o) e

/-- `a NOT IN (…)`. -/
def notIn (a : SqlExpr) (es : List SqlExpr) : SqlExpr := not (join .or (es.map (op .eq a)))

/-- With `args` in its placeholders, whatever follows, the expression has the value `v`. -/
structure Yields (row : String → SqlValue) (e : SqlExpr) (args : List SqlValue) (v : SqlValue) : Prop where
  filled : e.holes = args.length
  eval : ∀ rest, e.eval row (args ++ rest) = some v

variable {row : String → SqlValue} {a b c : SqlExpr} {as bs cs : List SqlValue} {x y z : SqlValue}

theorem yields_param (v : SqlValue) : Yields row param [v] v := ⟨rfl, fun _ => rfl⟩

theorem yields_column (name : String) : Yields row (column name) [] (row name) := ⟨rfl, fun _ => rfl⟩

theorem yields_value (v : SqlValue) : Yields row (value v) [] v := ⟨rfl, fun _ => rfl⟩

theorem Yields.eval_drop (ha : a.holes = as.length) (hb : Yields row b bs y) (rest : List SqlValue) :
    b.eval row ((as ++ bs ++ rest).drop a.holes) = some y := by
  rw [ha, append_assoc, drop_left]
  exact hb.eval rest

theorem Yields.op {o : SqlOp} (ha : Yields row a as x) (hb : Yields row b bs y) (h : o.apply x y = some z) :
    Yields row (.op o a b) (as ++ bs) z := by
  refine ⟨?_, fun rest => ?_⟩
  · rw [holes, ha.filled, hb.filled, length_append]
  · have hfirst : a.eval row (as ++ bs ++ rest) = some x := by
      rw [append_assoc]
      exact ha.eval _
    rw [SqlExpr.eval, hfirst, Option.bind_some, hb.eval_drop ha.filled, Option.bind_some, h]

theorem Yields.not {p : Bool} (ha : Yields row a as (.bool p)) : Yields row (.not a) as (.bool !p) := by
  refine ⟨ha.filled, fun rest => ?_⟩
  rw [SqlExpr.eval, ha.eval]
  rfl

theorem Yields.decodeHex {s : List Char} {bytes : GoString} (ha : Yields row a as (.text s))
    (h : GoString.hexDecode s = some bytes) : Yields row (.decodeHex a) as (.bytea bytes) := by
  refine ⟨ha.filled, fun rest => ?_⟩
  rw [SqlExpr.eval, ha.eval]
  grind

theorem Yields.coalesce (ha : Yields row a as x) (hx : x ≠ .null) (hb : b.holes = bs.length) :
    Yields row (.coalesce a b) (as ++ bs) x := by
  refine ⟨?_, fun rest => ?_⟩
  · rw [holes, ha.filled, hb, length_append]
  · rw [SqlExpr.eval, append_assoc, ha.eval, Option.bind_some, if_neg hx]

theorem Yields.caseWhen {p : Bool} (hc : Yields row c cs (.bool p)) (ha : Yields row a as x)
    (hb : Yields row b bs y) : Yields row (.caseWhen c a b) (cs ++ as ++ bs) (if p then x else y) := by
  refine ⟨?_, fun rest => ?_⟩
  · rw [holes, hc.filled, ha.filled, hb.filled, length_append, length_append]
  · have hcond : c.eval row (cs ++ as ++ bs ++ rest) = some (.bool p) := by
      rw [append_assoc, append_assoc]
      exact hc.eval _
    rw [SqlExpr.eval, hcond]
    show (if some p = some true then _ else _) = _
    cases p with
    | true =>
      rw [if_pos rfl, if_pos rfl, hc.filled, append_assoc, append_assoc, drop_left]
      exact ha.eval _
    | false =>
      rw [if_neg (by simp), if_neg Bool.false_ne_true, hc.filled, ha.filled, ← length_append, append_assoc, drop_left]
      exact hb.eval rest

theorem yields_join {β : Type} {o : SqlOp} (f : β → SqlValue) (g : β → β → β)
    (hop : ∀ p q, o.apply (f p) (f q) = some (f (g p q)))
    {first : SqlExpr × List SqlValue × β} {others : List (SqlExpr × List SqlValue × β)}
    (h : ∀ p ∈ first :: others, Yields row p.1 p.2.1 (f p.2.2)) :
    Yields row (join o ((first :: others).map Prod.fst)) ((first :: others).flatMap fun p => p.2.1)
      (f ((others.map fun p => p.2.2).foldl g first.2.2)) := by
  have hfold : ∀ (others : List (SqlExpr × List SqlValue × β)) {e : SqlExpr} {args : List SqlValue} {p : β},
      (∀ q ∈ others, Yields row q.1 q.2.1 (f q.2.2)) → Yields row e args (f p) →
      Yields row ((others.map Prod.fst).foldl (SqlExpr.op o) e) (args ++ others.flatMap fun q => q.2.1)
        (f ((others.map fun q => q.2.2).foldl g p)) := by
    intro others
    induction others with
    | nil => grind
    | cons q others ih =>
      intro e args p hothers he
      have hq := he.op (hothers q mem_cons_self) (hop p q.2.2)
      rw [flatMap_cons, ← append_assoc]
      exact ih (fun r hr => hothers r (mem_cons_of_mem _ hr)) hq
  exact hfold others (fun q hq => h q (mem_cons_of_mem _ hq)) (h first mem_cons_self)

theorem yields_or (parts : List (SqlExpr × List SqlValue × Bool)) (hne : parts ≠ [])
    (h : ∀ p ∈ parts, Yields row p.1 p.2.1 (.bool p.2.2)) :
    Yields row (join .or (parts.map Prod.fst)) (parts.flatMap fun p => p.2.1) (.bool (parts.any fun p => p.2.2)) := by
  obtain ⟨first, others, rfl⟩ := exists_cons_of_ne_nil hne
  have hany : ∀ (others : List (SqlExpr × List SqlValue × Bool)) (p : Bool),
      (others.map fun q => q.2.2).foldl (· || ·) p = (p || others.any fun q => q.2.2) := by
    intro others
    induction others with
    | nil => grind
    | cons q others ih => grind
  rw [any_cons, ← hany]
  exact yields_join SqlValue.bool (· || ·) (by decide) h

theorem yields_add (parts : List (SqlExpr × List SqlValue × Int)) (hne : parts ≠ [])
    (h : ∀ p ∈ parts, Yields row p.1 p.2.1 (.int p.2.2)) :
    Yields row (join .add (parts.map Prod.fst)) (parts.flatMap fun p => p.2.1)
      (.int (parts.map fun p => p.2.2).sum) := by
  obtain ⟨first, others, rfl⟩ := exists_cons_of_ne_nil hne
  have hsum : ∀ (l : List Int) (n : Int), l.foldl (· + ·) n = n + l.sum := by
    intro l
    induction l with
    | nil => exact fun n => (Int.add_zero n).symm
    | cons m l ih => grind
  have htotal : ((first :: others).map fun p => p.2.2).sum = (others.map fun p => p.2.2).foldl (· + ·) first.2.2 := by
    rw [hsum, map_cons, sum_cons]
  rw [htotal]
  exact yields_join SqlValue.int (· + ·) (fun _ _ => rfl) h

end SqlExpr

end BitAgent.Lib
