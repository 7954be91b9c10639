/-
# Lib.JsonType — decoding JSON into Go types

The types of a wire contract, their values, and `Decoder.Decode` with unknown fields disallowed. A member goes to the
field with its name, or else to the one whose name is the same up to case; the names of a type are ASCII and differ by
more than case (`FieldNames`). `decodeValue` stops at the first error. Left out: other types with an `UnmarshalJSON`,
`[]byte`, arrays, and the `string` option.
-/
import BitAgent.Lib.Json
import BitAgent.Lib.Prelude

namespace BitAgent.Lib

open List

/-! ## Names -/

/-- `foldRune`: ASCII letters in upper case, with U+017F and U+212A. Other runes occur in no field name. -/
def foldRune (r : Nat) : Nat :=
  if 0x61 ≤ r ∧ r ≤ 0x7A then r - 0x20
  else if r = 0x17F then 0x53
  else if r = 0x212A then 0x4B
  else r

/-- `foldName`. Names come out of `unquote` and are UTF-8. -/
def foldName (s : GoString) : GoString :=
  match GoString.runes s with
  | some rs => rs.flatMap fun r => JsonText.encodeRune (foldRune r)
  | none => s

/-- The names of the fields of a struct type. -/
structure FieldNames where
  names : List GoString
  ascii : ∀ n ∈ names, ∀ b ∈ n, b < 0x80
  distinct : (names.map foldName).Nodup

/-- The field of a member: the one with its name, or with its name up to case. -/
def FieldNames.lookup (f : FieldNames) (name : GoString) : Option (Fin f.names.length) :=
  (f.names.findFinIdx? fun n => decide (n = name)).or (f.names.findFinIdx? fun n => decide (foldName n = foldName name))

variable (f : FieldNames)

theorem FieldNames.foldName_injective {i j : Fin f.names.length}
    (h : foldName (f.names.get i) = foldName (f.names.get j)) : i = j := by
  have hmap : (f.names.map foldName).get (i.cast (length_map _).symm) =
      (f.names.map foldName).get (j.cast (length_map _).symm) := by
    simpa using h
  have hval := congrArg Fin.val (List.Nodup.injective_get f.distinct hmap)
  exact Fin.ext hval

theorem FieldNames.lookup_sound {name : GoString} {i : Fin f.names.length} (h : f.lookup name = some i) :
    foldName (f.names.get i) = foldName name := by
  rcases Option.or_eq_some_iff.mp h with hexact | ⟨-, hfold⟩
  · grind [findFinIdx?_eq_some_iff]
  · grind [findFinIdx?_eq_some_iff]

theorem FieldNames.lookup_eq_some_iff {name : GoString} {i : Fin f.names.length} :
    f.lookup name = some i ↔ foldName (f.names.get i) = foldName name := by
  refine ⟨f.lookup_sound, fun hfold => ?_⟩
  cases hfound : f.lookup name with
  | some j =>
    have hsame := (f.lookup_sound hfound).trans hfold.symm
    rw [f.foldName_injective hsame]
  | none =>
    have hnone := findFinIdx?_eq_none_iff.mp (Option.or_eq_none_iff.mp hfound).2
    grind

/-! ## Types and values -/

/-- The types of a wire contract. A struct has a type for each of its names. -/
inductive GoType where
  | string
  | bool
  | int
  | float
  | rawMessage
  | any
  | pointer (elem : GoType)
  | slice (elem : GoType)
  | map (elem : GoType)
  | struct (fields : FieldNames) (types : Fin fields.names.length → GoType)

def GoType.namesOf (fields : List (String × GoType)) : List GoString := fields.map fun f => GoString.ofString f.1

theorem GoType.length_namesOf (fields : List (String × GoType)) :
    (namesOf fields).length = fields.length := length_map _

theorem GoType.ascii_of_all {fields : List (String × GoType)}
    (h : ((namesOf fields).all fun n => n.all fun b => decide (b < 0x80)) = true) :
    ∀ n ∈ namesOf fields, ∀ b ∈ n, b < 0x80 := by grind

def GoType.record (fields : List (String × GoType))
    (ascii : ∀ n ∈ namesOf fields, ∀ b ∈ n, b < 0x80 := by exact GoType.ascii_of_all (by decide +kernel))
    (distinct : ((namesOf fields).map foldName).Nodup := by decide +kernel) : GoType :=
  .struct ⟨namesOf fields, ascii, distinct⟩ fun i => (fields.get (i.cast (length_namesOf fields))).2

/-- What an `any` is decoded to. A map is the function from its keys to its values. -/
inductive AnyValue where
  | null
  | bool (b : Bool)
  | number (f : Float64)
  | string (s : GoString)
  | array (items : List AnyValue)
  | object (members : GoString → Option AnyValue)

/-- The values of a type. A pointer, slice or map may be nil. -/
def GoType.Value : GoType → Type
  | string => GoString
  | bool => Bool
  | int => Int
  | float => Float64
  | rawMessage => GoString
  | any => AnyValue
  | pointer elem => Option elem.Value
  | slice elem => Option (List elem.Value)
  | map elem => Option (GoString → Option elem.Value)
  | struct _ types => ∀ i, (types i).Value

def GoType.zero : (t : GoType) → t.Value
  | string => []
  | bool => false
  | int => (0 : Int)
  | float => Float64.finite 0
  | rawMessage => []
  | any => AnyValue.null
  | pointer _ => none
  | slice _ => none
  | map _ => none
  | struct _ types => fun i => (types i).zero

/-! ## Assignments -/

section
variable {α ι ε : Type} [DecidableEq ι] {β : ι → Type}

/-- Each entry names a place and what becomes of the value there, or is an error. -/
def assignAll (target : α → Except ε ((i : ι) × (β i → Except ε (β i)))) : (∀ i, β i) → List α → Except ε (∀ i, β i)
  | s, [] => .ok s
  | s, m :: ms => do
      let place ← target m
      let x ← place.2 (s place.1)
      assignAll target (Function.update s place.1 x) ms

/-- The entries name different places. -/
def PlacesDistinct (target : α → Except ε ((i : ι) × (β i → Except ε (β i)))) (ms : List α) : Prop :=
  ms.Pairwise fun a b => ∀ p q, target a = .ok p → target b = .ok q → p.1 ≠ q.1

/-- **Assignments to different places** succeed exactly when each does from the start, in any order. -/
theorem assignAll_ok_iff {target : α → Except ε ((i : ι) × (β i → Except ε (β i)))}
    {ms : List α} (hdistinct : PlacesDistinct target ms) {s s' : ∀ i, β i} :
    assignAll target s ms = .ok s' ↔ (∀ m ∈ ms, ∃ p, target m = .ok p ∧ p.2 (s p.1) = .ok (s' p.1)) ∧
        ∀ i, (∀ m ∈ ms, ∀ p, target m = .ok p → p.1 ≠ i) → s' i = s i := by
  induction ms generalizing s with
  | nil =>
    constructor
    · intro h
      cases h
      grind
    · rintro ⟨-, hsame⟩
      have : s' = s := funext fun i => hsame i fun _ h => absurd h not_mem_nil
      rw [this]
      rfl
  | cons m ms ih =>
    obtain ⟨hfirst, hrest⟩ := pairwise_cons.mp hdistinct
    unfold assignAll
    rw [accepted_bind_iff]
    constructor
    · rintro ⟨p, htarget, h⟩
      obtain ⟨x, hx, h⟩ := accepted_bind_iff.mp h
      obtain ⟨hall, hsame⟩ := (ih hrest).mp h
      -- the later entries leave the place of the first alone, and the first leaves theirs alone
      have hplace : s' p.1 = x := by grind
      grind
    · rintro ⟨hall, hsame⟩
      obtain ⟨⟨p, htarget, hx⟩, hothers⟩ := forall_mem_cons.mp hall
      refine ⟨p, htarget, accepted_bind_iff.mpr ⟨s' p.1, hx, (ih hrest).mpr ⟨?_, ?_⟩⟩⟩
      · grind
      · grind

end

/-! ## Decoding -/

/-- Decoding errors: a wrong type, a number out of range, a member without a field. -/
inductive DecodeError where
  | mismatch
  | outOfRange
  | unknownField (name : GoString)

/-- `strconv.ParseInt(s, 10, 64)` on the text of a number. -/
def parseInt (text : GoString) : Except DecodeError Int :=
  let digits := if text.head? = some 0x2D then List.tail text else text
  if digits.isEmpty || digits.any (fun b => !JsonText.isDigit b) then .error .mismatch
  else
    let n : Int := digits.foldl (fun n b => n * 10 + (b.toNat - 0x30 : Nat)) 0
    let n := if text.head? = some 0x2D then -n else n
    if -2 ^ 63 ≤ n ∧ n < 2 ^ 63 then .ok n else .error .outOfRange

section
-- `strconv.ParseFloat` on the text of a number; `none` is a number out of range
variable (parseFloat : GoString → Option Float64)

/-- The text of a number as a `float64`. -/
def toFloat (text : GoString) : Except DecodeError Float64 :=
  match parseFloat text with
  | some f => .ok f
  | none => .error .outOfRange

mutual

/-- A value decoded into an `any`. -/
def toAny : Json → Except DecodeError AnyValue
  | .null => .ok .null
  | .bool b => .ok (.bool b)
  | .number text => (toFloat parseFloat text).map .number
  | .string _ s => .ok (.string s)
  | .array _ items => (toAnyItems items).map .array
  | .object _ members => (toAnyMembers (fun _ => none) members).map .object

def toAnyItems : List Json → Except DecodeError (List AnyValue)
  | [] => .ok []
  | v :: vs => do
      let x ← toAny v
      let xs ← toAnyItems vs
      return x :: xs

/-- The members of an object, put into a map one after the other. -/
def toAnyMembers (m : GoString → Option AnyValue) :
    List (GoString × Json) → Except DecodeError (GoString → Option AnyValue)
  | [] => .ok m
  | (name, v) :: vs => do
      let x ← toAny v
      toAnyMembers (Function.update m name (some x)) vs

end

def mapTarget {ν : Type} (decodeElem : Json → Except DecodeError ν) (m : GoString × Json) :
    Except DecodeError ((_ : GoString) × (Option ν → Except DecodeError (Option ν))) :=
  .ok ⟨m.1, fun _ => (decodeElem m.2).map some⟩

def structTarget (fields : FieldNames) {β : Fin fields.names.length → Type}
    (decodeField : ∀ i, β i → Json → Except DecodeError (β i)) (m : GoString × Json) :
    Except DecodeError ((i : Fin fields.names.length) × (β i → Except DecodeError (β i))) :=
  match fields.lookup m.1 with
  | none => .error (.unknownField m.1)
  | some i => .ok ⟨i, fun old => decodeField i old m.2⟩

/-- `decodeState.value`, unknown fields disallowed. A `null` clears what can be nil, nothing else. -/
def decodeValue : (t : GoType) → t.Value → Json → Except DecodeError t.Value
  | .string, old, j =>
    match j with
    | .null => .ok old
    | .string _ s => .ok s
    | _ => .error .mismatch
  | .bool, old, j =>
    match j with
    | .null => .ok old
    | .bool b => .ok b
    | _ => .error .mismatch
  | .int, old, j =>
    match j with
    | .null => .ok old
    | .number text => parseInt text
    | _ => .error .mismatch
  | .float, old, j =>
    match j with
    | .null => .ok old
    | .number text => toFloat parseFloat text
    | _ => .error .mismatch
  | .rawMessage, _, j => .ok j.text
  | .any, _, j => toAny parseFloat j
  | .pointer elem, old, j =>
    match j with
    | .null => .ok none
    | j => (decodeValue elem (old.getD elem.zero) j).map some
  | .slice elem, _, j =>
    match j with
    | .null => .ok none
    | .array _ items => (items.mapM (decodeValue elem elem.zero)).map some
    | _ => .error .mismatch
  | .map elem, old, j =>
    match j with
    | .null => .ok none
    | .object _ members =>
      (assignAll (mapTarget fun v => decodeValue elem elem.zero v) (old.getD fun _ => none) members).map some
    | _ => .error .mismatch
  | .struct fields types, old, j =>
    match j with
    | .null => .ok old
    | .object _ members => assignAll (structTarget fields fun i old v => decodeValue (types i) old v) old members
    | _ => .error .mismatch

end

end BitAgent.Lib
