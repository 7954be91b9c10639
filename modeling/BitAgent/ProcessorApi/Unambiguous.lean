/-
# ProcessorApi.Unambiguous — when an accepted message has one meaning

`Decode` refuses duplicate keys byte for byte, while the standard decoder also takes a name that is the same up to
case. An accepted message is unambiguous (no two members go to one field, and their order does not matter) exactly
when no object that is decoded into a struct has two names that differ in case only.
-/
import BitAgent.ProcessorApi.Decode
import BitAgent.ProcessorApi.WireTypes

namespace BitAgent.ProcessorApi

open Lib Lib.JsonText

/-! ## Messages and their objects -/

def structObjectsOf (t : GoType) (raw : GoString) : List StructObject :=
  match document raw with
  | some v => structObjects t v
  | none => []

def MessageReordered (t : GoType) (raw raw' : GoString) : Prop :=
  ∃ v v', document raw = some v ∧ document raw' = some v' ∧ Reordered t v v'

section
variable (parseFloat : GoString → Option Float64)

/-- No two members go to one field, and the decoded value does not depend on their order. -/
def Unambiguous (t : GoType) (into : t.Value) (raw : GoString) : Prop :=
  (∀ o ∈ structObjectsOf t raw, o.AssignedOnce) ∧
  ∀ raw', raw'.length ≤ maxBody → MessageReordered t raw raw' →
    decode parseFloat raw' t into = decode parseFloat raw t into

/-! ## The condition -/

/-- **An accepted message is unambiguous** exactly when no object that is decoded into a struct has two
names that differ in case only. -/
theorem accepted_unambiguous_iff (t : GoType) (into : t.Value) (raw : GoString) {x : t.Value}
    (haccepted : decode parseFloat raw t into = .ok x) :
    Unambiguous parseFloat t into raw ↔ ∀ o ∈ structObjectsOf t raw, o.CaseDistinct := by
  obtain ⟨-, v, hdocument, hwalk, hvalue⟩ := decodeBounded_ok_iff.mp haccepted
  have hnames := walk_namesDistinct hwalk
  have hobjects : structObjectsOf t raw = structObjects t v := by
    unfold structObjectsOf
    rw [hdocument]
  -- the walk has refused equal names, and the decoder unknown ones
  have hsame : ∀ o ∈ structObjects t v, o.AssignedOnce ↔ o.CaseDistinct := fun o ho =>
    o.assignedOnce_iff (structObjects_names_nodup t hnames ho) (decodeValue_names_known parseFloat t hvalue ho)
  unfold Unambiguous
  rw [hobjects]
  constructor
  · grind
  · intro hcase
    have honce : ∀ o ∈ structObjects t v, o.AssignedOnce := fun o ho => (hsame o ho).mpr (hcase o ho)
    refine ⟨honce, fun raw' hlength hreordered => ?_⟩
    obtain ⟨w, v', hw, hdocument', hvv⟩ := hreordered
    obtain rfl := Option.some.inj (hdocument.symm.trans hw)
    rw [haccepted]
    refine decodeBounded_ok_iff.mpr ⟨hlength, v', hdocument', walk_reordered t hvv hwalk, ?_⟩
    grind [decodeValue_reordered]

end

/-! ## Two manifests -/

def plainManifest : GoString := GoString.ofString "\x7b\"contract\":\"x\",\"processor\":\x7b\"id\":\"p\"\x7d\x7d"
def variantManifest : GoString := GoString.ofString "\x7b\"contract\":\"x\",\"Contract\":\"y\"\x7d"
def swappedManifest : GoString := GoString.ofString "\x7b\"Contract\":\"y\",\"contract\":\"x\"\x7d"

/-- `Decode` into an empty manifest, for texts without numbers. -/
def decodeManifest (raw : GoString) : Except DecodeFailure manifestType.Value :=
  decode (fun _ => none) raw manifestType manifestType.zero

/-- The field `Contract` of a manifest. -/
def manifestContract (m : manifestType.Value) : GoString := (show ∀ _i : Fin 5, _ from m) 0

theorem exists_ok {ε α : Type} {e : Except ε α} (h : e.toOption.isSome = true) : ∃ x, e = .ok x := by
  cases e with
  | error e => cases h
  | ok x => exact ⟨x, rfl⟩

/-- A manifest whose names differ by more than case. -/
theorem plainManifest_unambiguous : ∃ x, decodeManifest plainManifest = .ok x ∧
      Unambiguous (fun _ => none) manifestType manifestType.zero plainManifest := by
  have hok : (decodeManifest plainManifest).toOption.isSome = true := by decide +kernel
  obtain ⟨x, hx⟩ := exists_ok hok
  have hcase : ∀ o ∈ structObjectsOf manifestType plainManifest, o.CaseDistinct := by decide +kernel
  exact ⟨x, hx, (accepted_unambiguous_iff _ manifestType _ plainManifest hx).mpr hcase⟩

/-- Both orders are accepted, both members go to `Contract`, and the last one wins. -/
theorem variantManifest_ambiguous : (∃ x, decodeManifest variantManifest = .ok x) ∧
    ¬Unambiguous (fun _ => none) manifestType manifestType.zero variantManifest ∧
    (decodeManifest variantManifest).toOption.map manifestContract = some (GoString.ofString "y") ∧
    (decodeManifest swappedManifest).toOption.map manifestContract = some (GoString.ofString "x") := by
  have hok : (decodeManifest variantManifest).toOption.isSome = true := by decide +kernel
  have htwice : ¬∀ o ∈ structObjectsOf manifestType variantManifest, o.AssignedOnce := by decide +kernel
  refine ⟨exists_ok hok, fun h => htwice h.1, ?_, ?_⟩
  · decide +kernel
  · decide +kernel

end BitAgent.ProcessorApi
