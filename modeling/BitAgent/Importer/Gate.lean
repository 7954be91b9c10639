/-
# Importer.Gate — the block lists in front of an import

`gateItems` of `internal/importer/importer.go` on lists of hashes: the CSAM filter writes over the list that it reads,
the blocking filter makes a new one. It chooses the items by their own hash (`gateItems_eq`), as `persistItems` was
modelled; so with the name policy on or off nothing that is rejected is inserted.
-/
import BitAgent.Csamblocklist.Service
import BitAgent.Importer.Persist

namespace BitAgent.Importer

open Lib Metainfo

/-- `Filter` of the block list. -/
def csamFilter (csam : ID → Bool) (hashes : List ID) : List ID :=
  let (buf, written) := Csamblocklist.filterLoop csam hashes.length hashes 0
  buf.take written

theorem csamFilter_eq (csam : ID → Bool) (hashes : List ID) : csamFilter csam hashes = hashes.filter fun h => !csam h :=
  Csamblocklist.filterLoop_spec csam rfl (List.suffix_refl _) List.nil_prefix (by simp)

def Gate.gateItemsByHash (g : Gate) (items : List Item) : Except String (List Item) :=
  if items.length = 0 then .ok items
  else
    let hashes := csamFilter g.csam (items.map (·.infoHash))
    match g.blocking with
    | none => .error "import blocking gate"
    | some blocked =>
      let hashes := hashes.filter fun h => !blocked h
      if hashes.length = items.length then .ok items
      else .ok (items.filter fun it => hashes.contains it.infoHash)

theorem gateItems_eq (g : Gate) (items : List Item) : g.gateItemsByHash items = g.gateItems items := by
  unfold Gate.gateItemsByHash Gate.gateItems
  cases g.blocking with
  | none => cases items <;> rfl
  | some blocked =>
    simp only [csamFilter_eq, List.filter_filter, List.length_eq_zero_iff, List.isEmpty_iff]
    split_ifs with hnil hall
    · rfl
    · -- nothing was dropped
      rw [List.filter_map, List.length_map] at hall
      have hself := List.filter_eq_self.mpr (List.length_filter_eq_length_iff.mp hall)
      refine congrArg _ (hself.symm.trans (List.filter_congr fun it _ => ?_))
      exact Bool.and_comm _ _
    · refine congrArg _ (List.filter_congr fun it hit => ?_)
      rw [Bool.eq_iff_iff, List.contains_iff_mem, List.mem_filter]
      simp [List.mem_map_of_mem hit, and_comm]

/-- The block lists reject a hash. -/
def Gate.rejects (g : Gate) (h : ID) : Bool := g.csam h || g.blocking.any (· h)

theorem unchanged_without_answer {g : Gate} {importID : String} {imported : List String} {fault : Option String}
    {before db db' : Db} {items written : List Item} (hblocking : g.blocking = none)
    (h : persistItems g importID imported fault before db items = .ok (db', written)) : db' = db := by
  have hgate : ∀ l : List Item, g.gateItems l = if l.isEmpty then .ok l else .error "import blocking gate" := by
    intro l
    rw [Gate.gateItems, hblocking]
  unfold persistItems persistItemsTx at h
  simp only [hgate] at h
  cases henabled : g.enabled with
  | true =>
    cases hadmitted : (items.filter (g.admits before)).isEmpty <;>
      simp only [henabled, hadmitted, reduceIte, bind, Except.bind, Except.mapError] at h <;> grind
  | false =>
    cases hempty : items.isEmpty <;>
      simp only [henabled, hempty, reduceIte, bind, Except.bind] at h <;> grind

/-- **What an import inserts**: items that the name policy admits and the block lists do not reject, all of them
unless the transaction finds one excluded; nothing without an answer of the blocking manager. -/
theorem import_gated (g : Gate) (importID : String) (imported : List String) (fault : Option String) (before db : Db)
    (items : List Item) :
    g.gateItemsByHash = g.gateItems ∧ ∀ db' written,
      persistItems g importID imported fault before db items = .ok (db', written) →
        (∀ h t, db.torrents.get? h = none → db'.torrents.get? h = some t → g.rejects h = false) ∧
        ((∀ it, it ∈ written ↔ it ∈ items ∧ g.admits before it = true ∧ g.rejects it.infoHash = false) ∨
          written = [] ∧ db' = db ∧ writeItems g importID imported db (g.kept before items) = .error .excluded) ∧
        (g.blocking = none → db' = db) := by
  refine ⟨funext (gateItems_eq g), fun db' written h => ?_⟩
  have hkept : ∀ it, it ∈ g.kept before items ↔
      it ∈ items ∧ g.admits before it = true ∧ g.rejects it.infoHash = false := by
    intro it
    simp [Gate.kept, Gate.rejects]
  rcases persistItems_ok h with ⟨rfl, ⟨hnone, rfl⟩ | hwrite⟩ | ⟨hnone, rfl, hexcluded⟩
  · exact ⟨by grind, .inl hkept, fun _ => rfl⟩
  · refine ⟨fun hash t hnew ht => ?_, .inl hkept, fun hblocking => unchanged_without_answer hblocking h⟩
    · rw [(writeItems_ok hwrite).1] at ht
      have hfind := (get?_insertTorrents db.torrents _ hash).symm.trans ht
      grind
  · exact ⟨by grind, .inr ⟨hnone, rfl, hexcluded⟩, fun _ => rfl⟩

end BitAgent.Importer
