/-
# Processor.Retention — what a reclassification keeps of a torrent's content row

The transaction of `persist` for one torrent: `restoreReleaseAttributes` and `restoreLLMEnglishAudio` read the rows
that are there into the incoming row, rows of other ids are deleted and the incoming row is upserted. So there is at
most one row. A failure of the transaction changes nothing. Left out: the contents and tags, and the removal of the
torrent.
-/
import Mathlib.Data.List.Basic

namespace BitAgent.Processor.Retention

/-- `model.ReleaseAttributes`; two have the same JSON exactly when they are equal. -/
structure ReleaseAttributes where
  version : Nat
  parser : String
  sourceNameSHA256 : String
  claims : List (String × String)
  deriving DecidableEq

inductive EnglishAudioSource where
  | name
  | llm
  deriving DecidableEq

/-- A row of `torrent_contents`. -/
structure Row where
  id : String
  englishAudio : Option Bool
  englishAudioSource : Option EnglishAudioSource
  releaseAttributes : Option ReleaseAttributes
  deriving DecidableEq

/-- The new classification's row, the name it is from, and whether the transaction fails otherwise. -/
structure Persist where
  row : Row
  name : String
  fails : Bool

/-- The name of the torrent, the hash of names, and `model.ReleaseAttributesParser`. -/
structure Torrent where
  name : String
  sha256Hex : String → String
  parser : String

/-- `errReleaseAttributesChanged`, or another failure. -/
inductive PersistError where
  | releaseAttributesChanged
  | transactionFailed

def retainedAttributes (t : Torrent) :
    List Row → Option ReleaseAttributes → Except PersistError (Option ReleaseAttributes)
  | [], retained => .ok retained
  | row :: rows, retained =>
    match row.releaseAttributes with
    | none => retainedAttributes t rows retained
    | some a =>
      if a.version ≠ 1 ∨ a.parser ≠ t.parser ∨ a.sourceNameSHA256 ≠ t.sha256Hex t.name then
        .error .releaseAttributesChanged
      else if retained.any (· ≠ a) then .error .releaseAttributesChanged
      else retainedAttributes t rows (some a)

def restoreReleaseAttributes (t : Torrent) (rows : List Row) (p : Persist) : Except PersistError Row :=
  match retainedAttributes t rows none with
  | .error e => .error e
  | .ok retained =>
    if p.name ≠ t.name then .error .releaseAttributesChanged
    else
      match retained with
      | some a => .ok { p.row with releaseAttributes := some a }
      | none =>
        if p.row.releaseAttributes.any (·.sourceNameSHA256 ≠ t.sha256Hex t.name) then .error .releaseAttributesChanged
        else .ok p.row

/-- `restoreLLMEnglishAudio`: the last of the rows with an `llm` value. -/
def restoreLLMEnglishAudio (rows : List Row) (tc : Row) : Row :=
  if tc.englishAudioSource.isSome then tc
  else
    (rows.filter (·.englishAudioSource = some .llm)).foldl (fun tc ex =>
      { tc with englishAudio := ex.englishAudio, englishAudioSource := ex.englishAudioSource }) tc

def upsert (rows : List Row) (tc : Row) : List Row :=
  if rows.any (·.id = tc.id) then rows.map fun r => if r.id = tc.id then tc else r else rows ++ [tc]

/-- `persist`: rows of another id were loaded before and are deleted. -/
def persist (t : Torrent) (rows : List Row) (p : Persist) : Except PersistError (List Row) :=
  match restoreReleaseAttributes t rows p with
  | .error e => .error e
  | .ok tc =>
    if p.fails then .error .transactionFailed
    else .ok (upsert (rows.filter (·.id = p.row.id)) (restoreLLMEnglishAudio rows tc))

def next (t : Torrent) (rows : List Row) (p : Persist) : List Row :=
  match persist t rows p with
  | .error _ => rows
  | .ok rows => rows

def after (t : Torrent) (rows : List Row) (ps : List Persist) : List Row := ps.foldl (next t) rows

/-! ## One persist -/

section
variable {t : Torrent} {rows : List Row} {p : Persist}

theorem restoreLLMEnglishAudio_id (rows : List Row) (tc : Row) : (restoreLLMEnglishAudio rows tc).id = tc.id ∧
      (restoreLLMEnglishAudio rows tc).releaseAttributes = tc.releaseAttributes := by
  unfold restoreLLMEnglishAudio
  split_ifs
  · exact ⟨rfl, rfl⟩
  · next hsource =>
    clear hsource
    generalize rows.filter _ = existing
    induction existing generalizing tc with
    | nil => exact ⟨rfl, rfl⟩
    | cons ex existing ih => exact ih _

def attributesOf (rows : List Row) : List ReleaseAttributes := rows.filterMap (·.releaseAttributes)

/-- Release attributes that are the parser's for the torrent's name, and all the same. -/
def Agree (t : Torrent) (attributes : List ReleaseAttributes) (retained : Option ReleaseAttributes) : Prop :=
  ∀ a ∈ attributes, (a.version = 1 ∧ a.parser = t.parser ∧ a.sourceNameSHA256 = t.sha256Hex t.name) ∧
    (∀ b ∈ attributes, b = a) ∧ ∀ b, retained = some b → b = a

theorem agree_cons {a : ReleaseAttributes} {as : List ReleaseAttributes} {retained : Option ReleaseAttributes} :
    Agree t (a :: as) retained ↔ (a.version = 1 ∧ a.parser = t.parser ∧ a.sourceNameSHA256 = t.sha256Hex t.name) ∧
      (∀ b, retained = some b → b = a) ∧ Agree t as (some a) := by
  constructor
  · intro h
    obtain ⟨hvalid, hsame, hretained⟩ := h a List.mem_cons_self
    refine ⟨hvalid, hretained, fun b hb => ?_⟩
    obtain ⟨hvalid', hsame', -⟩ := h b (List.mem_cons_of_mem a hb)
    exact ⟨hvalid', fun c hc => hsame' c (List.mem_cons_of_mem a hc), fun c hc => by grind⟩
  · rintro ⟨hvalid, hretained, h⟩
    have hall : ∀ b ∈ as, b = a := fun b hb => ((h b hb).2.2 a rfl).symm
    intro b hb
    obtain rfl : b = a := by grind
    exact ⟨hvalid, by grind, hretained⟩

theorem retainedAttributes_ok_iff (rows : List Row) (retained : Option ReleaseAttributes) :
    (∃ out, retainedAttributes t rows retained = .ok out) ↔ Agree t (attributesOf rows) retained := by
  induction rows generalizing retained with
  | nil => simp [retainedAttributes, Agree, attributesOf]
  | cons r rows ih =>
    unfold retainedAttributes attributesOf
    cases hr : r.releaseAttributes with
    | none => rw [List.filterMap_cons_none hr]; exact ih retained
    | some a =>
      rw [List.filterMap_cons_some hr, agree_cons, ← attributesOf, ← ih]
      cases retained <;> grind

theorem retainedAttributes_eq_none_iff {retained out : Option ReleaseAttributes}
    (h : retainedAttributes t rows retained = .ok out) :
    out = none ↔ retained = none ∧ attributesOf rows = [] := by
  induction rows generalizing retained with
  | nil => grind [retainedAttributes, attributesOf]
  | cons r rows ih => grind [retainedAttributes, attributesOf]

/-- The restoring succeeds exactly when name and attributes are still those of the torrent. -/
theorem restoreReleaseAttributes_ok_iff : (∃ tc, restoreReleaseAttributes t rows p = .ok tc) ↔
      t.name = p.name ∧ Agree t (attributesOf rows) none ∧ (attributesOf rows = [] →
        ∀ a, p.row.releaseAttributes = some a → a.sourceNameSHA256 = t.sha256Hex t.name) := by
  rw [← retainedAttributes_ok_iff]
  unfold restoreReleaseAttributes
  cases hretained : retainedAttributes t rows none with
  | error e => simp
  | ok out =>
    have hnone := retainedAttributes_eq_none_iff hretained
    by_cases hname : p.name = t.name
    · cases out with
      | none =>
        cases p.row.releaseAttributes with
        | none => simp [hname]
        | some a => by_cases ha : a.sourceNameSHA256 = t.sha256Hex t.name <;> simp [hname, hnone.mp rfl, ha]
      | some a =>
        have hsome : attributesOf rows ≠ [] := fun h => by simpa using hnone.mpr ⟨rfl, h⟩
        simp [hname, hsome]
    · simp [hname, Ne.symm hname]

theorem restoreReleaseAttributes_ok {tc : Row} (h : restoreReleaseAttributes t rows p = .ok tc) :
    tc.id = p.row.id ∧ tc.englishAudio = p.row.englishAudio ∧ tc.englishAudioSource = p.row.englishAudioSource := by
  unfold restoreReleaseAttributes at h
  grind

theorem next_eq (h : rows.length ≤ 1) :
    next t rows p = rows ∨ ∃ tc, restoreReleaseAttributes t rows p = .ok tc ∧
      next t rows p = [restoreLLMEnglishAudio rows tc] := by
  unfold next persist
  cases hrestore : restoreReleaseAttributes t rows p with
  | error e => exact .inl rfl
  | ok tc =>
    by_cases hfails : p.fails
    · simp [hfails]
    · right
      have hid : (restoreLLMEnglishAudio rows tc).id = p.row.id :=
        (restoreLLMEnglishAudio_id rows tc).1.trans (restoreReleaseAttributes_ok hrestore).1
      refine ⟨tc, rfl, ?_⟩
      -- the row there, if any, has the id and is replaced, or is deleted
      match rows, h with
      | [], _ => simp [hfails, upsert]
      | [r], _ => by_cases hr : r.id = p.row.id <;> simp [hfails, upsert, hid, hr]

theorem length_next (h : rows.length ≤ 1) : (next t rows p).length ≤ 1 := by grind [next_eq]

theorem length_after (h : rows.length ≤ 1) (ps : List Persist) : (after t rows ps).length ≤ 1 := by
  unfold after
  induction ps generalizing rows with
  | nil => exact h
  | cons p ps ih => exact ih (length_next h)

variable {r : Row}

theorem attributes_next {a : ReleaseAttributes} (hr : r.releaseAttributes = some a) :
    ∃ r', next t [r] p = [r'] ∧ r'.releaseAttributes = some a := by
  grind [next_eq, restoreLLMEnglishAudio_id, restoreReleaseAttributes, retainedAttributes]

theorem attributes_after {a : ReleaseAttributes} (hr : r.releaseAttributes = some a) (qs : List Persist) :
    ∃ r', after t [r] qs = [r'] ∧ r'.releaseAttributes = some a := by
  induction qs generalizing r with
  | nil => exact ⟨r, rfl, hr⟩
  | cons q qs ih =>
    obtain ⟨r', hnext, ha⟩ := attributes_next (t := t) (p := q) hr
    obtain ⟨r'', hafter, ha'⟩ := ih ha
    exact ⟨r'', by rw [← hafter, ← hnext]; rfl, ha'⟩

theorem audio_next (hr : r.englishAudioSource = some .llm) : ∃ r', next t [r] p = [r'] ∧
      (r'.englishAudio = r.englishAudio ∧ r'.englishAudioSource = some .llm ∨
        p.row.englishAudioSource.isSome ∧ r'.englishAudio = p.row.englishAudio ∧
          r'.englishAudioSource = p.row.englishAudioSource) := by
  rcases next_eq (t := t) (p := p) (show [r].length ≤ 1 from Nat.le_refl 1) with hsame | ⟨tc, hrestore, hnext⟩
  · exact ⟨r, hsame, .inl ⟨rfl, hr⟩⟩
  · obtain ⟨-, haudio, hsource⟩ := restoreReleaseAttributes_ok hrestore
    grind [restoreLLMEnglishAudio]

end

/-- Release attributes are kept by any further persists, and an `llm` value of English audio by the next unless its
classification supplies one with a source. -/
theorem retained_over_runs (t : Torrent) (rows : List Row) (hrows : rows.length ≤ 1) (ps : List Persist) :
    ∀ r ∈ after t rows ps, (∀ a, r.releaseAttributes = some a → ∀ qs, ∃ r',
        after t (after t rows ps) qs = [r'] ∧ r'.releaseAttributes = some a) ∧
      (r.englishAudioSource = some .llm → ∀ q, ∃ r', next t (after t rows ps) q = [r'] ∧
        (r'.englishAudio = r.englishAudio ∧ r'.englishAudioSource = some .llm ∨
          q.row.englishAudioSource.isSome ∧ r'.englishAudio = q.row.englishAudio ∧
            r'.englishAudioSource = q.row.englishAudioSource)) := by
  intro r hr
  have hone : after t rows ps = [r] := by grind [List.length_eq_one_iff, length_after]
  rw [hone]
  exact ⟨fun a ha qs => attributes_after ha qs, fun hllm q => audio_next hllm⟩

def enriched : Row := ⟨"1", some true, some .llm, some ⟨1, "p", "n", []⟩⟩

theorem enriched_then_matched :
    after ⟨"n", id, "p"⟩ [enriched] [⟨⟨"2", none, none, none⟩, "n", false⟩] = [{ enriched with id := "2" }] ∧
      ∃ r', after ⟨"n", id, "p"⟩ (after ⟨"n", id, "p"⟩ [enriched] []) [⟨⟨"2", none, none, none⟩, "n", false⟩] = [r'] ∧
        r'.releaseAttributes = some ⟨1, "p", "n", []⟩ :=
  ⟨by decide, (retained_over_runs ⟨"n", id, "p"⟩ [enriched] (by decide) [] enriched (by decide)).1 _ rfl _⟩

end BitAgent.Processor.Retention
