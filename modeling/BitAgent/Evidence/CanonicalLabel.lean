/-
# Evidence.CanonicalLabel — which evidence a torrent's label comes from

`Insert` moves a label only to strictly stronger evidence, so over any sequence of insertions the label is the first
`argmax` of the rank of the rows that bear one (`Projects`). The rows are not all the events: the unique index on
source, kind, instance and object id absorbs an event that agrees with an earlier one in these. The rows are all
events iff the four fields identify an event (`KeysIdentify`), and then the order does not matter.
-/
import Mathlib
import BitAgent.Evidence.Store
import BitAgent.Lib.Run

namespace BitAgent.LabelEvidence

open Lib List

/-! ## Events -/

/-- `Insert` does not refuse the event out of hand. -/
def Usable (e : Evidence) : Prop := e.infoHash ≠ [] ∨ e.downloadID ≠ ""

/-- The event says something about the label of a torrent. -/
def Bears (hash : InfoHash) (e : Evidence) : Prop := e.infoHash = hash ∧ hash ≠ [] ∧ isLabelBearing e.kind = true

instance (hash : InfoHash) (e : Evidence) : Decidable (Bears hash e) := inferInstanceAs (Decidable (_ ∧ _))

/-- Strength first, then the time of observation. -/
def rank (e : Evidence) : Nat ×ₗ Time := toLex (e.strength, e.observedAt)

/-- The event is inserted, and no earlier one has its key. -/
def Entered (events : List Evidence) (e : Evidence) : Prop :=
  Usable e ∧ ∃ earlier later, events = earlier ++ e :: later ∧ ∀ d ∈ earlier, Usable d → d.dedupeKey ≠ e.dedupeKey

/-- The columns of the unique index tell the events apart. -/
def KeysIdentify (events : List Evidence) : Prop := ∀ d ∈ events, ∀ e ∈ events, d.dedupeKey = e.dedupeKey → d = e

variable {hash : InfoHash} {e : Evidence}

theorem Bears.usable (h : Bears hash e) : Usable e := .inl (h.1 ▸ h.2.1)

variable {events : List Evidence}

theorem Entered.mem (h : Entered events e) : e ∈ events := by
  obtain ⟨-, earlier, later, rfl, -⟩ := h
  exact mem_append_right _ (mem_cons_self ..)

theorem not_entered_nil (e : Evidence) : ¬ Entered [] e := fun h => not_mem_nil h.mem

theorem entered_concat (events : List Evidence) (a e : Evidence) : Entered (events ++ [a]) e ↔
      Entered events e ∨ (e = a ∧ Usable a ∧ ∀ d ∈ events, Usable d → d.dedupeKey ≠ a.dedupeKey) := by
  constructor
  · rintro ⟨husable, earlier, later, hsplit, hfirst⟩
    rcases eq_nil_or_concat later with rfl | ⟨later, last, rfl⟩
    · grind [append_inj']
    · rw [concat_eq_append, ← cons_append, ← append_assoc] at hsplit
      obtain ⟨rfl, -⟩ := append_inj' hsplit rfl
      exact .inl ⟨husable, earlier, later, rfl, hfirst⟩
  · rintro (⟨husable, earlier, later, rfl, hfirst⟩ | ⟨rfl, husable, hfirst⟩)
    · exact ⟨husable, earlier, later ++ [a], by simp, hfirst⟩
    · exact ⟨husable, events, [], rfl, hfirst⟩

theorem entered_iff_of_keysIdentify (h : KeysIdentify events) (e : Evidence) :
    Entered events e ↔ e ∈ events ∧ Usable e := by
  constructor
  · intro hentered
    exact ⟨hentered.mem, hentered.1⟩
  · rintro ⟨hmem, husable⟩
    obtain ⟨earlier, later, rfl, hnew⟩ := eq_append_cons_of_mem hmem
    refine ⟨husable, earlier, later, rfl, ?_⟩
    intro d hd _ hkey
    exact hnew (h d (mem_append_left _ hd) e hmem hkey ▸ hd)

/-! ## `Insert`, by cases -/

inductive InsertStep (s : Store) (e : Evidence) : Store → Prop
  | refused (husable : ¬ Usable e) : InsertStep s e s
  | absorbed (husable : Usable e)
      (hknown : ∃ r ∈ s.evidence.table.rows, r.evidence.dedupeKey = e.dedupeKey) :
      InsertStep s e { s with evidence := s.evidence.draw }
  | entered {s' : Store} (husable : Usable e)
      (hnew : ∀ r ∈ s.evidence.table.rows, r.evidence.dedupeKey ≠ e.dedupeKey)
      (hrows : s'.evidence.table.rows = s.evidence.table.rows ++ [⟨s.evidence.next, e⟩])
      (hlabels : ∀ hash, s'.labels hash =
        if Bears hash e then some (upsertCanonical (s.labels hash) (labelOf ⟨s.evidence.next, e⟩))
        else s.labels hash) : InsertStep s e s'

theorem usable_iff (e : Evidence) : Usable e ↔ ¬ (e.infoHash.isEmpty && e.downloadID == "") = true := by grind [Usable]

theorem insertStep (s : Store) (e : Evidence) : InsertStep s e (s.insert e).1 := by
  unfold Store.insert
  split_ifs with hempty hdup hbears
  · exact .refused fun h => (usable_iff e).mp h hempty
  · refine .absorbed ((usable_iff e).mpr hempty) ?_
    simpa using hdup
  · refine .entered ((usable_iff e).mpr hempty) (by simpa using hdup) (Serial.rows_insert ..) ?_
    intro hash
    rw [Bool.and_eq_true, Bool.not_eq_true', isEmpty_eq_false_iff] at hbears
    by_cases hhash : hash = e.infoHash
    · subst hhash
      rw [if_pos ⟨rfl, hbears⟩]
      exact Function.update_self ..
    · rw [if_neg fun h => hhash h.1.symm]
      exact Function.update_of_ne hhash ..
  · refine .entered ((usable_iff e).mpr hempty) (by simpa using hdup) (Serial.rows_insert ..) ?_
    intro hash
    rw [if_neg]
    rintro ⟨rfl, hne, hkind⟩
    exact hbears (by simp [hne, hkind])

/-! ## The label is an argmax -/

/-- The rows that bear a label for a torrent. -/
def bearing (s : Store) (hash : InfoHash) : List EvidenceRow :=
  s.evidence.table.rows.filter fun r => Bears hash r.evidence

variable {s : Store}

theorem mem_bearing {r : EvidenceRow} :
    r ∈ bearing s hash ↔ r ∈ s.evidence.table.rows ∧ Bears hash r.evidence := by
  unfold bearing
  rw [mem_filter, decide_eq_true_iff]

/-- The tables hold what a sequence of events leaves. -/
structure Projects (s : Store) (events : List Evidence) : Prop where
  rows : ∀ e, (∃ r ∈ s.evidence.table.rows, r.evidence = e) ↔ Entered events e
  known : ∀ d ∈ events, Usable d → ∃ r ∈ s.evidence.table.rows, r.evidence.dedupeKey = d.dedupeKey
  labels : ∀ hash, s.labels hash = ((bearing s hash).argmax fun r => rank r.evidence).map labelOf

theorem upsertCanonical_labelOf (c r : EvidenceRow) : upsertCanonical (some (labelOf c)) (labelOf r) =
      if rank c.evidence < rank r.evidence then labelOf r else labelOf c := by
  unfold rank
  simp only [upsertCanonical, Prod.Lex.toLex_lt_toLex]
  rfl

theorem upsertCanonical_argmax (rows : List EvidenceRow) (r : EvidenceRow) :
    some (upsertCanonical ((rows.argmax fun r => rank r.evidence).map labelOf) (labelOf r)) =
      ((rows ++ [r]).argmax fun r => rank r.evidence).map labelOf := by
  rw [argmax_concat]
  cases rows.argmax fun r => rank r.evidence with
  | none => rfl
  | some c => grind [upsertCanonical_labelOf]

theorem Projects.exists_row_iff (h : Projects s events) (e : Evidence) :
    (∃ r ∈ s.evidence.table.rows, r.evidence.dedupeKey = e.dedupeKey) ↔
      ∃ d ∈ events, Usable d ∧ d.dedupeKey = e.dedupeKey := by
  constructor
  · rintro ⟨r, hr, hkey⟩
    have hentered := (h.rows r.evidence).mp ⟨r, hr, rfl⟩
    exact ⟨r.evidence, hentered.mem, hentered.1, hkey⟩
  · rintro ⟨d, hd, husable, hkey⟩
    obtain ⟨r, hr, hrow⟩ := h.known d hd husable
    exact ⟨r, hr, hrow.trans hkey⟩

theorem Projects.skip {s' : Store} (h : Projects s events) {a : Evidence}
    (hrows : s'.evidence.table.rows = s.evidence.table.rows) (hlabels : s'.labels = s.labels)
    (hknown : Usable a → ∃ r ∈ s.evidence.table.rows, r.evidence.dedupeKey = a.dedupeKey) :
    Projects s' (events ++ [a]) where
  rows := by
    intro e
    rw [hrows, h.rows, entered_concat, or_iff_left]
    rintro ⟨rfl, husable, hfirst⟩
    obtain ⟨d, hd, hd', hkey⟩ := (h.exists_row_iff e).mp (hknown husable)
    exact hfirst d hd hd' hkey
  known := by
    intro d hd husable
    rw [hrows]
    rcases mem_append.mp hd with hold | hlast
    · exact h.known d hold husable
    · grind
  labels := by
    intro hash
    unfold bearing
    rw [hlabels, hrows]
    exact h.labels hash

theorem Projects.insert (h : Projects s events) (a : Evidence) :
    Projects (s.insert a).1 (events ++ [a]) := by
  generalize hs' : (s.insert a).1 = s'
  have hstep := insertStep s a
  rw [hs'] at hstep
  cases hstep with
  | refused husable => exact h.skip rfl rfl fun hu => absurd hu husable
  | absorbed husable hknown => exact h.skip rfl rfl fun _ => hknown
  | entered husable hnew hrows hlabels =>
    have hfirst : ∀ d ∈ events, Usable d → d.dedupeKey ≠ a.dedupeKey := by
      intro d hd hd' hkey
      obtain ⟨r, hr, hrow⟩ := (h.exists_row_iff a).mpr ⟨d, hd, hd', hkey⟩
      exact hnew r hr hrow
    refine ⟨?_, ?_, ?_⟩
    · intro e
      rw [entered_concat, ← h.rows, hrows]
      constructor
      · grind
      · rintro (⟨r, hr, rfl⟩ | ⟨rfl, -, -⟩)
        · exact ⟨r, mem_append_left _ hr, rfl⟩
        · exact ⟨⟨s.evidence.next, e⟩, mem_append_right _ (mem_singleton.mpr rfl), rfl⟩
    · intro d hd hd'
      rw [hrows]
      rcases mem_append.mp hd with hold | hlast
      · obtain ⟨r, hr, hrow⟩ := h.known d hold hd'
        exact ⟨r, mem_append_left _ hr, hrow⟩
      · obtain rfl := mem_singleton.mp hlast
        exact ⟨⟨s.evidence.next, d⟩, mem_append_right _ (mem_singleton.mpr rfl), rfl⟩
    · intro hash
      unfold bearing
      rw [hlabels, hrows, filter_append, filter_singleton, h.labels]
      by_cases hbears : Bears hash a
      · simp only [hbears, decide_true, if_true, cond_true]
        exact upsertCanonical_argmax ..
      · simp only [hbears, decide_false, if_false, cond_false, append_nil]
        rfl

theorem projects_insertAll (events : List Evidence) : Projects (Store.empty.insertAll events) events := by
  induction events using List.reverseRecOn with
  | nil =>
    refine ⟨fun e => iff_of_false ?_ (not_entered_nil e), fun d hd => absurd hd not_mem_nil, fun _ => rfl⟩
    rintro ⟨r, hr, -⟩
    cases hr
  | append_singleton events a ih =>
    unfold Store.insertAll at ih ⊢
    rw [Run.foldl_concat]
    exact ih.insert a

/-! ## The label of a torrent -/

def TakenFrom (s : Store) (label : CanonicalLabel) (e : Evidence) : Prop :=
  ∃ r ∈ s.evidence.table.rows, r.evidence = e ∧ label = labelOf r

def Greatest (events : List Evidence) (hash : InfoHash) (e : Evidence) : Prop :=
  Entered events e ∧ Bears hash e ∧ ∀ d, Entered events d → Bears hash d → rank d ≤ rank e

theorem exists_taken_of_bears (hentered : Entered events e) (hbears : Bears hash e) :
    ∃ label, (Store.empty.insertAll events).canonicalForInfoHash hash = some label := by
  have h := projects_insertAll events
  obtain ⟨r, hr, rfl⟩ := (h.rows e).mpr hentered
  have hmem := mem_bearing.mpr ⟨hr, hbears⟩
  unfold Store.canonicalForInfoHash
  rw [h.labels]
  cases hmax : (bearing (Store.empty.insertAll events) hash).argmax fun r => rank r.evidence with
  | none =>
    rw [argmax_eq_none.mp hmax] at hmem
    cases hmem
  | some c => exact ⟨labelOf c, rfl⟩

theorem greatest_of_label {label : CanonicalLabel}
    (hlabel : (Store.empty.insertAll events).canonicalForInfoHash hash = some label) :
    ∃ e, Greatest events hash e ∧ TakenFrom (Store.empty.insertAll events) label e := by
  have h := projects_insertAll events
  unfold Store.canonicalForInfoHash at hlabel
  rw [h.labels, Option.map_eq_some_iff] at hlabel
  obtain ⟨c, hmax, rfl⟩ := hlabel
  obtain ⟨hc, hcb⟩ := mem_bearing.mp (argmax_mem hmax)
  refine ⟨c.evidence, ⟨(h.rows _).mp ⟨c, hc, rfl⟩, hcb, ?_⟩, c, hc, rfl, rfl⟩
  intro d hd hdb
  obtain ⟨r, hr, rfl⟩ := (h.rows d).mpr hd
  exact le_of_mem_argmax (f := fun r => rank r.evidence) (mem_bearing.mpr ⟨hr, hdb⟩) hmax

theorem label_insert_of_absorbed {a : Evidence}
    (h : (∃ d ∈ events, Usable d ∧ d.dedupeKey = a.dedupeKey) ∨ ¬ Bears hash a) :
    (Store.empty.insertAll (events ++ [a])).canonicalForInfoHash hash =
      (Store.empty.insertAll events).canonicalForInfoHash hash := by
  have hproj := projects_insertAll events
  unfold Store.insertAll at hproj ⊢
  rw [Run.foldl_concat]
  generalize hs : events.foldl (fun s e => (Store.insert s e).1) Store.empty = s at hproj
  generalize hs' : (s.insert a).1 = s'
  have hstep := insertStep s a
  rw [hs'] at hstep
  cases hstep with
  | refused husable => rfl
  | absorbed husable hknown => rfl
  | entered husable hnew hrows hlabels =>
    rcases h with hdup | hbears
    · obtain ⟨r, hr, hrow⟩ := (hproj.exists_row_iff a).mpr hdup
      exact absurd hrow (hnew r hr)
    · exact (hlabels hash).trans (if_neg hbears)

/-- **The canonical label** comes from an entered event of the greatest strength and, among these, observation time.
If the unique index tells the events apart, all usable events were entered; and if the greatest is unique, the order
does not matter. An event that is absorbed or bears no label for the torrent leaves the label alone. -/
theorem canonicalLabel_greatest (events : List Evidence) (hash : InfoHash) :
    (∀ label, (Store.empty.insertAll events).canonicalForInfoHash hash = some label →
      ∃ e, Greatest events hash e ∧ TakenFrom (Store.empty.insertAll events) label e) ∧
    (∀ e, Entered events e → Bears hash e →
      ∃ label, (Store.empty.insertAll events).canonicalForInfoHash hash = some label) ∧
    (KeysIdentify events → ∀ e ∈ events, Bears hash e → (∀ d ∈ events, Bears hash d → d ≠ e → rank d < rank e) →
      ∀ events', (∀ d, d ∈ events' ↔ d ∈ events) →
        ∃ label, (Store.empty.insertAll events').canonicalForInfoHash hash = some label ∧
          TakenFrom (Store.empty.insertAll events') label e) ∧
    (∀ a, (∃ d ∈ events, Usable d ∧ d.dedupeKey = a.dedupeKey) ∨ isLabelBearing a.kind = false →
      (Store.empty.insertAll (events ++ [a])).canonicalForInfoHash hash =
        (Store.empty.insertAll events).canonicalForInfoHash hash) := by
  refine ⟨fun _ => greatest_of_label, fun _ => exists_taken_of_bears, ?_, ?_⟩
  · intro hkeys e hmem hbears hunique events' hsame
    have hkeys' : KeysIdentify events' := by
      intro d hd c hc
      exact hkeys d ((hsame d).mp hd) c ((hsame c).mp hc)
    have hentered : Entered events' e := (entered_iff_of_keysIdentify hkeys' e).mpr ⟨(hsame e).mpr hmem, hbears.usable⟩
    obtain ⟨label, hlabel⟩ := exists_taken_of_bears hentered hbears
    obtain ⟨c, ⟨hc, hcb, hmax⟩, htaken⟩ := greatest_of_label hlabel
    have hce : c = e := by
      by_contra hne
      exact absurd (hmax e hentered hbears) (not_le_of_gt (hunique c ((hsame c).mp hc.mem) hcb hne))
    exact ⟨label, hlabel, hce ▸ htaken⟩
  · rintro a (hdup | hkind)
    · exact label_insert_of_absorbed (.inl hdup)
    · refine label_insert_of_absorbed (.inr ?_)
      rintro ⟨-, -, hbears⟩
      rw [hkind] at hbears
      cases hbears

/-- What the client's categories say of a torrent at one poll. -/
def categoryPoll (category : String) (strength : Nat) (observedAt : Time) : Evidence where
  source := .qbittorrent
  kind := .pollCategories
  sourceInstance := "main"
  sourceObjectID := "a1"
  infoHash := [161]
  category := category
  observedAt := observedAt
  strength := strength

/-- A torrent moves from a public to a private category. The second observation has the key of the first, so the label
stays. -/
theorem moved_category_absorbed :
    let first := categoryPoll "tv" strengthQBCategoryPublic 0
    let second := categoryPoll "private" strengthQBCategoryPrivate 60
    rank first < rank second ∧
    ((Store.empty.insertAll [first, second]).canonicalForInfoHash [161]).map (·.resolvedStrength) = some 30 ∧
    ((Store.empty.insertAll [second, first]).canonicalForInfoHash [161]).map (·.resolvedStrength) = some 40 := by
  refine ⟨?_, ?_, ?_⟩
  · unfold rank
    rw [Prod.Lex.toLex_lt_toLex]
    exact .inl (by decide)
  · decide
  · decide

end BitAgent.LabelEvidence
