/-
# Cataloguerecovery.Privacy — two readings of private evidence

The categories `private` and `bitgrab` take a torrent out of every public path. `QBPrivacySQL` reads source and
category without regard to case and white space; the removal check and the filter of this package ask for exactly
`qbittorrent` and trim only spaces. The second reading implies the first, and they agree about a row iff it
is *plain*. A category that is NULL is private for neither and is not represented.
-/
import BitAgent.Cataloguerecovery.Runs

namespace BitAgent.Cataloguerecovery

open Lib Metainfo Verdicts Catalogueguard List

/-! ## Two readings of a row -/

/-- `lower` of SQL keeps white space at the ends, and the client's name is in lower case. -/
structure LowerKeeps (lower : List Char → List Char) : Prop where
  first : ∀ c ∈ tagWhitespace, ∀ l, (lower (c :: l)).head? = some c
  last : ∀ c ∈ tagWhitespace, ∀ l, (lower (l ++ [c])).getLast? = some c
  name : lower "qbittorrent".toList = "qbittorrent".toList

section
variable (pg : Platform)

def sharedPrivate (e : LabelEvidence) : Bool := qbPrivacySQL pg.lower e.source e.category

/-- The row as `protected` and `Filter` read it. -/
def recoveryPrivate (e : LabelEvidence) : Bool := decide (e.source = "qbittorrent") && privateCategory pg e.category

end

/-- The source is in normal form, and the category has no white space but spaces at its ends. -/
def LabelEvidence.Plain (e : LabelEvidence) : Prop :=
  e.source = "qbittorrent" ∧ sqlTrim e.category = trimSpace e.category

instance (e : LabelEvidence) : Decidable e.Plain := inferInstanceAs (Decidable (_ ∧ _))

variable {pg : Platform} {hash : ID} {db : Database}

theorem privateEvidence_eq_true_iff : privateEvidence pg db hash = true ↔
      ∃ e ∈ db.labelEvidence, e.infoHash = hash ∧ recoveryPrivate pg e = true := by
  grind [privateEvidence, recoveryPrivate]

theorem not_whitespace_of_word (hlower : LowerKeeps pg.lower) {l : List Char}
    (hword : pg.lower l ∈ ["private".toList, "bitgrab".toList]) :
    (∀ c, l.head? = some c → c ∉ tagWhitespace) ∧ ∀ c, l.getLast? = some c → c ∉ tagWhitespace := by
  constructor
  · intro c hc hspace
    obtain ⟨rest, rfl⟩ := head?_eq_some_iff.mp hc
    have hfirst := hlower.first c hspace rest
    rcases mem_pair.mp hword with hprivate | hbitgrab
    · rw [hprivate] at hfirst
      cases hfirst
      exact absurd hspace (by decide)
    · rw [hbitgrab] at hfirst
      cases hfirst
      exact absurd hspace (by decide)
  · intro c hc hspace
    obtain ⟨front, rfl⟩ := getLast?_eq_some_iff.mp hc
    have hlast := hlower.last c hspace front
    rcases mem_pair.mp hword with hprivate | hbitgrab
    · rw [hprivate] at hlast
      cases hlast
      exact absurd hspace (by decide)
    · rw [hbitgrab] at hlast
      cases hlast
      exact absurd hspace (by decide)

/-- **The package reads less**: exactly the plain rows that the shared predicate calls private. -/
theorem recoveryPrivate_iff (hlower : LowerKeeps pg.lower) (e : LabelEvidence) :
    recoveryPrivate pg e = true ↔ sharedPrivate pg e = true ∧ e.Plain := by
  unfold recoveryPrivate sharedPrivate qbPrivacySQL privateCategory LabelEvidence.Plain
  simp only [Bool.and_eq_true, decide_eq_true_eq]
  constructor
  · rintro ⟨hsource, hword⟩
    obtain ⟨hhead, hlast⟩ := not_whitespace_of_word hlower hword
    have htrim := trimSpace_eq_sqlTrim hhead hlast
    refine ⟨⟨?_, by rw [htrim]; exact hword⟩, hsource, htrim.symm⟩
    rw [hsource, show trimSpace "qbittorrent" = "qbittorrent".toList by decide]
    exact hlower.name
  · grind

/-! ## What follows for a hash -/

/-- The package spares the hash: no removal, no restoration, and the filter does not pass it. -/
structure Spared (pg : Platform) (db : Database) (hash : ID) : Prop where
  removal : ∀ store hashes mechanism reason now snaps db',
    removeBatch pg store db hashes mechanism reason now = .ok (snaps, db') →
      db'.catalogue.rowsOf (some hash) = db.catalogue.rowsOf (some hash)
  restoration : ∀ store id now restored db' row, restore pg store db id now = .ok (restored, db') →
    db.snapshots.get? id.toNat = some row → row.infoHash = hash → restored = false ∧ db' = db
  filter : ∀ bloomKept s, db.latestSnapshot hash = some s → s.state = .restored → keeps pg db bloomKept hash = false

theorem authority_of_evidence (h : privateEvidence pg db hash = true) : authority pg db hash = true := by
  unfold authority
  rw [h, Bool.or_true]

theorem removeAll_rowsOf {store : Store} {mechanism reason : String} {now : Time} {hashes : List ID} {tx tx' : Tx}
    {snaps : List Snapshot} (hauthority : authority pg tx.db hash = true)
    (h : removeAll pg store mechanism reason now tx hashes = .ok (snaps, tx')) :
    tx'.db.catalogue.rowsOf (some hash) = tx.db.catalogue.rowsOf (some hash) := by
  induction hashes generalizing tx snaps with
  | nil =>
    cases h
    rfl
  | cons first hashes ih =>
    obtain ⟨snap, rest, mid, -, hone, hmany⟩ := removeAll_cons h
    by_cases heq : first = hash
    · subst heq
      rcases removeTx_cases hone with ⟨-, -, rfl⟩ | ⟨payload, -, hprot, -, -, -⟩
      · exact ih hauthority hmany
      · -- the check refuses the hash
        grind [protected_, reject_bind_eq_ok]
    · have helse := removeTx_elsewhere hone heq
      have hkept : authority pg mid.db hash = true := by
        rw [helse.authority]
        exact hauthority
      exact (ih hkept hmany).trans helse.own

theorem spared_of_evidence (h : privateEvidence pg db hash = true) : Spared pg db hash where
  removal store hashes mechanism reason now snaps db' hok := by
    obtain ⟨-, -, tx, hall, -, rfl⟩ := removeBatch_ok_iff.mp hok
    exact removeAll_rowsOf (authority_of_evidence h) hall
  restoration store id now restored db' row hok hget hhash := by
    rcases restore_cases hok with hsame | ⟨row', c, -, hget', hcheck, -, -⟩
    · exact hsame
    · obtain rfl := Option.some.inj (hget.symm.trans hget')
      obtain ⟨-, -, hfree, -⟩ := checkRestore_ok hcheck
      grind [authority_of_evidence]
  filter bloomKept s hs hstate := by
    have hsettled : s.state ≠ .prepared := by
      rw [hstate]
      exact SnapshotState.noConfusion
    rw [keeps_of_latest hs hsettled]
    cases hvalid : validRestoration pg db s with
    | false => exact Bool.and_false _
    | true =>
      have hpublic := (validRestoration_iff.mp hvalid).2.evidence
      rw [(latestSnapshot_some hs).1, h] at hpublic
      cases hpublic

def restoredSnapshot (hash : ID) (id : Nat) : SnapshotRow where
  id := id
  infoHash := hash
  sourceDigest := ""
  contractVersion := contractVersion
  state := .restored
  reason := "purge"
  snapshot := { tables := [], schema := "" }
  payloadBytes := 0
  createdAt := 1
  expiresAt := 2
  restoredVerdictEventID := some 1

theorem restoredSnapshot_id (hash : ID) (id : Nat) : (restoredSnapshot hash id).id = id := rfl

def restoredDatabase (evidence : List LabelEvidence) (hash : ID) : Database :=
  { sampleDatabase .empty with
    labelEvidence := evidence
    snapshotCount := 1
    snapshots := Serial.empty.insert (restoredSnapshot hash) (restoredSnapshot_id hash)
    ledger := Ledger.empty.write (restoration (restoredSnapshot hash 1)) }

theorem restoredDatabase_passes {evidence : List LabelEvidence}
    (h : privateEvidence pg (restoredDatabase evidence hash) hash = false) :
    ∃ s, (restoredDatabase evidence hash).latestSnapshot hash = some s ∧ s.state = .restored ∧
      keeps pg (restoredDatabase evidence hash) [] hash = true := by
  have hs : (restoredDatabase evidence hash).latestSnapshot hash = some (restoredSnapshot hash 1) := by
    have hhash : ∀ id, decide ((restoredSnapshot hash id).infoHash = hash) = true := fun _ => decide_eq_true rfl
    show ((Serial.empty.insert _ (restoredSnapshot_id hash)).maxKey _).bind
      (Serial.empty.insert _ (restoredSnapshot_id hash)).get? = _
    rw [Serial.maxKey_insert, if_pos (hhash _), Option.bind_some, Serial.get?_insert, if_pos rfl]
    rfl
  have hvalid : validRestoration pg (restoredDatabase evidence hash) (restoredSnapshot hash 1) =
      true := by
    refine validRestoration_iff.mpr ⟨?_, rfl, h, rfl, fun r hr => nomatch hr⟩
    refine ⟨⟨hash, .restored, mechanismOperator, none⟩, ⟨1, restoration (restoredSnapshot hash 1)⟩, 1,
      ?_, rfl, ?_, rfl, ?_, rfl, rfl, rfl, rfl, rfl⟩
    · exact (Ledger.state_write _ _ _).trans (if_pos rfl)
    · exact (Ledger.event_write _ _ _).trans (if_pos rfl)
    · exact Ledger.lastEvent_write_self _ _
  grind [restoredSnapshot, keeps_of_latest]

/-! ## When the readers agree -/

def Agree (pg : Platform) (evidence : List LabelEvidence) : Prop :=
  (∀ e ∈ evidence, recoveryPrivate pg e = sharedPrivate pg e) ∧ ∀ db : Database, db.labelEvidence = evidence →
      ∀ e ∈ evidence, sharedPrivate pg e = true → Spared pg db e.infoHash

/-- **When the readers agree**: exactly if every row that is private to the shared predicate is plain; and private
hashes are spared exactly if each has a private row that is plain. -/
theorem privacy_readers_agree_iff (pg : Platform) (hlower : LowerKeeps pg.lower) (evidence : List LabelEvidence) :
    (Agree pg evidence ↔ ∀ e ∈ evidence, sharedPrivate pg e = true → e.Plain) ∧
    ((∀ db : Database, db.labelEvidence = evidence →
        ∀ e ∈ evidence, sharedPrivate pg e = true → Spared pg db e.infoHash) ↔
      ∀ e ∈ evidence, sharedPrivate pg e = true →
        ∃ e' ∈ evidence, e'.infoHash = e.infoHash ∧ sharedPrivate pg e' = true ∧ e'.Plain) := by
  have hspares : ∀ db : Database, db.labelEvidence = evidence → ∀ hash,
      (∃ e ∈ evidence, e.infoHash = hash ∧ sharedPrivate pg e = true ∧ e.Plain) ↔
        privateEvidence pg db hash = true := by
    intro db hdb hash
    rw [privateEvidence_eq_true_iff, hdb]
    grind [recoveryPrivate_iff]
  refine ⟨⟨?_, ?_⟩, ?_, ?_⟩
  · rintro ⟨hagree, -⟩ e he hshared
    grind [recoveryPrivate_iff]
  · intro hplain
    refine ⟨?_, ?_⟩
    · grind [recoveryPrivate_iff]
    · grind [spared_of_evidence]
  · intro hall e he hshared
    rw [hspares (restoredDatabase evidence e.infoHash) rfl]
    by_contra hnone
    rw [Bool.not_eq_true] at hnone
    obtain ⟨s, hs, hstate, hkeeps⟩ := restoredDatabase_passes hnone
    have hdrops := (hall (restoredDatabase evidence e.infoHash) rfl e he hshared).filter [] s hs hstate
    rw [hkeeps] at hdrops
    cases hdrops
  · grind [spared_of_evidence]

theorem tagWhitespace_toLower {c : Char} (hc : c ∈ tagWhitespace) : c.toLower = c := by
  have hall : tagWhitespace.all (fun d => d.toLower = d) = true := by decide
  exact of_decide_eq_true (all_eq_true.mp hall c hc)

theorem samplePlatform_lower : LowerKeeps samplePlatform.lower where
  first := by
    intro c hc l
    show ((c :: l).map Char.toLower).head? = some c
    rw [map_cons, tagWhitespace_toLower hc]
    rfl
  last := by
    intro c hc l
    show ((l ++ [c]).map Char.toLower).getLast? = some c
    grind [tagWhitespace_toLower]
  name := by decide

theorem spaced_category_agrees :
    Agree samplePlatform [{ infoHash := sampleHash 7, source := "qbittorrent", category := " Private " }] :=
  (privacy_readers_agree_iff samplePlatform samplePlatform_lower _).1.mpr (by decide)

def tabbedDatabase : Database :=
  { sampleDatabase sampleCatalogue with
    labelEvidence := [{ infoHash := sampleHash 7, source := "qbittorrent", category := "private\t" }] }

/-- **A private torrent is removed**; the same evidence with the source in capitals is not read either. -/
theorem tabbed_category_removed : (tabbedDatabase.labelEvidence.all (sharedPrivate samplePlatform)) = true ∧
    (tabbedDatabase.catalogue.torrent? (sampleHash 7)).isSome = true ∧
    ((removeBatch samplePlatform sampleStore tabbedDatabase [sampleHash 7] mechanismBlocking "purge"
      1).toOption.map fun out => (out.2.catalogue.torrent? (sampleHash 7)).isSome) = some false ∧
    sharedPrivate samplePlatform { infoHash := sampleHash 7, source := "qBittorrent", category := "private" } = true ∧
    recoveryPrivate samplePlatform
      { infoHash := sampleHash 7, source := "qBittorrent", category := "private" } = false := by
  decide +kernel

end BitAgent.Cataloguerecovery
