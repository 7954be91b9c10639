/-
# Processors.FillGaps — the receipts of a job only fill gaps in the catalogue

What a step offers for a field: the type it proposes with what the release-name parser finds once that type is known,
then its extraction, then the match if it is confirmed. `apply` fills every empty field with the first offer and leaves
the others alone.
-/
import BitAgent.Lib.GapFill
import BitAgent.Processors.Apply

namespace BitAgent.Processors.Apply

open Lib ProcessorApi List

/-! ## Fields -/

/-- The fields of a record that `apply` writes. -/
inductive Field where
  | contentType
  | match_
  | videoResolution
  | videoSource
  | videoCodec
  | video3D
  | videoModifier
  | releaseGroup
  | episodes
  | releaseAttributes
  | releaseGranularity
  deriving DecidableEq

def Field.all : List Field :=
  [.contentType, .match_, .videoResolution, .videoSource, .videoCodec, .video3D, .videoModifier,
    .releaseGroup, .episodes, .releaseAttributes, .releaseGranularity]

abbrev Field.Value : Field → Type
  | .contentType => String
  | .match_ => CatalogueRef
  | .videoResolution => VideoResolution
  | .videoSource => VideoSource
  | .videoCodec => VideoCodec
  | .video3D => Video3D
  | .videoModifier => VideoModifier
  | .releaseGroup => String
  | .episodes => Episodes
  | .releaseAttributes => ReleaseAttributes
  | .releaseGranularity => ReleaseGranularity

def someEpisodes (e : Episodes) : Option Episodes := if e = [] then none else some e

def TorrentContent.get (tc : TorrentContent) : (f : Field) → Option f.Value
  | .contentType => tc.contentType
  | .match_ => tc.match_
  | .videoResolution => tc.videoResolution
  | .videoSource => tc.videoSource
  | .videoCodec => tc.videoCodec
  | .video3D => tc.video3D
  | .videoModifier => tc.videoModifier
  | .releaseGroup => tc.releaseGroup
  | .episodes => someEpisodes tc.episodes
  | .releaseAttributes => tc.releaseAttributes
  | .releaseGranularity => tc.releaseGranularity

theorem someEpisodes_fill (own offered : Episodes) :
    someEpisodes (fillEpisodes own offered) = (someEpisodes own).or (someEpisodes offered) := by
  grind [someEpisodes, fillEpisodes]

/-! ## Offers -/

variable (core : Core) (src : JobSource) (l : Lease)

/-- The type of a proposal, if looked at, and what the parser finds for it. -/
def typeOffer (tc : TorrentContent) (p : Proposal) : (f : Field) → Option f.Value :=
  if considersType src tc p then
    let found := core.enrichTypeLocally src p.contentType
    fun
      | .contentType => some p.contentType
      | .match_ => none
      | .videoResolution => found.bind (·.videoResolution)
      | .videoSource => found.bind (·.videoSource)
      | .videoCodec => found.bind (·.videoCodec)
      | .video3D => found.bind (·.video3D)
      | .videoModifier => found.bind (·.videoModifier)
      | .releaseGroup => found.bind (·.releaseGroup)
      | .episodes => found.bind fun cl => someEpisodes cl.episodes
      | .releaseAttributes => found.bind (·.releaseAttributes)
      | .releaseGranularity => found.bind fun cl => deriveReleaseGranularity core (some p.contentType)
          (fillEpisodes tc.episodes cl.episodes) src.name
  else fun _ => none

def extracted (ex : Extraction) : (f : Field) → Option f.Value
  | .contentType => none
  | .match_ => none
  | .videoResolution => readVideoResolution core ex
  | .videoSource => readVideoSource core ex
  | .videoCodec => readVideoCodec core ex
  | .video3D => reading parseVideo3D ex.video3D
  | .videoModifier => reading parseVideoModifier ex.videoModifier
  | .releaseGroup => reading some ex.releaseGroup
  | .episodes => someEpisodes (readEpisodes ex)
  | .releaseAttributes => none
  | .releaseGranularity => reading parseReleaseGranularity ex.releaseGranularity

def extractionOffer (tc : TorrentContent) (ex : Extraction) : (f : Field) → Option f.Value
  | .releaseGranularity =>
    if ex.releaseGranularity = "" ∧
        Field.all.any (fun f => fills (tc.get f) (extracted core ex f)) = true then
      deriveReleaseGranularity core tc.contentType (fillEpisodes tc.episodes (readEpisodes ex)) src.name
    else extracted core ex .releaseGranularity
  | f => extracted core ex f

def matchOffer (tc : TorrentContent) (receipt : Receipt) (p : Proposal) : (f : Field) → Option f.Value
  | .match_ =>
    p.match_.bind fun m => tc.contentType.bind fun contentType =>
      match confirmMatch core src l tc contentType receipt.candidates m with
      | .ok true => some { source := some m.source, id := m.id }
      | _ => none
  | _ => none

/-- The proposal of a receipt, if it is merged: apply-mode, completed or excluding, nothing failed or deferred, and
the policies do not refuse the type. -/
def merged? (tc : TorrentContent) (r : Receipt × Nat) : Option Proposal :=
  r.1.result.proposal.filter fun p =>
    decide (l.plan.modeAt r.2 = some .apply) && canEnrich l.plan l.results &&
      (decide (r.1.result.outcome = .completed) || decide (r.1.result.outcome = .excluded)) &&
      !(considersType src tc p && typeRejected core src tc p.contentType)

/-- What a receipt offers for a field: the type with the parser's findings, the extraction, the match. -/
def offered (a : Applied) (r : Receipt × Nat) (f : Field) : Option f.Value :=
  (merged? core src l a.record r).bind fun p =>
    (typeOffer core src a.record p f).or
      ((p.extraction.bind fun ex => extractionOffer core src (takeType core src a.record p) ex f).or
        (matchOffer core src l (mergeProposal core src a.record p).1 r.1 p f))

/-! ## One receipt -/

variable {core src l} {tc : TorrentContent} {p : Proposal}

theorem contentType_eq_none_of_considers (hconsiders : considersType src tc p = true) : tc.contentType = none := by
  grind [considersType, Option.isNone_iff_eq_none]

theorem takeType_get (tc : TorrentContent) (p : Proposal) (f : Field) :
    (takeType core src tc p).get f = (tc.get f).or (typeOffer core src tc p f) := by
  unfold takeType typeOffer
  by_cases hconsiders : considersType src tc p = true
  · rw [if_pos hconsiders, if_pos hconsiders]
    have hnone := contentType_eq_none_of_considers hconsiders
    cases hfound : core.enrichTypeLocally src p.contentType with
    | none => cases f <;> simp [TorrentContent.get, hnone]
    | some cl => cases f <;> simp [TorrentContent.get, copyEnrichment, hnone, someEpisodes_fill]
  · rw [if_neg hconsiders, if_neg hconsiders, Option.or_none]

theorem fillsGap_eq_any {ex : Extraction} (hnone : ex.releaseGranularity = "") :
    fillsGap core tc ex = Field.all.any (fun f => fills (tc.get f) (extracted core ex f)) := by
  have hepisodes : fills (someEpisodes tc.episodes) (someEpisodes (readEpisodes ex)) =
      (decide (tc.episodes = []) && decide (readEpisodes ex ≠ [])) := by grind [fills, someEpisodes]
  have hnever {α : Type} (own : Option α) : fills own none = false := by
    unfold fills
    rw [Option.isSome_none, Bool.and_false]
  unfold fillsGap Field.all
  simp only [any_cons, any_nil, TorrentContent.get, extracted, hnever, hepisodes, reading,
    hnone, if_true, Bool.or_false, Bool.false_or, Bool.or_assoc]

theorem applyExtraction_get (tc : TorrentContent) (ex : Extraction) (f : Field) :
    (applyExtraction core src tc ex).1.get f = (tc.get f).or (extractionOffer core src tc ex f) := by
  cases f with
  | releaseGranularity =>
    show tc.releaseGranularity.or _ = tc.releaseGranularity.or _
    grind [extractionOffer, fillsGap_eq_any, extracted, reading]
  | episodes => exact someEpisodes_fill _ _
  | contentType => exact (Option.or_none).symm
  | match_ => exact (Option.or_none).symm
  | releaseAttributes => exact (Option.or_none).symm
  | videoResolution => rfl
  | videoSource => rfl
  | videoCodec => rfl
  | video3D => rfl
  | videoModifier => rfl
  | releaseGroup => rfl

theorem mergeProposal_get (tc : TorrentContent) (p : Proposal) (f : Field) :
    (mergeProposal core src tc p).1.get f = (tc.get f).or ((typeOffer core src tc p f).or
      (p.extraction.bind fun ex => extractionOffer core src (takeType core src tc p) ex f)) := by
  unfold mergeProposal
  cases p.extraction with
  | none => simp [takeType_get]
  | some ex => simp [applyExtraction_get, takeType_get, Option.or_assoc]

variable {a a' : Applied}

theorem enrich_cases {receipt : Receipt} (henrich : enrich core src l a receipt p = .ok a') :
    a'.tags = applyTags a.tags p ∧ ((∃ m contentType, p.match_ = some m ∧
          (mergeProposal core src a.record p).1.match_ = none ∧
          (mergeProposal core src a.record p).1.contentType = some contentType ∧
          confirmMatch core src l (mergeProposal core src a.record p).1 contentType receipt.candidates m = .ok true ∧
          a'.record = { (mergeProposal core src a.record p).1 with
            match_ := some { source := some m.source, id := m.id } } ∧
          a'.changed = true) ∨
        ((∀ m contentType, p.match_ = some m → (mergeProposal core src a.record p).1.match_ = none →
            (mergeProposal core src a.record p).1.contentType = some contentType →
            confirmMatch core src l (mergeProposal core src a.record p).1 contentType receipt.candidates m ≠ .ok true) ∧
          a'.record = (mergeProposal core src a.record p).1 ∧
          a'.changed = (a.changed || (mergeProposal core src a.record p).2))) := by
  unfold enrich at henrich
  generalize mergeProposal core src a.record p = merged at henrich ⊢
  simp only at henrich
  split at henrich
  · next m contentType hm hfree htype =>
    obtain ⟨confirmed, hconfirmed, hdone⟩ := accepted_bind_iff.mp henrich
    cases confirmed with
    | true =>
      cases hdone
      exact ⟨rfl, .inl ⟨m, contentType, hm, hfree, htype, hconfirmed, rfl, rfl⟩⟩
    | false =>
      cases hdone
      refine ⟨rfl, .inr ⟨?_, rfl, rfl⟩⟩
      grind
  · next hnone =>
    cases henrich
    refine ⟨rfl, .inr ⟨?_, rfl, rfl⟩⟩
    grind

theorem enrich_get {receipt : Receipt} (henrich : enrich core src l a receipt p = .ok a') (f : Field) :
    a'.record.get f = ((mergeProposal core src a.record p).1.get f).or
      (matchOffer core src l (mergeProposal core src a.record p).1 receipt p f) := by
  obtain ⟨-, hcases⟩ := enrich_cases henrich
  generalize mergeProposal core src a.record p = merged at hcases ⊢
  rcases hcases with ⟨m, contentType, hm, hfree, htype, hconfirmed, hrecord, -⟩ | ⟨hnot, hrecord, -⟩
  · grind [TorrentContent.get, matchOffer]
  · rw [hrecord]
    cases f <;> try exact (Option.or_none).symm
    -- a match that is not there yet would have been confirmed
    show merged.1.match_ = merged.1.match_.or _
    cases hfree : merged.1.match_ with
    | some ref => rfl
    | none =>
      unfold matchOffer
      cases hm : p.match_ with
      | none => rfl
      | some m =>
        cases htype : merged.1.contentType with
        | none => rfl
        | some contentType => grind

@[simp] theorem exclude_record (id : String) (r : Result) (a : Applied) : (exclude id r a).record = a.record := by
  unfold exclude
  split <;> rfl

@[simp] theorem exclude_changed (id : String) (r : Result) (a : Applied) : (exclude id r a).changed = a.changed := by
  unfold exclude
  split <;> rfl

@[simp] theorem exclude_tags (id : String) (r : Result) (a : Applied) : (exclude id r a).tags = a.tags := by
  unfold exclude
  split <;> rfl

variable {r : Receipt × Nat}

theorem merged?_of_apply (hmode : l.plan.modeAt r.2 = some .apply) (hproposal : r.1.result.proposal = some p) :
    merged? core src l tc r =
      if canEnrich l.plan l.results = true ∧
          (r.1.result.outcome = .completed ∨ r.1.result.outcome = .excluded) ∧
          (considersType src tc p && typeRejected core src tc p.contentType) = false
      then some p else none := by grind [merged?]

theorem applyReceipt_cases (hreceipt : applyReceipt core src l a r = .ok a') :
    (∃ p id, merged? core src l a.record r = some p ∧ enrich core src l (exclude id r.1.result a) r.1 p = .ok a') ∨
      (merged? core src l a.record r = none ∧ a'.record = a.record ∧ a'.changed = a.changed ∧ a'.tags = a.tags) := by
  unfold applyReceipt at hreceipt
  cases hstep : l.plan.steps[r.2]? with
  | none =>
    rw [hstep] at hreceipt
    cases hreceipt
  | some st =>
    have hmode : l.plan.modeAt r.2 = some st.entry.mode := by
      unfold Plan.modeAt
      rw [hstep, Option.map_some]
    rw [hstep] at hreceipt
    simp only at hreceipt
    split at hreceipt
    · next p happly hproposal =>
      rw [happly] at hmode
      have hmerged : merged? core src l a.record r = _ := merged?_of_apply hmode hproposal
      rw [exclude_record] at hreceipt
      by_cases hskip : canEnrich l.plan l.results = false ∨
          (r.1.result.outcome ≠ .completed ∧ r.1.result.outcome ≠ .excluded)
      · rw [if_pos hskip] at hreceipt
        cases hreceipt
        refine .inr ⟨?_, exclude_record _ _ _, exclude_changed _ _ _, exclude_tags _ _ _⟩
        grind
      rw [if_neg hskip] at hreceipt
      obtain ⟨hcan, houtcome⟩ := not_or.mp hskip
      rw [Bool.not_eq_false] at hcan
      cases hrejected : considersType src a.record p && typeRejected core src a.record p.contentType with
      | true =>
        rw [hrejected, if_pos rfl] at hreceipt
        cases hreceipt
        refine .inr ⟨?_, exclude_record _ _ _, exclude_changed _ _ _, exclude_tags _ _ _⟩
        grind
      | false => grind
    · next hother =>
      cases hreceipt
      refine .inr ⟨?_, rfl, rfl, rfl⟩
      unfold merged?
      cases hproposal : r.1.result.proposal with
      | none => rfl
      | some p => grind

/-- **One receipt fills gaps with its offers.** -/
theorem fills_applyReceipt :
    GapFill.Fills (fun a : Applied => a.record.get) (applyReceipt core src l) (offered core src l) := by
  intro a r a' hreceipt f
  show a'.record.get f = (a.record.get f).or _
  unfold offered
  rcases applyReceipt_cases hreceipt with ⟨p, id, hmerged, henrich⟩ | ⟨hnone, hrecord, -⟩
  · grind [enrich_get, exclude_record, mergeProposal_get]
  · rw [hnone, hrecord, Option.bind_none, Option.or_none]

/-! ## The flag -/

theorem or_eq_left_of_fills {α : Type} {own offer : Option α} (h : fills own offer = false) : own.or offer = own := by
  unfold fills at h
  cases own with
  | some v => rfl
  | none =>
    cases offer with
    | none => rfl
    | some v => cases h

theorem applyExtraction_unchanged {ex : Extraction} (h : (applyExtraction core src tc ex).2 = false) :
    (applyExtraction core src tc ex).1 = tc := by
  obtain ⟨hgap, hgranularity⟩ := Bool.or_eq_false_iff.mp h
  have hgap' := hgap
  unfold fillsGap at hgap'
  simp only [Bool.or_eq_false_iff] at hgap'
  obtain ⟨⟨⟨⟨⟨⟨hresolution, hsource⟩, hcodec⟩, h3d⟩, hmodifier⟩, hgroup⟩, hepisodes⟩ := hgap'
  have hfill : fillEpisodes tc.episodes (readEpisodes ex) = tc.episodes := by grind [fillEpisodes]
  unfold applyExtraction
  simp only [hgap, Bool.false_eq_true, if_false] at hgranularity ⊢
  rw [or_eq_left_of_fills hresolution, or_eq_left_of_fills hsource, or_eq_left_of_fills hcodec,
    or_eq_left_of_fills h3d, or_eq_left_of_fills hmodifier, or_eq_left_of_fills hgroup, hfill]
  by_cases hnone : ex.releaseGranularity = ""
  · simp [hnone]
  · simp only [hnone, ne_eq, not_false_eq_true, decide_true, Bool.true_and, if_true] at hgranularity ⊢
    rw [or_eq_left_of_fills hgranularity]

theorem mergeProposal_unchanged (h : (mergeProposal core src tc p).2 = false) :
    (mergeProposal core src tc p).1 = tc := by
  have htype (hconsiders : considersType src tc p = false) : takeType core src tc p = tc := by grind [takeType]
  grind [mergeProposal, applyExtraction_unchanged]

theorem applyReceipt_unchanged (hreceipt : applyReceipt core src l a r = .ok a') (h : a'.changed = false) :
    a.changed = false ∧ a'.record = a.record := by
  rcases applyReceipt_cases hreceipt with ⟨p, id, -, henrich⟩ | ⟨-, hrecord, hchanged, -⟩
  · obtain ⟨-, ⟨-, -, -, -, -, -, -, htrue⟩ | ⟨-, hrecord, hchanged⟩⟩ := enrich_cases henrich
    · rw [h] at htrue
      cases htrue
    · grind [exclude_changed, mergeProposal_unchanged, exclude_record]
  · exact ⟨hchanged.symm.trans h, hrecord⟩

/-! ## All receipts -/

theorem apply_eq_ok {exclusion : Option ExclusionRow} {out : Applied} (happly : apply core src l exclusion = .ok out) :
    ∃ record, src.record = .ok record ∧
      l.results.zipIdx.foldlM (applyReceipt core src l) (start src exclusion record) = .ok out := by
  obtain ⟨record, hrecord, hrest⟩ := accepted_bind_iff.mp happly
  obtain ⟨a, hloop, hrest⟩ := accepted_bind_iff.mp hrest
  refine ⟨record, hrecord, ?_⟩
  have hunchanged : ∀ (rs : List (Receipt × Nat)) (b : Applied),
      rs.foldlM (applyReceipt core src l) b = .ok a → a.changed = false →
      b.changed = false ∧ a.record = b.record := by
    intro rs
    induction rs with
    | nil =>
      intro b hb h
      obtain rfl : b = a := Except.ok.inj hb
      exact ⟨h, rfl⟩
    | cons r rs ih => grind [accepted_bind_iff, applyReceipt_unchanged]
  unfold persist at hrest
  cases hchanged : a.changed with
  | true =>
    rw [hchanged, if_pos rfl] at hrest
    obtain ⟨-, -, hdone⟩ := accepted_bind_iff.mp hrest
    obtain rfl : a = out := Except.ok.inj hdone
    exact hloop
  | false =>
    rw [if_neg (by rw [hchanged]; exact Bool.false_ne_true)] at hrest
    have hsame : a.record = record := (hunchanged _ _ hloop hchanged).2
    have hout : out = a := by rw [← Except.ok.inj hrest, ← hsame]
    rw [hout]
    exact hloop

/-! ## Shadow steps -/

def applyView (plan : Plan) (results : List Receipt) : List (Nat × Option Receipt) :=
  results.zipIdx.map fun r => (r.2, if plan.modeAt r.2 = some .apply then some r.1 else none)

/-- Everything that is written but the outcome texts. -/
def Applied.effects (a : Applied) : Applied := { a with outcomes := [] }

theorem completedProposals_eq_view (plan : Plan) (results : List Receipt) :
    completedProposals plan results = (applyView plan results).filterMap fun v =>
      v.2.bind fun r => if r.result.outcome = .completed then r.result.proposal else none := by
  rw [completedProposals, proposalsOf, applyView, filterMap_map]
  congr 1
  funext r
  by_cases happly : plan.modeAt r.2 = some .apply <;> simp [happly]

theorem canEnrich_eq_view (plan : Plan) (results : List Receipt) :
    canEnrich plan results = (applyView plan results).all fun v =>
      v.2.all fun r => !(decide (r.result.outcome = .failed) || decide (r.result.outcome = .deferred)) := by
  rw [canEnrich, applyView, all_map]
  congr 1
  funext r
  by_cases happly : plan.modeAt r.2 = some .apply <;> simp [happly]

variable {results : List Receipt}

theorem applyReceipt_of_view (hview : applyView l.plan results = applyView l.plan l.results) :
    applyReceipt core src { l with results := results } = applyReceipt core src l := by
  have hproposals : completedProposals l.plan results = completedProposals l.plan l.results := by
    grind [completedProposals_eq_view]
  have hcan : canEnrich l.plan results = canEnrich l.plan l.results := by
    rw [canEnrich_eq_view, hview, ← canEnrich_eq_view]
  have htype : effectiveType { l with results := results } = effectiveType l := by
    unfold effectiveType
    simp only [hproposals]
  have htitle : effectiveTitleAndYear { l with results := results } = effectiveTitleAndYear l := by
    unfold effectiveTitleAndYear
    simp only [hproposals]
  have hcandidates : candidates core src { l with results := results } = candidates core src l := by
    unfold candidates
    simp only [htype, htitle]
  have hconfirm : confirmMatch core src { l with results := results } = confirmMatch core src l := by
    unfold confirmMatch
    simp only [hcandidates, htitle]
  have henrich : enrich core src { l with results := results } = enrich core src l := by
    unfold enrich
    simp only [hconfirm]
  funext a r
  unfold applyReceipt
  simp only [hcan, henrich]

theorem enrich_effects (a : Applied) (receipt : Receipt) (p : Proposal) :
    (enrich core src l a receipt p).map Applied.effects =
      (enrich core src l a.effects receipt p).map Applied.effects := by
  unfold enrich
  rw [show a.effects.record = a.record from rfl]
  generalize mergeProposal core src a.record p = merged
  cases p.match_ with
  | none => rfl
  | some m =>
    simp only
    cases merged.1.match_ with
    | some ref => rfl
    | none =>
      cases merged.1.contentType with
      | none => rfl
      | some contentType =>
        simp only
        cases confirmMatch core src l merged.1 contentType receipt.candidates m with
        | error e => rfl
        | ok confirmed => cases confirmed <;> rfl

theorem applyReceipt_effects (a : Applied) (r : Receipt × Nat) : (applyReceipt core src l a r).map Applied.effects =
      (applyReceipt core src l a.effects r).map Applied.effects := by
  have hexclude (id : String) : (exclude id r.1.result a.effects) = (exclude id r.1.result a).effects := by
    unfold exclude
    split <;> rfl
  unfold applyReceipt
  cases l.plan.steps[r.2]? with
  | none => rfl
  | some st =>
    simp only
    split
    · next p happly hproposal =>
      rw [hexclude]
      generalize exclude st.entry.id r.1.result a = b
      rw [show b.effects.record = b.record from rfl]
      split_ifs
      · rfl
      · rfl
      · rfl
      · exact enrich_effects b r.1 p
    · rfl

theorem applyReceipt_blotted (a : Applied) {r' : Receipt × Nat} (hindex : r.2 = r'.2)
    (hsame : l.plan.modeAt r.2 = some .apply → r.1 = r'.1) :
    (applyReceipt core src l a r).map Applied.effects = (applyReceipt core src l a r').map Applied.effects := by
  by_cases hmode : l.plan.modeAt r.2 = some .apply
  · rw [Prod.ext (hsame hmode) hindex]
  · have hshadow : ∀ q : Receipt × Nat, q.2 = r.2 → (applyReceipt core src l a q).map Applied.effects =
        l.plan.steps[r.2]?.elim (.error "index out of range") fun _ => .ok a.effects := by
      intro q hq
      unfold applyReceipt
      rw [hq]
      cases hstep : l.plan.steps[r.2]? with
      | none => rfl
      | some st =>
        simp only
        split
        · grind [Plan.modeAt]
        · rfl
    rw [hshadow r rfl, hshadow r' hindex.symm]

theorem loop_effects {rs rs' : List (Receipt × Nat)}
    (hview : rs.map (fun r => (r.2, if l.plan.modeAt r.2 = some .apply then some r.1 else none)) =
      rs'.map fun r => (r.2, if l.plan.modeAt r.2 = some .apply then some r.1 else none))
    (ha : a.effects = a'.effects) :
    (rs.foldlM (applyReceipt core src l) a).map Applied.effects =
      (rs'.foldlM (applyReceipt core src l) a').map Applied.effects := by
  induction rs generalizing rs' a a' with
  | nil =>
    obtain rfl := map_eq_nil_iff.mp hview.symm
    exact congrArg Except.ok ha
  | cons r rs ih =>
    cases rs' with
    | nil => cases hview
    | cons r' rs' =>
      obtain ⟨hhead, htail⟩ := List.cons.inj hview
      obtain ⟨hindex, hreceipt⟩ := Prod.mk.inj hhead
      have hstep : (applyReceipt core src l a r).map Applied.effects =
          (applyReceipt core src l a' r').map Applied.effects := by
        grind [applyReceipt_effects, applyReceipt_blotted]
      grind [map_bind_congr]

theorem persist_effects (record : TorrentContent) (ha : a.effects = a'.effects) :
    (persist core record a).map Applied.effects = (persist core record a').map Applied.effects := by
  have hpersist (b : Applied) : (persist core record b).map Applied.effects =
      (persist core record b.effects).map Applied.effects := by
    unfold persist
    rw [show b.effects.changed = b.changed from rfl, show b.effects.record = b.record from rfl]
    split_ifs
    · cases core.update b.record <;> rfl
    · rfl
  rw [hpersist a, hpersist a', ha]

/-- **Shadow steps change nothing.** -/
theorem apply_effects_of_view (hview : applyView l.plan results = applyView l.plan l.results)
    (exclusion : Option ExclusionRow) :
    (apply core src { l with results := results } exclusion).map Applied.effects =
      (apply core src l exclusion).map Applied.effects := by
  unfold apply
  rw [applyReceipt_of_view hview]
  refine map_bind_congr (f := id) rfl ?_
  rintro record _ rfl
  exact map_bind_congr (loop_effects hview rfl) fun b b' hb => persist_effects record hb

/-! ## `apply` only fills gaps -/

/-- **`apply` only fills gaps.** A field that was set is unchanged; an empty one gets the first offer in the order of
the steps: of a step its type with what the release-name parser finds, its extraction, its match. Shadow steps make no
difference. -/
theorem apply_fills_first_offer (core : Core) (src : JobSource) (l : Lease)
    (exclusion : Option ExclusionRow) (record : TorrentContent) (out : Applied)
    (hrecord : src.record = .ok record) (happly : apply core src l exclusion = .ok out) :
    (∀ (f : Field) (v : f.Value), record.get f = some v → out.record.get f = some v) ∧
      (∀ f : Field, record.get f = none → out.record.get f =
        GapFill.firstOffer (applyReceipt core src l) (offered core src l) (start src exclusion record)
          l.results.zipIdx f) ∧
      ∀ results, applyView l.plan results = applyView l.plan l.results →
        (apply core src { l with results := results } exclusion).map Applied.effects = .ok out.effects := by
  obtain ⟨record', hrecord', hloop⟩ := apply_eq_ok happly
  obtain rfl : record = record' := Except.ok.inj (hrecord.symm.trans hrecord')
  have hget := GapFill.get_foldlM fills_applyReceipt hloop
  refine ⟨?_, ?_, ?_⟩
  · grind [start]
  · grind [start]
  · intro results hview
    rw [apply_effects_of_view hview, happly]
    rfl

def sampleCore : Core where
  forbiddenTypes := fun _ => false
  names := none
  filter := none
  inferVideoResolution := fun _ => none
  inferVideoSource := fun _ => none
  inferVideoCodec := fun _ => none
  completeSeries := fun _ => false
  enrichTypeLocally := fun _ _ => some { videoResolution := some .v1080p }
  parseVideoContent := fun _ _ => .ok { title := "Example", year := 2020 }
  normalizeIdentityTitle := id
  search := fun _ _ => .ok []
  content := fun _ _ _ => .ok none
  update := fun _ => .ok ()

def sampleSource : JobSource where
  infoHash := []
  name := "Example.2020.1080p.mkv"
  extension := some "mkv"
  filesStatus := "single"
  files := []
  hint := ""
  tags := []
  isAnime := false
  record := .ok {}

def sampleLease (steps : List (Mode × Proposal)) : Lease where
  plan :=
    { epoch := 1, corePolicy := "core"
      steps := steps.map fun st => sampleStep "step" st.1 none
      admission := { generation := 1, basisPoints := 10000, seed := "", policyVersion := "all-v1" } }
  input := {}
  results := steps.map fun st => { result := sampleResult (sampleJob .classify []) st.2, candidates := [] }
  step := steps.length - 1

/-- A shadow step proposes a release group, the apply-mode step after it another. -/
def groupLease : Lease :=
  sampleLease [(.shadow, { extraction := some { releaseGroup := "SHADOW" } }),
    (.apply, { extraction := some { releaseGroup := "GROUP" } })]

/-- The group of the apply-mode step is the first offer. -/
theorem group_filled : ∃ out, apply sampleCore sampleSource groupLease none = .ok out ∧ out.record.get .releaseGroup =
        GapFill.firstOffer (applyReceipt sampleCore sampleSource groupLease)
          (offered sampleCore sampleSource groupLease) (start sampleSource none {})
          groupLease.results.zipIdx .releaseGroup ∧
      out.record.get .releaseGroup = some "GROUP" :=
  ⟨_, rfl, (apply_fills_first_offer sampleCore sampleSource groupLease none {} _ rfl rfl).2.1 .releaseGroup rfl, rfl⟩

/-- The only step proposes type and 720p; the parser fills the resolution before that is looked at. -/
theorem parser_before_first_proposal :
    let proposal : Proposal := { contentType := "movie", extraction := some { videoResolution := "V720p" } }
    parseVideoResolution "V720p" = some .v720p ∧
      (apply sampleCore sampleSource (sampleLease [(.apply, proposal)]) none).map
        (fun a => (a.record.contentType, a.record.videoResolution)) = .ok (some "movie", some .v1080p) := by
  refine ⟨by decide, rfl⟩

end BitAgent.Processors.Apply
