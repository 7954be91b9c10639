/-
# Processors.ContextAgreement — the selector context and what `apply` persists

`buildTorrentContext` and `apply` take tags and content type from the same receipts in separate loops. The context
takes tags as they are spelled and completed results only; `apply` takes tags in the spelling of the catalogue,
merges excluding results as well, and asks the policies. They agree where none of this makes a difference.
-/
import BitAgent.Processors.FillGaps

namespace BitAgent.Processors.Apply

open Lib ProcessorApi List

/-! ## Receipts on which the two agree -/

def CatalogueTag (tag : String) : Prop := tag ≠ "" ∧ normalizeDBTag tag = tag

def JobSource.toSource (src : JobSource) : Source where
  tags := src.tags
  extension := src.extension
  files := src.files
  contents := [{ isAnime := src.isAnime }]

/-- Receipts that both loops read alike: apply-mode, tags in the catalogue's spelling, nothing but the exclusion in
excluding ones. -/
structure Plain (plan : Plan) (rs : List (Receipt × Nat)) : Prop where
  modes : ∀ r ∈ rs, plan.modeAt r.2 = some .apply
  tags : ∀ r ∈ rs, r.1.result.outcome = .completed → ∀ p, r.1.result.proposal = some p →
    ∀ tag, tag ∈ p.addTags ∨ tag ∈ p.removeTags → CatalogueTag tag
  exclusions : ∀ r ∈ rs, r.1.result.outcome = .excluded → ∀ p, r.1.result.proposal = some p →
    p.contentType = "" ∧ p.addTags = [] ∧ p.removeTags = []

variable {r : Receipt × Nat} {rs : List (Receipt × Nat)} {plan : Plan}

theorem Plain.tail (h : Plain plan (r :: rs)) : Plain plan rs where
  modes := fun q hq => h.modes q (.tail _ hq)
  tags := fun q hq => h.tags q (.tail _ hq)
  exclusions := fun q hq => h.exclusions q (.tail _ hq)

variable (core : Core) (src : JobSource)

/-- The first type that is proposed, if the record has none, is one that `apply` takes. -/
def FirstTypeAccepted (tc : TorrentContent) (proposals : List Proposal) : Prop :=
  tc.contentType = none → ∀ p, proposals.find? (fun p => p.contentType ≠ "") = some p →
    src.hintIsEmpty = true ∧ typeRejected core src tc p.contentType = false

/-- The context shows what `apply` has so far. -/
structure Shows (tc : TorrentContext) (a : Applied) : Prop where
  tags : ∀ tag, tag ∈ tc.tags ↔ tag ∈ a.tags
  contentType : tc.contentType = a.record.contentType.getD ""
  typed : a.record.contentType ≠ some ""

/-! ## One receipt -/

theorem mem_catalogueTags {tags : List String} (h : ∀ tag ∈ tags, CatalogueTag tag) (tag : String) :
    tag ∈ catalogueTags tags ↔ tag ∈ tags := by
  unfold catalogueTags
  have hsame : tags.map normalizeDBTag = tags := by
    conv_rhs => rw [← map_id tags]
    exact map_congr_left fun t ht => (h t ht).2
  rw [hsame, mem_filter]
  constructor
  · exact fun hmem => hmem.1
  · intro hmem
    exact ⟨hmem, decide_eq_true (h tag hmem).1⟩

theorem mem_applyTags (tags : List String) (p : Proposal) (tag : String) :
    tag ∈ applyTags tags p ↔
      (tag ∈ tags ∨ tag ∈ catalogueTags p.addTags) ∧ tag ∉ catalogueTags p.removeTags := by
  simp [applyTags]

variable {core src} {l : Lease} {a a' : Applied} {p : Proposal} {receipt : Receipt}

theorem enrich_contentType (henrich : enrich core src l a receipt p = .ok a') :
    a'.record.contentType =
      if considersType src a.record p then some p.contentType else a.record.contentType := by
  have hget := enrich_get henrich .contentType
  rw [mergeProposal_get] at hget
  have hextraction : (p.extraction.bind fun ex =>
    extractionOffer core src (takeType core src a.record p) ex .contentType) = none := by
    cases p.extraction <;> rfl
  have htype : typeOffer core src a.record p .contentType =
      if considersType src a.record p then some p.contentType else none := by
    unfold typeOffer
    split_ifs <;> rfl
  rw [hextraction, htype, Option.or_none, show matchOffer core src l _ receipt p .contentType = none
    from rfl, Option.or_none] at hget
  rw [show a'.record.contentType = a'.record.get .contentType from rfl, hget]
  show a.record.contentType.or _ = _
  grind [contentType_eq_none_of_considers]

theorem enrich_languages (henrich : enrich core src l a receipt p = .ok a') :
    a'.record.languages = a.record.languages := by
  have htype : (takeType core src a.record p).languages = a.record.languages := by
    unfold takeType
    split_ifs
    · cases core.enrichTypeLocally src p.contentType <;> rfl
    · rfl
  have hmerged : (mergeProposal core src a.record p).1.languages = a.record.languages := by
    unfold mergeProposal
    cases p.extraction <;> exact htype
  obtain ⟨-, ⟨_, _, -, -, -, -, hrecord, -⟩ | ⟨-, hrecord, -⟩⟩ := enrich_cases henrich
  · rw [hrecord]
    exact hmerged
  · rw [hrecord, hmerged]

variable {tc : TorrentContext}

theorem addReceipt_of_unread (h : r.1.result.outcome ≠ .completed ∨ r.1.result.proposal = none) :
    (addReceipt plan tc r).tags = tc.tags ∧ (addReceipt plan tc r).contentType = tc.contentType := by
  unfold addReceipt
  split_ifs
  · unfold applyResult
    split
    · split_ifs <;> exact ⟨rfl, rfl⟩
    · grind
    · exact ⟨rfl, rfl⟩
  · exact ⟨rfl, rfl⟩

theorem typeRejected_congr {tc tc' : TorrentContent} (h : tc'.languages = tc.languages)
    (contentType : String) :
    typeRejected core src tc' contentType = typeRejected core src tc contentType := by
  unfold typeRejected
  rw [h]

theorem shows_completed (hshows : Shows tc a) (henrich : enrich core src l a receipt p = .ok a')
    (htags : ∀ tag, tag ∈ p.addTags ∨ tag ∈ p.removeTags → CatalogueTag tag)
    (hhint : p.contentType ≠ "" → a.record.contentType = none → src.hintIsEmpty = true) :
    Shows (applyProposal tc p) a' := by
  have hconsiders : considersType src a.record p =
      (p.contentType != "" && tc.contentType == "") := by
    have hnone : (tc.contentType == "") = a.record.contentType.isNone := by
      rw [hshows.contentType]
      cases htype : a.record.contentType with
      | none => rfl
      | some t =>
        have hne : t ≠ "" := fun h => hshows.typed (by rw [htype, h])
        simp [hne]
    unfold considersType
    rw [hnone]
    by_cases hempty : p.contentType = ""
    · simp [hempty]
    · cases htype : a.record.contentType with
      | none => simp [hempty, hhint hempty htype]
      | some t => simp
  have htype := enrich_contentType henrich
  rw [hconsiders] at htype
  refine ⟨?_, ?_, ?_⟩
  · intro tag
    rw [(enrich_cases henrich).1, mem_applyTags, mem_catalogueTags (fun t ht => htags t (.inl ht)),
      mem_catalogueTags (fun t ht => htags t (.inr ht)), ← hshows.tags]
    show tag ∈ (tc.tags ++ p.addTags).filter _ ↔ _
    grind
  · rw [htype]
    show (if _ then p.contentType else tc.contentType) = _
    split_ifs
    · rfl
    · exact hshows.contentType
  · rw [htype]
    split_ifs with htaken
    · grind
    · exact hshows.typed

theorem applyReceipt_of_unread (hplain : Plain l.plan (r :: rs))
    (h : r.1.result.outcome ≠ .completed ∨ r.1.result.proposal = none)
    (hreceipt : applyReceipt core src l a r = .ok a') :
    (∀ tag, tag ∈ a'.tags ↔ tag ∈ a.tags) ∧ a'.record.contentType = a.record.contentType ∧
      a'.record.languages = a.record.languages := by
  rcases applyReceipt_cases hreceipt with ⟨p, id, hmerged, henrich⟩ | ⟨-, hrecord, -, htags⟩
  · -- the step excludes the torrent
    have hproposal : r.1.result.proposal = some p := by grind [merged?, Option.filter_eq_some_iff]
    rw [merged?_of_apply (hplain.modes r (.head _)) hproposal] at hmerged
    split_ifs at hmerged with hconditions
    have hexcluded : r.1.result.outcome = .excluded := by grind
    obtain ⟨hempty, hadd, hremove⟩ := hplain.exclusions r (.head _) hexcluded p hproposal
    refine ⟨?_, ?_, ?_⟩
    · intro tag
      rw [(enrich_cases henrich).1, mem_applyTags, hadd, hremove, exclude_tags]
      simp [catalogueTags]
    · grind [enrich_contentType, exclude_record, considersType]
    · rw [enrich_languages henrich, exclude_record]
  · grind

theorem proposalsOf_cons_of_read (hmode : plan.modeAt r.2 = some .apply)
    (hcompleted : r.1.result.outcome = .completed) (hproposal : r.1.result.proposal = some p) :
    proposalsOf plan (r :: rs) = p :: proposalsOf plan rs := by grind [proposalsOf]

theorem proposalsOf_cons_of_unread (hunread : r.1.result.outcome ≠ .completed ∨ r.1.result.proposal = none) :
    proposalsOf plan (r :: rs) = proposalsOf plan rs := by grind [proposalsOf]

theorem merged?_of_read (hcan : canEnrich l.plan l.results = true) (hmode : l.plan.modeAt r.2 = some .apply)
    (hcompleted : r.1.result.outcome = .completed) (hproposal : r.1.result.proposal = some p)
    (haccepted : p.contentType ≠ "" → a.record.contentType = none →
      src.hintIsEmpty = true ∧ typeRejected core src a.record p.contentType = false) :
    merged? core src l a.record r = some p := by
  have hlet : (considersType src a.record p && typeRejected core src a.record p.contentType) = false := by
    grind [considersType, contentType_eq_none_of_considers]
  grind [merged?_of_apply]

theorem shows_of_read (hcan : canEnrich l.plan l.results = true) (hplain : Plain l.plan (r :: rs))
    (hfirst : FirstTypeAccepted core src a.record (proposalsOf l.plan (r :: rs)))
    (hcompleted : r.1.result.outcome = .completed) (hproposal : r.1.result.proposal = some p) (hshows : Shows tc a)
    (hreceipt : applyReceipt core src l a r = .ok a') :
    Shows (addReceipt l.plan tc r) a' ∧
      FirstTypeAccepted core src a'.record (proposalsOf l.plan rs) := by
  have hmode := hplain.modes r (.head _)
  rw [proposalsOf_cons_of_read hmode hcompleted hproposal] at hfirst
  have haccepted (hne : p.contentType ≠ "") (hnone : a.record.contentType = none) := hfirst hnone p (by simp [hne])
  have hmerged := merged?_of_read hcan hmode hcompleted hproposal haccepted
  rcases applyReceipt_cases hreceipt with ⟨p', id, hp', henrich⟩ | ⟨hnone, -⟩
  · obtain rfl := Option.some.inj (hmerged.symm.trans hp')
    have hhint (hne : p.contentType ≠ "")
        (hnone : (exclude id r.1.result a).record.contentType = none) : src.hintIsEmpty = true :=
      (haccepted hne (by rw [← hnone, exclude_record])).1
    have hcontext : addReceipt l.plan tc r = applyProposal (noteUncertainty tc r.1.result) p := by
      grind [addReceipt, applyResult]
    rw [hcontext]
    refine ⟨shows_completed ?_ henrich (hplain.tags r (.head _) hcompleted p hproposal) hhint, ?_⟩
    · refine ⟨?_, ?_, ?_⟩
      · rw [exclude_tags]
        exact hshows.tags
      · rw [exclude_record]
        exact hshows.contentType
      · rw [exclude_record]
        exact hshows.typed
    · -- a type that is still missing was not proposed here either
      intro hnone q hq
      have htype := enrich_contentType henrich
      rw [hnone, exclude_record] at htype
      split_ifs at htype with hconsiders
      have hempty : p.contentType = "" := by grind [considersType]
      rw [typeRejected_congr ((enrich_languages henrich).trans (by rw [exclude_record]))]
      refine hfirst htype.symm q ?_
      simpa [hempty] using hq
  · rw [hmerged] at hnone
    cases hnone

theorem shows_of_unread (hplain : Plain l.plan (r :: rs))
    (hfirst : FirstTypeAccepted core src a.record (proposalsOf l.plan (r :: rs)))
    (hunread : r.1.result.outcome ≠ .completed ∨ r.1.result.proposal = none) (hshows : Shows tc a)
    (hreceipt : applyReceipt core src l a r = .ok a') :
    Shows (addReceipt l.plan tc r) a' ∧
      FirstTypeAccepted core src a'.record (proposalsOf l.plan rs) := by
  obtain ⟨htags, htype⟩ : (addReceipt l.plan tc r).tags = tc.tags ∧ _ := addReceipt_of_unread hunread
  obtain ⟨htags', htype', hlanguages⟩ := applyReceipt_of_unread hplain hunread hreceipt
  rw [proposalsOf_cons_of_unread hunread] at hfirst
  refine ⟨⟨?_, ?_, ?_⟩, ?_⟩
  · intro tag
    rw [htags, htags', hshows.tags]
  · rw [htype, htype', hshows.contentType]
  · rw [htype']
    exact hshows.typed
  · intro hnone q hq
    rw [typeRejected_congr hlanguages]
    rw [htype'] at hnone
    exact hfirst hnone q hq

/-- **One receipt.** -/
theorem shows_step (hcan : canEnrich l.plan l.results = true) (hplain : Plain l.plan (r :: rs))
    (hfirst : FirstTypeAccepted core src a.record (proposalsOf l.plan (r :: rs))) (hshows : Shows tc a)
    (hreceipt : applyReceipt core src l a r = .ok a') :
    Shows (addReceipt l.plan tc r) a' ∧
      FirstTypeAccepted core src a'.record (proposalsOf l.plan rs) := by
  by_cases hcompleted : r.1.result.outcome = .completed
  · cases hproposal : r.1.result.proposal with
    | some p => grind [shows_of_read]
    | none => grind [shows_of_unread]
  · grind [shows_of_unread]

/-! ## All receipts -/

theorem shows_run {out : Applied} (hcan : canEnrich l.plan l.results = true) (hplain : Plain l.plan rs)
    (hfirst : FirstTypeAccepted core src a.record (proposalsOf l.plan rs)) (hshows : Shows tc a)
    (hrun : rs.foldlM (applyReceipt core src l) a = .ok out) :
    Shows (rs.foldl (addReceipt l.plan) tc) out := by
  induction rs generalizing tc a with
  | nil =>
    obtain rfl : a = out := Except.ok.inj hrun
    exact hshows
  | cons r rs ih =>
    rw [foldlM_cons] at hrun
    obtain ⟨mid, hmid, hrest⟩ := accepted_bind_iff.mp hrun
    obtain ⟨hnext, hfirst'⟩ := shows_step hcan hplain hfirst hshows hmid
    exact ih hplain.tail hfirst' hnext hrest

/-- **The context shows what `apply` persists**, for receipts of apply-mode steps that neither failed nor were
deferred, if tags are spelled as in the catalogue, excluding results carry neither type nor tags, and the first type
is taken. -/
theorem context_shows_persisted (env : Env) (core : Core) (src : JobSource) (l : Lease)
    (exclusion : Option ExclusionRow) (record : TorrentContent) (out : Applied)
    (hrecord : src.record = .ok record) (htyped : record.contentType ≠ some "")
    (hinput : l.input.deterministic.contentType = record.contentType.getD "")
    (houtcomes : ∀ r ∈ l.results, r.result.outcome ≠ .failed ∧ r.result.outcome ≠ .deferred)
    (hplain : Plain l.plan l.results.zipIdx)
    (hfirst : FirstTypeAccepted core src record (completedProposals l.plan l.results))
    (happly : apply core src l exclusion = .ok out) :
    (∀ tag, tag ∈ (buildTorrentContext env src.infoHash src.toSource l.input l.results l.plan
        l.results.length).tags ↔ tag ∈ out.tags) ∧
      (buildTorrentContext env src.infoHash src.toSource l.input l.results l.plan
        l.results.length).contentType = out.record.contentType.getD "" := by
  obtain ⟨record', hrecord', hloop⟩ := apply_eq_ok happly
  obtain rfl : record = record' := Except.ok.inj (hrecord.symm.trans hrecord')
  have hcan : canEnrich l.plan l.results = true := by grind [canEnrich]
  have hshows : Shows (initialContext env src.infoHash src.toSource l.input)
      (start src exclusion record) := ⟨fun _ => Iff.rfl, hinput, htyped⟩
  have hall := shows_run hcan hplain hfirst hshows hloop
  unfold buildTorrentContext
  rw [Nat.min_self, take_length]
  exact ⟨hall.tags, hall.contentType⟩

/-- Type and tags that the context shows after a job's receipts, and those that `apply` persists. -/
def shownAndPersisted (core : Core) (src : JobSource) (l : Lease) :
    (String × List String) × Except String (String × List String) :=
  let context := buildTorrentContext sampleEnv src.infoHash src.toSource l.input l.results l.plan l.results.length
  ((context.contentType, context.tags),
    (apply core src l none).map fun out => (out.record.contentType.getD "", out.tags))

def taggedLease (tag : String) : Lease := sampleLease [(.apply, { contentType := "movie", addTags := [tag] })]

theorem remux_shown_as_persisted :
    ∃ out, apply sampleCore sampleSource (taggedLease "hd-remux") none = .ok out ∧
      out.tags = ["hd-remux"] ∧
      (buildTorrentContext sampleEnv sampleSource.infoHash sampleSource.toSource
        (taggedLease "hd-remux").input (taggedLease "hd-remux").results
        (taggedLease "hd-remux").plan 1).contentType = out.record.contentType.getD "" := by
  have hcatalogue : CatalogueTag "hd-remux" := ⟨by decide, by decide⟩
  refine ⟨_, rfl, rfl, (context_shows_persisted sampleEnv sampleCore sampleSource
    (taggedLease "hd-remux") none {} _ rfl (by decide) rfl ?_ ?_ ?_ rfl).2⟩
  · decide
  · refine ⟨?_, ?_, ?_⟩
    · intro r hr
      obtain rfl := mem_singleton.mp hr
      rfl
    · intro r hr _ p hp tag htag
      obtain rfl := mem_singleton.mp hr
      cases hp
      grind
    · intro r hr hexcluded
      obtain rfl := mem_singleton.mp hr
      cases hexcluded
  · intro _ p hp
    cases hp
    exact ⟨rfl, rfl⟩

def excludingLease : Lease :=
  { taggedLease "junk" with
    results :=
      [{ result :=
          { binding := (sampleJob .policy []).binding, outcome := .excluded
            proposal := some { exclusion := some { reason := "junk", scope := "publication" }, addTags := ["junk"] } }
         candidates := [] }] }

/-- A tag that the catalogue spells otherwise, a tag that comes with an exclusion, and a type that the policies
refuse. -/
theorem context_differs_from_persisted :
    tagToken "HD.Remux" = true ∧
      shownAndPersisted sampleCore sampleSource (taggedLease "HD.Remux") =
        (("movie", ["HD.Remux"]), .ok ("movie", ["hd-remux"])) ∧
      shownAndPersisted sampleCore sampleSource excludingLease = (("", []), .ok ("", ["junk"])) ∧
      shownAndPersisted { sampleCore with forbiddenTypes := fun t => t == "movie" } sampleSource
        (taggedLease "hd-remux") = (("movie", ["hd-remux"]), .ok ("", [])) :=
  ⟨by decide, rfl, rfl, rfl⟩

end BitAgent.Processors.Apply
