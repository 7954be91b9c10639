/-
# Processor.Persist — removing what a batch condemns

`internal/processor/processor.go` loads the torrents of a message and judges each in a goroutine. `persist` first
writes the rows of the torrents that are kept, in one transaction that a name, a preserved application or release
attributes that have changed since make fail; only then it groups the condemned ones by delete reason and hands each
group to the blocking manager until one is refused. Loaded torrents are distinct; goroutines append, and groups are
visited, in any order.

Left out: the verdicts themselves (`judge`), the metrics, and failures of the database. Of what is written for a kept
torrent only is modelled that it concerns no other torrent.
-/
import BitAgent.Blocking.Manager
import BitAgent.Cataloguerecovery.Budget
import BitAgent.Processor.Retention

namespace BitAgent.Processor

open Lib Metainfo Verdicts Cataloguerecovery Blocking List

attribute [local instance] decidableMem

/-! ## The deletions of a batch -/

/-- A torrent to be deleted, and why. -/
abbrev Condemned := ProtocolID × String

def requested (infoHashes : List ProtocolID) : Row → Option ProtocolID
  | .torrent h .. =>
    if hlen : h.length = 20 then if ⟨h, hlen⟩ ∈ infoHashes then some ⟨h, hlen⟩ else none
    else none
  | _ => none

def loadTorrents (db : Database) (infoHashes : List ProtocolID) : List ProtocolID :=
  db.catalogue.rows.filterMap (requested infoHashes)

/-- The torrents that classifier or content filter condemn, with the reason of `judge`. -/
def judged (db : Database) (infoHashes : List ProtocolID) (judge : ProtocolID → Option String) : List Condemned :=
  (loadTorrents db infoHashes).filterMap fun h => (judge h).map fun reason => (h, reason)

/-- `grouped[reason] = append(grouped[reason], h)`. -/
def addToGroup (reason : String) (h : ProtocolID) : List (String × List ProtocolID) → List (String × List ProtocolID)
  | [] => [(reason, [h])]
  | g :: groups => if g.1 = reason then (g.1, g.2 ++ [h]) :: groups else g :: addToGroup reason h groups

/-- `grouped`, in some order of its keys. -/
def grouped (condemned : List Condemned) : List (String × List ProtocolID) :=
  condemned.foldl (fun groups c => addToGroup c.2 c.1 groups) []

variable (pg : Platform)

/-- The groups are blocked one after the other; the first error ends it. -/
def blockGroups : System → (Nat → Instant) → List (String × List ProtocolID) → System × Except RecoveryError Unit
  | s, _, [] => (s, .ok ())
  | s, now, g :: groups =>
    match block pg s g.2 mechanismClassifierDelete g.1 false (now 0) with
    | (s, .error e) => (s, .error e)
    | (s, .ok ()) => blockGroups s (fun i => now (i + 1)) groups

/-- The deletions of a batch, grouped by reason. -/
def persistDeletes (s : System) (now : Nat → Instant) (groups : List (String × List ProtocolID)) :
    System × Except RecoveryError Unit :=
  if groups = [] then (s, .ok ())
  else
    match blockGroups pg s now groups with
    | (s, .error e) => (s, .error e)
    | (s, .ok ()) =>
      match flushBuffered s (now groups.length) with
      | .error e => (s, .error e)
      | .ok s => (s, .ok ())

/-! ## The rows of the torrents that are kept -/

/-- A preserved application (`classification.ApplicationPreservation`) and what `guardPreservedApplications` finds of
it: whether its task is completed, the digests now, the private evidence, verdicts and quarantines that block it. -/
structure Application where
  sourceDigest : List UInt8
  snapshotDigest : List UInt8
  tags : List String
  completed : Bool
  currentSource : List UInt8
  currentSnapshot : List UInt8
  blocked : Bool
  canonicalAllows : Bool

/-- A torrent as the transaction finds it: whether the name policy finds it eligible, whether a row of it is
classified xxx, its rows of `torrent_contents` and its tags. -/
structure Stored where
  torrent : Retention.Torrent
  eligible : Bool
  xxx : Bool
  rows : List Retention.Row
  tags : List String
  authorityTag : Bool

/-- A torrent that the batch keeps: its name when it was loaded, and its new row. -/
structure Kept where
  infoHash : ProtocolID
  name : String
  row : Retention.Row
  application : Option Application
  stored : Option Stored

/-- `llmwork.ErrHeld`, `gorm.ErrRecordNotFound`, `errReleaseAttributesChanged`, or an error of the manager. -/
inductive PersistError where
  | held
  | recordNotFound
  | releaseAttributesChanged
  | recovery (e : RecoveryError)

/-- `guardNameApplications`, for one torrent. -/
def guardNameApplication (policy : Bool) (k : Kept) : Except PersistError Unit :=
  if policy = false then .ok ()
  else match k.stored with
    | none => .error .recordNotFound
    | some t => if !t.eligible || t.torrent.name != k.name || t.xxx then .error .held else .ok ()

/-- `guardPreservedApplications`, for one torrent. -/
def guardPreservedApplication (k : Kept) : Except PersistError Unit :=
  match k.application with
  | none => .ok ()
  | some g =>
    if g.completed = false then .error .held
    else match k.stored with
      | none => .error .recordNotFound
      | some t =>
        if g.currentSource != g.sourceDigest || g.blocked || t.rows.length != 1 || t.authorityTag ||
            !g.canonicalAllows || g.currentSnapshot != g.snapshotDigest || !g.tags.all (t.tags.contains ·) then
          .error .held
        else .ok ()

/-- `restoreReleaseAttributes`, for one torrent. -/
def guardReleaseAttributes (k : Kept) : Except PersistError Unit :=
  match k.stored with
  | none => .error .recordNotFound
  | some t =>
    match Retention.restoreReleaseAttributes t.torrent t.rows ⟨k.row, k.name, false⟩ with
    | .error _ => .error .releaseAttributesChanged
    | .ok _ => .ok ()

/-- The ordinary part of a batch: whether the name policy is on, what is kept, and what it writes. -/
structure Ordinary where
  policy : Bool
  kept : List Kept
  write : Database → Database
  elsewhere : ∀ db (h : ProtocolID), (∀ k ∈ kept, k.infoHash ≠ h) → Elsewhere h.val db (write db)

/-- The checks of the transaction, in its order. -/
def Ordinary.guards (o : Ordinary) : Except PersistError Unit := do
  o.kept.forM (guardNameApplication o.policy)
  o.kept.forM guardPreservedApplication
  o.kept.forM guardReleaseAttributes

/-- `persist`: the guards, then the write of what is kept, then the deletions; a guard that fails keeps both away. -/
def persist (s : System) (o : Ordinary) (now : Nat → Instant) (groups : List (String × List ProtocolID)) :
    System × Except PersistError Unit :=
  match o.guards with
  | .error e => (s, .error e)
  | .ok () =>
    let r := persistDeletes pg { s with db := o.write s.db } now groups
    (r.1, r.2.mapError .recovery)

/-- Nothing that the transaction checks about a kept torrent has changed since it was loaded. -/
structure Stored.Unchanged (policy : Bool) (k : Kept) (t : Stored) : Prop where
  name : t.torrent.name = k.name
  eligible : policy = true → t.eligible = true ∧ t.xxx = false
  application : ∀ g, k.application = some g → g.completed = true ∧ g.currentSource = g.sourceDigest ∧
    g.blocked = false ∧ t.rows.length = 1 ∧ t.authorityTag = false ∧ g.canonicalAllows = true ∧
    g.currentSnapshot = g.snapshotDigest ∧ ∀ tag ∈ g.tags, tag ∈ t.tags
  retained : Retention.Agree t.torrent (Retention.attributesOf t.rows) none
  incoming : Retention.attributesOf t.rows = [] → ∀ a, k.row.releaseAttributes = some a →
    a.sourceNameSHA256 = t.torrent.sha256Hex t.torrent.name

def Kept.Unchanged (policy : Bool) (k : Kept) : Prop := ∃ t, k.stored = some t ∧ t.Unchanged policy k

theorem guardNameApplication_ok_iff {policy : Bool} {k : Kept} : guardNameApplication policy k = .ok () ↔
      (policy = true → ∃ t, k.stored = some t ∧ t.eligible = true ∧ t.torrent.name = k.name ∧ t.xxx = false) := by
  unfold guardNameApplication
  cases k.stored <;> grind

theorem guardPreservedApplication_ok_iff {k : Kept} : guardPreservedApplication k = .ok () ↔
      ∀ g, k.application = some g → g.completed = true ∧ ∃ t, k.stored = some t ∧
        g.currentSource = g.sourceDigest ∧ g.blocked = false ∧ t.rows.length = 1 ∧ t.authorityTag = false ∧
        g.canonicalAllows = true ∧ g.currentSnapshot = g.snapshotDigest ∧ ∀ tag ∈ g.tags, tag ∈ t.tags := by
  unfold guardPreservedApplication
  cases k.application with
  | none => simp
  | some g => cases k.stored <;> grind

theorem guardReleaseAttributes_ok_iff {k : Kept} : guardReleaseAttributes k = .ok () ↔
      ∃ t, k.stored = some t ∧ t.torrent.name = k.name ∧
        Retention.Agree t.torrent (Retention.attributesOf t.rows) none ∧ (Retention.attributesOf t.rows = [] →
          ∀ a, k.row.releaseAttributes = some a → a.sourceNameSHA256 = t.torrent.sha256Hex t.torrent.name) := by
  unfold guardReleaseAttributes
  cases k.stored with
  | none => simp
  | some t =>
    have hrestore : (∃ tc, Retention.restoreReleaseAttributes t.torrent t.rows ⟨k.row, k.name, false⟩ = .ok tc) ↔ _ :=
      Retention.restoreReleaseAttributes_ok_iff
    cases hr : Retention.restoreReleaseAttributes t.torrent t.rows ⟨k.row, k.name, false⟩ <;> grind

theorem Ordinary.guards_ok_iff (o : Ordinary) : o.guards = .ok () ↔ ∀ k ∈ o.kept, k.Unchanged o.policy := by
  have hbind : o.guards = .ok () ↔ (∀ k ∈ o.kept, guardNameApplication o.policy k = .ok ()) ∧
      (∀ k ∈ o.kept, guardPreservedApplication k = .ok ()) ∧ ∀ k ∈ o.kept, guardReleaseAttributes k = .ok () := by
    simp only [← forM_eq_ok_iff]
    unfold Ordinary.guards
    cases o.kept.forM (guardNameApplication o.policy) <;> cases o.kept.forM guardPreservedApplication <;>
      simp [bind, Except.bind]
  rw [hbind, ← forall₂_and, ← forall₂_and]
  refine forall₂_congr fun k _ => ?_
  rw [guardNameApplication_ok_iff, guardPreservedApplication_ok_iff, guardReleaseAttributes_ok_iff]
  constructor
  · rintro ⟨hname, happlication, t, hstored, hsame, hagree, hincoming⟩
    refine ⟨t, hstored, hsame, ?_, ?_, hagree, hincoming⟩ <;> grind
  · rintro ⟨t, hstored, hsame, heligible, happlication, hagree, hincoming⟩
    refine ⟨?_, ?_, t, hstored, hsame, hagree, hincoming⟩ <;> grind

/-! ## The groups hold the condemned torrents -/

theorem addToGroup_perm (reason : String) (h : ProtocolID) (groups : List (String × List ProtocolID)) :
    ((addToGroup reason h groups).flatMap Prod.snd).Perm (h :: groups.flatMap Prod.snd) := by
  induction groups with
  | nil => exact List.Perm.refl _
  | cons g groups ih =>
    unfold addToGroup
    split_ifs
    · rw [flatMap_cons, flatMap_cons, append_assoc, singleton_append]
      exact perm_middle
    · grind

theorem addToGroup_ne_nil {reason : String} {h : ProtocolID}
    {groups : List (String × List ProtocolID)} (hgroups : ∀ g ∈ groups, g.2 ≠ []) :
    ∀ g ∈ addToGroup reason h groups, g.2 ≠ [] := by
  induction groups with
  | nil => simp [addToGroup]
  | cons g groups ih => grind [addToGroup, mem_cons_of_mem, mem_cons_self]

theorem grouped_perm (condemned : List Condemned) :
    ((grouped condemned).flatMap Prod.snd).Perm (condemned.map Prod.fst) := by
  have hfold : ∀ groups : List (String × List ProtocolID),
      ((condemned.foldl (fun groups c => addToGroup c.2 c.1 groups) groups).flatMap Prod.snd).Perm
        (groups.flatMap Prod.snd ++ condemned.map Prod.fst) := by
    induction condemned with
    | nil => grind
    | cons c condemned ih =>
      intro groups
      rw [foldl_cons, map_cons]
      exact ((ih _).trans ((addToGroup_perm c.2 c.1 groups).append_right _)).trans perm_middle.symm
  exact hfold []

theorem grouped_ne_nil (condemned : List Condemned) : ∀ g ∈ grouped condemned, g.2 ≠ [] := by
  have hfold : ∀ groups : List (String × List ProtocolID), (∀ g ∈ groups, g.2 ≠ []) →
      ∀ g ∈ condemned.foldl (fun groups c => addToGroup c.2 c.1 groups) groups, g.2 ≠ [] := by
    induction condemned with
    | nil => exact fun _ hgroups => hgroups
    | cons c condemned ih => exact fun groups hgroups => ih _ (addToGroup_ne_nil hgroups)
  exact hfold [] (by simp)

section
variable {db : Database} {infoHashes : List ProtocolID}

theorem requested_eq_some {r : Row} {h : ProtocolID} (hr : requested infoHashes r = some h) :
    r.primaryKey = (.torrents, some h.val, "") := by
  cases r with
  | torrent hash name isPrivate status count rest =>
    dsimp only [requested] at hr
    split_ifs at hr
    cases hr
    rfl
  | _ => cases hr

theorem loadTorrents_nodup : (loadTorrents db infoHashes).Nodup := by
  have hkeys : ∀ rows : List Row, ((rows.filterMap (requested infoHashes)).map fun h =>
    (TableName.torrents, some h.val, "")).Sublist (rows.map Row.primaryKey) := by
    intro rows
    induction rows with
    | nil => exact List.Sublist.refl _
    | cons r rows ih =>
      cases hr : requested infoHashes r with
      | none => grind
      | some h => grind [requested_eq_some]
  exact List.Nodup.of_map _ ((hkeys db.catalogue.rows).nodup db.catalogue.nodup)

theorem loadTorrents_present {h : ProtocolID} (hmem : h ∈ loadTorrents db infoHashes) :
    (db.catalogue.torrent? h.val).isSome := by
  obtain ⟨r, hr, hreq⟩ := mem_filterMap.mp hmem
  have hget := torrent?_eq_some_iff.mpr ⟨hr, requested_eq_some hreq⟩
  rw [hget]
  rfl

theorem judged_sublist (judge : ProtocolID → Option String) :
    ((judged db infoHashes judge).map Prod.fst).Sublist (loadTorrents db infoHashes) := by
  unfold judged
  generalize loadTorrents db infoHashes = loaded
  induction loaded with
  | nil => exact List.Sublist.refl _
  | cons h loaded ih =>
    cases hj : judge h with
    | none =>
      rw [filterMap_cons_none (by rw [hj]; rfl)]
      exact ih.cons _
    | some reason =>
      rw [filterMap_cons_some (b := (h, reason)) (by rw [hj]; rfl), map_cons]
      exact ih.cons_cons _

section
variable {judge : ProtocolID → Option String} {condemned : List Condemned}

theorem condemned_present (hjudged : condemned.Perm (judged db infoHashes judge)) :
    ∀ c ∈ condemned, (db.catalogue.torrent? c.1.val).isSome := by
  intro c hmem
  grind [judged_sublist, loadTorrents_present]

theorem condemned_nodup (hjudged : condemned.Perm (judged db infoHashes judge)) :
    (condemned.map fun c => c.1.val).Nodup := by
  have hfst : (condemned.map Prod.fst).Nodup := (hjudged.map Prod.fst).nodup_iff.mpr
    ((judged_sublist judge).nodup loadTorrents_nodup)
  have hval := hfst.map Subtype.val_injective
  rwa [map_map] at hval

end

end

/-! ## Who is removed -/

/-- The manager accepts a group: small enough, with a bounded reason, and nothing protected. -/
def GroupAccepted (pg : Platform) (store : Store) (db : Database) (g : String × List ProtocolID) : Prop :=
  g.2.length ≤ maxBatch ∧ Catalogueguard.trimSpace g.1 ≠ [] ∧ g.1.utf8ByteSize ≤ 1024 ∧
    ∀ h ∈ g.2, Unprotected pg store db h.val

instance (pg : Platform) (store : Store) (db : Database) (g : String × List ProtocolID) :
    Decidable (GroupAccepted pg store db g) :=
  inferInstanceAs (Decidable (_ ∧ _ ∧ _ ∧ _))

section
variable {pg : Platform} {s : System} {store : EnabledStore}

/-- All hashes of the groups. -/
def hashesOf (groups : List (String × List ProtocolID)) : List ID := (groups.flatMap Prod.snd).map Subtype.val

theorem hashesOf_cons (g : String × List ProtocolID) (groups : List (String × List ProtocolID)) :
    hashesOf (g :: groups) = g.2.map Subtype.val ++ hashesOf groups := by
  unfold hashesOf
  rw [flatMap_cons, map_append]

variable {groups : List (String × List ProtocolID)}

theorem hashesOf_perm {condemned : List Condemned} (hperm : groups.Perm (grouped condemned)) :
    (hashesOf groups).Perm (condemned.map fun c => c.1.val) := by
  have hsame := ((hperm.flatMap_right Prod.snd).trans (grouped_perm condemned)).map Subtype.val
  rwa [map_map] at hsame

theorem blockGroups_accepted (now : Nat → Instant) (hrecovery : s.manager.recovery = some store)
    (ha : Ample pg store.val s.db (hashesOf groups)) (hnodup : (hashesOf groups).Nodup)
    (hpresent : ∀ h ∈ hashesOf groups, (s.db.catalogue.torrent? h).isSome) (hne : ∀ g ∈ groups, g.2 ≠ [])
    (haccepted : ∀ g ∈ groups, GroupAccepted pg store.val s.db g) :
    ∃ s', blockGroups pg s now groups = (s', .ok ()) ∧ s'.manager.recovery = some store ∧
      (∀ h ∈ hashesOf groups, s'.db.catalogue.torrent? h = none) ∧
      ∀ other ∉ hashesOf groups, Elsewhere other s.db s'.db := by
  induction groups generalizing s now with
  | nil => exact ⟨s, rfl, hrecovery, by simp [hashesOf], fun other _ => Elsewhere.refl other s.db⟩
  | cons g groups ih =>
    rw [hashesOf_cons] at ha hnodup hpresent
    obtain ⟨hsize, hreason, hbytes, hfree⟩ := haccepted g mem_cons_self
    have hvalid : validateBatch store.val (g.2.map Subtype.val) g.1 (now 0) = .ok () := by
      refine validateBatch_ok_iff.mpr ⟨store.property, ?_, ?_, hreason, hbytes, (now 0).property,
        ?_, (nodup_append.mp hnodup).1⟩
      · grind [map_eq_nil_iff]
      · rw [length_map]
        exact hsize
      · intro h hmem
        obtain ⟨id, -, rfl⟩ := mem_map.mp hmem
        exact id.property
    obtain ⟨snaps, db, hremove, ha', hgone, hframe⟩ := Ample.removeBatch mechanismClassifierDelete
      hvalid ha hnodup (fun h hmem => hpresent h (mem_append_left _ hmem))
      (by
        intro h hmem
        obtain ⟨id, hid, rfl⟩ := mem_map.mp hmem
        exact hfree id hid)
    obtain ⟨mid, hblock, rfl, hrecovery'⟩ := block_ok hrecovery (hne g mem_cons_self) hremove false
    -- the later groups have other hashes, for which nothing has changed
    have hother : ∀ h ∈ hashesOf groups, Elsewhere h s.db mid.db := by
      intro h hmem
      refine hframe h fun hfirst => ?_
      exact (nodup_append.mp hnodup).2.2 h hfirst h hmem rfl
    obtain ⟨s', hrest, hrecovery'', hgone', hframe'⟩ := ih (fun i => now (i + 1)) hrecovery' ha'
      (nodup_append.mp hnodup).2.1
      (by
        intro h hmem
        rw [(hother h hmem).torrent?]
        exact hpresent h (mem_append_right _ hmem))
      (fun g' hmem => hne g' (mem_cons_of_mem _ hmem))
      (by
        intro g' hmem
        obtain ⟨hsize', hreason', hbytes', hfree'⟩ := haccepted g' (mem_cons_of_mem _ hmem)
        refine ⟨hsize', hreason', hbytes', fun h hh => ?_⟩
        have hin : h.val ∈ hashesOf groups := mem_map_of_mem (mem_flatMap.mpr ⟨g', hmem, hh⟩)
        exact (hother h.val hin).unprotected.mpr (hfree' h hh))
    refine ⟨s', ?_, hrecovery'', ?_, ?_⟩
    · unfold blockGroups
      rw [hblock]
      exact hrest
    · intro h hmem
      rw [hashesOf_cons] at hmem
      rcases mem_append.mp hmem with hfirst | hlater
      · have hout : h ∉ hashesOf groups := fun hlater =>
        (nodup_append.mp hnodup).2.2 h hfirst h hlater rfl
        rw [(hframe' h hout).torrent?]
        exact hgone h hfirst
      · exact hgone' h hlater
    · intro other hout
      rw [hashesOf_cons, mem_append, not_or] at hout
      exact (hframe other hout.1).trans (hframe' other hout.2)

theorem blockGroups_refused {g : String × List ProtocolID} (now : Nat → Instant)
    (hrecovery : s.manager.recovery = some store) (hne : g.2 ≠ [])
    (hpresent : ∀ h ∈ g.2, (s.db.catalogue.torrent? h.val).isSome) (hrefused : ¬ GroupAccepted pg store.val s.db g) :
    ∃ e, blockGroups pg s now (g :: groups) = (s, .error e) := by
  have hremove : ∀ out, removeBatch pg store.val s.db (g.2.map Subtype.val)
      mechanismClassifierDelete g.1 (now 0) ≠ .ok out := by
    intro out hok
    obtain ⟨hvalid, -⟩ := removeBatch_ok_iff.mp hok
    obtain ⟨-, -, hsize, hreason, hbytes, -⟩ := validateBatch_ok_iff.mp hvalid
    rw [length_map] at hsize
    refine hrefused ⟨hsize, hreason, hbytes, fun h hmem => ?_⟩
    grind [removeBatch_of_protected, mem_map_of_mem]
  obtain ⟨e, hblock⟩ := block_error hrecovery hne hremove false
  exact ⟨e, by unfold blockGroups; rw [hblock]⟩

theorem persistDeletes_stopped {now : Nat → Instant} {e : RecoveryError} (hne : groups ≠ [])
    (hstop : blockGroups pg s now groups = (s, .error e)) :
    persistDeletes pg s now groups = (s, .error e) := by
  unfold persistDeletes
  rw [if_neg hne, hstop]

theorem persistDeletes_accepted {now : Nat → Instant} {s' : System} (hne : groups ≠ [])
    (hblocked : blockGroups pg s now groups = (s', .ok ())) (hrecovery : s'.manager.recovery = some store) :
    (persistDeletes pg s now groups).1.db = s'.db := by
  obtain ⟨s'', hflush, hdb, -⟩ := flush_ok (now groups.length) hrecovery
  grind [persistDeletes, flushBuffered]

end

/-- The condemned torrents that nothing protects are removed, in every order of the groups. -/
def RemovesCondemned (pg : Platform) (store : Store) (s : System) (o : Ordinary) (condemned : List Condemned)
    (now : Nat → Instant) : Prop :=
  ∀ groups, groups.Perm (grouped condemned) → ∀ c ∈ condemned, Unprotected pg store s.db c.1.val →
      (persist pg s o now groups).1.db.catalogue.torrent? c.1.val = none

section
variable {pg : Platform} {s : System} {store : EnabledStore} {condemned : List Condemned} (now : Nat → Instant)

/-- A refused group may be visited first, and then nothing is removed. -/
theorem persistDeletes_keeps {g : String × List ProtocolID} (hrecovery : s.manager.recovery = some store)
    (hpresent : ∀ c ∈ condemned, (s.db.catalogue.torrent? c.1.val).isSome) (hg : g ∈ grouped condemned)
    (hrefused : ¬ GroupAccepted pg store.val s.db g) :
    ∃ groups, groups.Perm (grouped condemned) ∧ (persistDeletes pg s now groups).1 = s := by
  have hthere : ∀ h ∈ g.2, (s.db.catalogue.torrent? h.val).isSome := by
    intro h hmem
    have hin : h ∈ condemned.map Prod.fst := (grouped_perm condemned).mem_iff.mp (mem_flatMap.mpr ⟨g, hg, hmem⟩)
    grind
  obtain ⟨e, hstop⟩ : ∃ e, blockGroups pg s now (g :: (grouped condemned).erase g) = (s, .error e) :=
    blockGroups_refused now hrecovery (grouped_ne_nil condemned g hg) hthere hrefused
  exact ⟨_, (perm_cons_erase hg).symm, by rw [persistDeletes_stopped (cons_ne_nil _ _) hstop]⟩

/-- If every group is accepted, everything condemned is removed. -/
theorem persistDeletes_removes {groups : List (String × List ProtocolID)} (hperm : groups.Perm (grouped condemned))
    (hrecovery : s.manager.recovery = some store)
    (hample : Ample pg store.val s.db (condemned.map fun c => c.1.val))
    (hnodup : (condemned.map fun c => c.1.val).Nodup)
    (hpresent : ∀ c ∈ condemned, (s.db.catalogue.torrent? c.1.val).isSome)
    (haccepted : ∀ g ∈ grouped condemned, GroupAccepted pg store.val s.db g) :
    ∀ c ∈ condemned, (persistDeletes pg s now groups).1.db.catalogue.torrent? c.1.val = none := by
  intro c hc
  have hhashes := hashesOf_perm hperm
  have hin : c.1.val ∈ hashesOf groups := hhashes.mem_iff.mpr (mem_map_of_mem hc)
  obtain ⟨s', hblocked, hrecovery', hgone, -⟩ := blockGroups_accepted now hrecovery
    (hample.perm hhashes) (hhashes.nodup_iff.mpr hnodup) (by grind)
    (fun g hg => grouped_ne_nil condemned g (hperm.mem_iff.mp hg))
    (fun g hg => haccepted g (hperm.mem_iff.mp hg))
  have hne : groups ≠ [] := by
    rintro rfl
    cases hin
  grind [persistDeletes_accepted]

end

def sampleSystem (isPrivate : Bool) : System where
  manager := newManager (some ⟨sampleStore, rfl⟩)
  db := sampleDatabase
    { rows := .torrentSource "dht" "" :: (sampleRows 7 false ++ sampleRows 8 isPrivate)
      nodup := by cases isPrivate <;> decide }
  bloom := []

/-- The hash `n n … n` as a `protocol.ID`. -/
def sampleID (n : UInt8) : ProtocolID := ⟨sampleHash n, length_replicate⟩
def sampleCondemned : List Condemned := [(sampleID 7, "content_filter"), (sampleID 8, "content_filter")]

def sampleJudge (h : ProtocolID) : Option String := if h = sampleID 99 then none else some "content_filter"

/-- A third torrent is kept, which had the name `name` when it was loaded. -/
def sampleKept (name : String) : Kept where
  infoHash := sampleID 99
  name := name
  row := ⟨"99", none, none, none⟩
  application := none
  stored := some { torrent := ⟨"kept", id, "p"⟩, eligible := true, xxx := false, rows := [], tags := [],
                   authorityTag := false }

def sampleOrdinary (name : String) : Ordinary where
  policy := true
  kept := [sampleKept name]
  write := id
  elsewhere := fun db h _ => Elsewhere.refl h.val db

theorem sampleOrdinary_unchanged : ∀ k ∈ (sampleOrdinary "kept").kept, k.Unchanged (sampleOrdinary "kept").policy := by
  intro k hk
  obtain rfl := mem_singleton.mp hk
  exact ⟨_, rfl, rfl, fun _ => ⟨rfl, rfl⟩, fun g hg => (nomatch hg), fun a ha => (nomatch ha), fun _ a ha => (nomatch ha)⟩

theorem sampleOrdinary_kept (name : String) : ∀ k ∈ (sampleOrdinary name).kept, sampleJudge k.infoHash = none := by
  intro k hk
  obtain rfl := mem_singleton.mp hk
  exact if_pos rfl

theorem sampleCondemned_judged (isPrivate : Bool) :
    sampleCondemned.Perm (judged (sampleSystem isPrivate).db [sampleID 7, sampleID 8] sampleJudge) := by
  cases isPrivate <;> decide

theorem sampleSystem_ample (isPrivate : Bool) : Ample samplePlatform sampleStore (sampleSystem isPrivate).db
      (sampleCondemned.map fun c => c.1.val) where
  supported := rfl
  storage := by
    intro db' _
    show (0 : Int) ≤ 1000
    decide
  tags := by cases isPrivate <;> decide
  rows := by cases isPrivate <;> decide
  bytes := by cases isPrivate <;> decide
  snapshot := by cases isPrivate <;> decide
  payload := by cases isPrivate <;> decide
  count := by cases isPrivate <;> decide

def sampleInstant : Instant := ⟨5, by decide⟩

def crowd : List UInt8 := (List.range 33).map UInt8.ofNat

def crowdedSystem : System where
  manager := newManager (some ⟨sampleStore, rfl⟩)
  db := sampleDatabase
    { rows := crowd.map fun n => .torrent (sampleHash n) "name" false .single none ""
      nodup := by decide +kernel }
  bloom := []

def crowdCondemned : List Condemned := crowd.map fun n => (sampleID n, "content_filter")

theorem crowdCondemned_judged :
    crowdCondemned.Perm (judged crowdedSystem.db (crowd.map sampleID) sampleJudge) := by
  decide +kernel

theorem crowdedSystem_ample :
    Ample samplePlatform sampleStore crowdedSystem.db (crowdCondemned.map fun c => c.1.val) where
  supported := rfl
  storage := by
    intro db' _
    show (0 : Int) ≤ 1000
    decide
  tags := by decide +kernel
  rows := by decide +kernel
  bytes := by decide +kernel
  snapshot := by decide +kernel
  payload := by decide +kernel
  count := by decide +kernel

/-- `persist` leaves a torrent `h` that is condemned, that nothing protects and for which there is budget. -/
def LeavesCondemned (s : System) (o : Ordinary) (condemned : List Condemned) (infoHashes : List ProtocolID)
    (h : ID) : Prop :=
  condemned.Perm (judged s.db infoHashes sampleJudge) ∧
    Ample samplePlatform sampleStore (o.write s.db) (condemned.map fun c => c.1.val) ∧
    Unprotected samplePlatform sampleStore s.db h ∧
    ((persist samplePlatform s o (fun _ => sampleInstant) (grouped condemned)).1.db.catalogue.torrent? h).isSome

end BitAgent.Processor
