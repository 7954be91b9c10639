/-
# Importer.Active — no item of an import is lost, or when one is

The goroutines of an `activeImport`: each item goes to a goroutine that appends it to the shared buffer under the
mutex; a full buffer, a timer and `Close` flush it. Sections under the mutex are single steps, and what a flush meets
is part of its step. If the second admission excludes an item, the whole transaction is given up without an error
(`Flush.GivesUp`), and what is in flight when `Close` takes the mutex is not flushed by it.
-/
import Mathlib.Data.List.Pairwise
import BitAgent.Importer.Persist
import BitAgent.Lib.Run

namespace BitAgent.Importer

open Lib List

abbrev Entry := Nat × Item

structure Surroundings where
  gate : Gate
  importID : String
  imported : List String
  fault : Option String
  before : Db
  db : Db

structure Flush where
  entries : List Entry
  met : Surroundings

/-- What `persistItems` returns for it. -/
def Flush.result (f : Flush) : Except String (Db × List Item) :=
  persistItems f.met.gate f.met.importID f.met.imported f.met.fault f.met.before f.met.db (f.entries.map Prod.snd)

structure ActiveImport where
  stopped : Bool
  taken : List Entry
  inFlight : List Entry
  itemBuffer : List Entry
  flushes : List Flush

def ActiveImport.new : ActiveImport :=
  { stopped := false, taken := [], inFlight := [], itemBuffer := [], flushes := [] }

/-- `ImportErrors`: the items of the flushes that failed. -/
def ActiveImport.errors (s : ActiveImport) : List (List Item × String) :=
  s.flushes.filterMap fun f =>
    match f.result with
    | .error msg => some (f.entries.map Prod.snd, msg)
    | .ok _ => none

inductive Step where
  | imports (items : List Item)
  | buffer (i : Nat) (met : Surroundings)
  | timer (met : Surroundings)
  | close (met : Surroundings)

def ActiveImport.flushLocked (s : ActiveImport) (met : Surroundings) : ActiveImport :=
  if s.itemBuffer.isEmpty then s
  else { s with itemBuffer := [], flushes := s.flushes ++ [{ entries := s.itemBuffer, met := met }] }

/-- One step; `bufferSize` is that of the importer. A stopped import takes no items. -/
def ActiveImport.step (bufferSize : Nat) (s : ActiveImport) : Step → ActiveImport
  | .imports items =>
    if s.stopped then s
    else
      let new := (List.range items.length).zipWith (fun n it => (s.taken.length + n, it)) items
      { s with taken := s.taken ++ new, inFlight := s.inFlight ++ new }
  | .buffer i met =>
    match s.inFlight[i]? with
    | none => s
    | some e =>
      let s := { s with inFlight := s.inFlight.eraseIdx i, itemBuffer := s.itemBuffer ++ [e] }
      if bufferSize ≤ s.itemBuffer.length then s.flushLocked met else s
  | .timer met => s.flushLocked met
  | .close met => { s.flushLocked met with stopped := true }

def ActiveImport.after (bufferSize : Nat) (run : List Step) : ActiveImport :=
  run.foldl (ActiveImport.step bufferSize) .new

/-- Every item taken is in flight, in the buffer or in a flush, once. -/
structure ActiveImport.Conserved (s : ActiveImport) : Prop where
  perm : (s.inFlight ++ s.itemBuffer ++ s.flushes.flatMap (·.entries)).Perm s.taken
  numbers : s.taken.map Prod.fst = List.range s.taken.length

theorem conserved_flushLocked {s : ActiveImport} (hs : s.Conserved) (met : Surroundings) :
    (s.flushLocked met).Conserved := by
  unfold ActiveImport.flushLocked
  split_ifs
  · exact hs
  · refine ⟨?_, hs.numbers⟩
    have hmove : (s.inFlight ++ [] ++ (s.flushes ++ [(⟨s.itemBuffer, met⟩ : Flush)]).flatMap Flush.entries).Perm
        (s.inFlight ++ s.itemBuffer ++ s.flushes.flatMap Flush.entries) := by grind
    exact hmove.trans hs.perm

theorem conserved_step (bufferSize : Nat) {s : ActiveImport} (hs : s.Conserved) (a : Step) :
    (s.step bufferSize a).Conserved := by
  cases a with
  | imports items =>
    simp only [ActiveImport.step]
    split_ifs
    · exact hs
    · have hlength : ((List.range items.length).zipWith (fun n it => (s.taken.length + n, it)) items).length =
          items.length := by simp
      refine ⟨?_, ?_⟩
      · refine List.Perm.trans ?_ (hs.perm.append_right _)
        grind
      · rw [map_append, hs.numbers, length_append, hlength, range_add, map_zipWith]
        congr 1
        refine ext_getElem (by simp) fun i hi hi' => ?_
        simp
  | buffer i met =>
    simp only [ActiveImport.step]
    cases he : s.inFlight[i]? with
    | none => exact hs
    | some e =>
      have hmoved : ActiveImport.Conserved
          { s with inFlight := s.inFlight.eraseIdx i, itemBuffer := s.itemBuffer ++ [e] } := by
        refine ⟨List.Perm.trans ?_ hs.perm, hs.numbers⟩
        grind [getElem_cons_eraseIdx_perm]
      grind [conserved_flushLocked]
  | timer met => exact conserved_flushLocked hs met
  | close met => exact ⟨(conserved_flushLocked hs met).perm, (conserved_flushLocked hs met).numbers⟩

theorem conserved_run (bufferSize : Nat) (run : List Step) : (ActiveImport.after bufferSize run).Conserved := by
  unfold ActiveImport.after
  exact Run.foldl_invariant (ActiveImport.step bufferSize) (I := ActiveImport.Conserved) ⟨.refl _, rfl⟩
    (fun _ a hs => conserved_step bufferSize hs a) run

/-! ## What becomes of an item -/

/-- The items that pass the first admission and the gate. -/
def Flush.kept (f : Flush) : List Item := f.met.gate.kept f.met.before (f.entries.map Prod.snd)

/-- The second admission, of the rows that are there once the kept items are inserted. -/
def Flush.admitsAgain (f : Flush) (it : Item) : Bool :=
  f.met.gate.admits (inserted f.met.imported f.met.db f.kept) it

/-- Dropped for its own sake: its hash is blocked, or its name or classification excluded. -/
def Flush.Excludes (f : Flush) (it : Item) : Prop :=
  f.met.gate.csam it.infoHash = true ∨ f.met.gate.blocking.any (· it.infoHash) = true ∨
    f.met.gate.admits f.met.before it = false ∨ f.admitsAgain it = false

/-- The item is written and in the tables, dropped for its own sake, or listed with the flush in the errors. -/
def Flush.Accounts (f : Flush) (it : Item) : Prop :=
  match f.result with
  | .error _ => True
  | .ok (db', written) => (it ∈ written ∧ Committed db' it) ∨ f.Excludes it

/-- What a flush meets that gives up an item: the policy is on, the block list answers and the database has no fault;
the second admission drops one of the kept items, and the item is another, which it admits. -/
structure Flush.GivesUp (f : Flush) (it : Item) : Prop where
  enabled : f.met.gate.enabled = true
  answers : f.met.gate.blocking.isSome = true
  faultless : f.met.fault = none
  drops : ∃ other ∈ f.kept, f.admitsAgain other = false
  kept : it ∈ f.kept
  admitted : f.admitsAgain it = true

/-- A statement that fails is no exclusion. -/
theorem bind_excluded {α β : Type} {x : Except String α} {k : α → Except TxError β}
    (h : (x.mapError TxError.failed >>= k) = .error .excluded) : ∃ a, k a = .error .excluded := by
  cases x with
  | error msg => simp [Except.mapError, bind, Except.bind] at h
  | ok a => exact ⟨a, h⟩

theorem writeItems_excluded_iff {g : Gate} {importID : String} {imported : List String} {db : Db} {items : List Item} :
    writeItems g importID imported db items = .error .excluded ↔
      g.enabled = true ∧ ∃ it ∈ items, g.admits (inserted imported db items) it = false := by
  have hlength : (items.filter (g.admits (inserted imported db items))).length ≠ items.length ↔
      ∃ it ∈ items, g.admits (inserted imported db items) it = false := by
    simp [length_filter_eq_length_iff]
  unfold writeItems
  dsimp only
  split_ifs with hdrops
  · simp only [Bool.and_eq_true, bne_iff_ne] at hdrops
    exact iff_of_true rfl ⟨hdrops.1, hlength.mp hdrops.2⟩
  · refine iff_of_false (fun h => ?_) fun h => hdrops ?_
    · obtain ⟨hints, h⟩ := bind_excluded h
      obtain ⟨rows, h⟩ := bind_excluded h
      obtain ⟨jobs, h⟩ := bind_excluded h
      cases h
    · simp only [Bool.and_eq_true, bne_iff_ne]
      exact ⟨h.1, hlength.mpr h.2⟩

theorem Flush.result_of_givesUp {f : Flush} {it : Item} (h : f.GivesUp it) : f.result = .ok (f.met.db, []) := by
  obtain ⟨blocked, hblocked⟩ := Option.isSome_iff_exists.mp h.answers
  have hwrite : writeItems f.met.gate f.met.importID f.met.imported f.met.db f.kept = .error .excluded :=
    writeItems_excluded_iff.mpr ⟨h.enabled, h.drops⟩
  have hitems : f.entries.map Prod.snd ≠ [] := ne_nil_of_mem (mem_of_mem_filter h.kept)
  have hadmitted : (f.entries.map Prod.snd).filter (f.met.gate.admits f.met.before) ≠ [] := by
    refine ne_nil_of_mem (mem_filter.mpr ⟨mem_of_mem_filter h.kept, ?_⟩)
    exact (Bool.and_eq_true_iff.mp (mem_filter.mp h.kept).2).1
  have hgate : f.met.gate.gateItems ((f.entries.map Prod.snd).filter (f.met.gate.admits f.met.before)) =
      .ok f.kept := by
    unfold Gate.gateItems Flush.kept Gate.kept
    rw [hblocked, if_neg (by simpa using hadmitted)]
    dsimp only
    rw [filter_filter]
    exact congrArg _ (filter_congr fun _ _ => Bool.and_comm _ _)
  have hkept : f.kept.isEmpty = false := by simpa using ne_nil_of_mem h.kept
  unfold Flush.result persistItems persistItemsTx
  simp only [h.enabled, if_true, bind, Except.bind, h.faultless, hgate, Except.mapError, hkept, hwrite, Except.map,
    Bool.false_eq_true, if_false, isEmpty_eq_false_iff.mpr hitems]

theorem Flush.givesUp_of_excluded {f : Flush} {it : Item} {out : Db × List Item} (hresult : f.result = .ok out)
    (hwrite : writeItems f.met.gate f.met.importID f.met.imported f.met.db f.kept = .error .excluded)
    (hit : it ∈ f.kept) (hnot : ¬ f.Excludes it) : f.GivesUp it := by
  obtain ⟨henabled, hdrops⟩ := writeItems_excluded_iff.mp hwrite
  have hitems : (f.entries.map Prod.snd).isEmpty = false := isEmpty_eq_false_iff.mpr (ne_nil_of_mem (mem_of_mem_filter hit))
  have hadmitted : ((f.entries.map Prod.snd).filter (f.met.gate.admits f.met.before)).isEmpty = false := by
    refine isEmpty_eq_false_iff.mpr (ne_nil_of_mem (mem_filter.mpr ⟨mem_of_mem_filter hit, ?_⟩))
    exact (Bool.and_eq_true_iff.mp (mem_filter.mp hit).2).1
  unfold Flush.result persistItems persistItemsTx at hresult
  simp only [henabled, if_true, bind, Except.bind, hitems, Bool.false_eq_true, if_false] at hresult
  refine ⟨henabled, ?_, ?_, hdrops, hit, ?_⟩
  · cases hblocking : f.met.gate.blocking with
    | some blocked => rfl
    | none =>
      cases hfault : f.met.fault <;>
        simp [hfault, Gate.gateItems, hadmitted, hblocking, Except.mapError] at hresult
  · cases hfault : f.met.fault with
    | none => rfl
    | some msg => simp [hfault] at hresult
  · exact Bool.of_not_eq_false fun h => hnot (.inr (.inr (.inr h)))

theorem Flush.accounts_iff (f : Flush) {it : Item} (hit : it ∈ f.entries.map Prod.snd) :
    f.Accounts it ↔ ¬ f.GivesUp it := by
  unfold Flush.Accounts
  constructor
  · intro haccounts hgives
    rw [f.result_of_givesUp hgives] at haccounts
    rcases haccounts with ⟨hwritten, -⟩ | hcsam | hblocked | hfirst | hsecond
    · exact not_mem_nil hwritten
    · grind [Flush.GivesUp, Flush.kept, Gate.kept]
    · grind [Flush.GivesUp, Flush.kept, Gate.kept]
    · grind [Flush.GivesUp, Flush.kept, Gate.kept]
    · exact Bool.false_ne_true (hsecond.symm.trans hgives.admitted)
  · intro hkeeps
    cases hresult : f.result with
    | error msg => trivial
    | ok out =>
      obtain ⟨db', written⟩ := out
      by_cases hexcludes : f.Excludes it
      · exact .inr hexcludes
      -- it passes the first admission and the gate
      have hkept : it ∈ f.kept := by grind [Flush.Excludes, Flush.kept, Gate.kept]
      rcases persistItems_ok hresult with ⟨hwritten, ⟨hnil, -⟩ | hwrite⟩ | ⟨-, -, hexcluded⟩
      · exact absurd (hwritten.symm.trans hnil) (ne_nil_of_mem hkept)
      · have hmem : it ∈ written := hwritten ▸ hkept
        exact .inl ⟨hmem, committed_of_writeItems hwrite hmem⟩
      · exact absurd (f.givesUp_of_excluded hresult hexcluded hkept hexcludes) hkeeps

/-- **No item is lost.** When `Close` has returned, every item that `Import` has taken is committed, dropped for its own
hash or name, or listed in the errors, if and only if `Close` found no item in flight and no flush gave up an item. -/
theorem items_accounted_iff (bufferSize : Nat) (run : List Step) (met : Surroundings) :
    (∀ e ∈ (ActiveImport.after bufferSize (run ++ [.close met])).taken,
        ∃ f ∈ (ActiveImport.after bufferSize (run ++ [.close met])).flushes, e ∈ f.entries ∧ f.Accounts e.2) ↔
      (ActiveImport.after bufferSize run).inFlight = [] ∧
      ∀ f ∈ (ActiveImport.after bufferSize (run ++ [.close met])).flushes, ∀ it, ¬ f.GivesUp it := by
  have hall := conserved_run bufferSize (run ++ [.close met])
  have hstep : ActiveImport.after bufferSize (run ++ [.close met]) =
      { (ActiveImport.after bufferSize run).flushLocked met with stopped := true } := Run.foldl_concat _ _ _ _
  have hflight : (ActiveImport.after bufferSize run).inFlight =
      (ActiveImport.after bufferSize (run ++ [.close met])).inFlight := by grind [ActiveImport.flushLocked]
  have hempty : (ActiveImport.after bufferSize (run ++ [.close met])).itemBuffer = [] := by
    grind [ActiveImport.flushLocked]
  rw [hflight]
  generalize ActiveImport.after bufferSize (run ++ [.close met]) = s at hall hempty ⊢
  have hperm := hall.perm
  rw [hempty, append_nil] at hperm
  have hnodup : (s.inFlight ++ s.flushes.flatMap (·.entries)).Nodup := by
    refine hperm.nodup_iff.mpr (List.Nodup.of_map Prod.fst ?_)
    rw [hall.numbers]
    exact nodup_range
  constructor
  · intro haccounted
    constructor
    · -- an item in flight is in no flush
      refine eq_nil_iff_forall_not_mem.mpr fun e he => ?_
      obtain ⟨f, hf, hef, -⟩ := haccounted e (hperm.mem_iff.mp (mem_append_left _ he))
      exact (nodup_append'.mp hnodup).2.2 he (mem_flatMap.mpr ⟨f, hf, hef⟩)
    · intro f hf it hgives
      have hit : it ∈ f.entries.map Prod.snd := mem_of_mem_filter hgives.kept
      obtain ⟨e, he, rfl⟩ := mem_map.mp hit
      obtain ⟨f', hf', he', haccounts⟩ :=
        haccounted e (hperm.mem_iff.mp (mem_append_right _ (mem_flatMap.mpr ⟨f, hf, he⟩)))
      -- an entry is in one flush only
      obtain rfl : f' = f := by
        by_contra hne
        have hsymm : Std.Symm (Function.onFun List.Disjoint fun f : Flush => f.entries) :=
          ⟨fun _ _ h _ ha hb => h hb ha⟩
        exact (nodup_flatMap.mp (nodup_append'.mp hnodup).2.1).2.forall hf' hf hne he' he
      exact (f'.accounts_iff hit).mp haccounts hgives
  · rintro ⟨hnone, hkeeps⟩ e he
    rw [hnone, nil_append] at hperm
    obtain ⟨f, hf, hef⟩ := mem_flatMap.mp (hperm.mem_iff.mpr he)
    exact ⟨f, hf, hef, (f.accounts_iff (mem_map_of_mem hef)).mpr (hkeeps f hf e.2)⟩

/-- After the first admission the first hash was inserted under an excluded name. -/
def disturbed : Surroundings where
  gate := { enabled := true, eligible := fun _ name => name != [0x78], csam := fun _ => false,
            blocking := some fun _ => false }
  importID := "i"
  imported := []
  fault := none
  before := .empty
  db := { Db.empty with torrents :=
    { rows := [{ (film "b" [1]).torrent with name := [0x78] }], nodup := nodup_singleton _ } }

/-- The neighbour of the excluded item is in no table or error. -/
theorem neighbour_lost :
    let s := ActiveImport.after 2 [.imports [film "a" [1], film "a" [2]], .buffer 0 disturbed, .buffer 0 disturbed,
      .close disturbed]
    s.taken.map Prod.snd = [film "a" [1], film "a" [2]] ∧ s.inFlight = [] ∧ s.errors = [] ∧
      ∀ f ∈ s.flushes, ¬ f.Accounts (film "a" [2]) := by
  refine ⟨rfl, rfl, rfl, ?_⟩
  intro f hf
  obtain rfl : f = { entries := [(0, film "a" [1]), (1, film "a" [2])], met := disturbed } := by
    simpa [ActiveImport.after, ActiveImport.step, ActiveImport.flushLocked, ActiveImport.new] using hf
  rw [Flush.accounts_iff _ (by simp), not_not]
  exact ⟨rfl, rfl, rfl, ⟨film "a" [1], by decide, by decide⟩, by decide, by decide⟩

end BitAgent.Importer
