/-
# Attribution.Recon — the join of the report

`Run` of `internal/attribution/recon.go` from the fetched histories on. They are merged into one map, in which the
first source with a hash wins; the join then drops an import of another source than the grab's. So a grab loses its
own import iff an earlier source has the hash too.
-/
import Mathlib.Data.List.TakeWhile

namespace BitAgent.Attribution

inductive Source where
  | sonarr | radarr | lidarr
  deriving DecidableEq

structure GrabEvent where
  source : Option Source
  infoHash : String

structure ArrImport where
  found : Bool := false
  source : Option Source := none
  eventType : String := ""
  occurredAt : Option Nat := none
  reason : String := ""
  deriving DecidableEq

/-- What `LookupRecent` returns for a source. -/
structure History (src : Source) where
  imports : String → Option ArrImport
  own : ∀ {hash imp}, imports hash = some imp → imp.found = true ∧ imp.source = some src

/-- The histories; none of a source that is off or whose request failed. -/
def Histories := (src : Source) → Option (History src)

def Histories.lookup (hist : Histories) (src : Source) (hash : String) : Option ArrImport :=
  (hist src).bind fun h => h.imports hash

def sources : List Source := [.sonarr, .radarr, .lidarr]

/-- The merged map: an entry that is there stays. -/
def importByHash (hist : Histories) : String → Option ArrImport :=
  sources.foldl (fun m src hash => (m hash).or (hist.lookup src hash)) fun _ => none

structure Row (QBState : Type) where
  grab : GrabEvent
  qb : Option QBState
  imported : ArrImport

variable {QBState : Type} (qbStates : String → Option QBState) (hist : Histories)

def join (g : GrabEvent) : Row QBState where
  grab := g
  qb := if g.infoHash ≠ "" then qbStates g.infoHash else none
  imported :=
    if g.infoHash ≠ "" then
      match importByHash hist g.infoHash with
      | some imp => if imp.source = g.source ∨ g.source = none then imp else {}
      | none => {}
    else {}

def CarriesOwn (g : GrabEvent) : Prop :=
  ∀ src imp, g.infoHash ≠ "" → g.source = some src → hist.lookup src g.infoHash = some imp →
    (join qbStates hist g).imported = imp

def Shadowed (g : GrabEvent) : Prop :=
  ∃ src ∈ g.source, ∃ earlier ∈ sources.takeWhile (· ≠ src), g.infoHash ≠ "" ∧
    (hist.lookup src g.infoHash).isSome ∧ (hist.lookup earlier g.infoHash).isSome

theorem importByHash_eq (hash : String) : importByHash hist hash =
    ((hist.lookup .sonarr hash).or (hist.lookup .radarr hash)).or (hist.lookup .lidarr hash) := by
  simp [importByHash, sources]

theorem Histories.lookup_own {src : Source} {hash : String} {imp : ArrImport} (h : hist.lookup src hash = some imp) :
    imp.found = true ∧ imp.source = some src := by
  obtain ⟨history, -, himp⟩ := Option.bind_eq_some_iff.mp h
  exact history.own himp

/-- For a hash of its own history the merged map has its import or an earlier source's. -/
theorem importByHash_cases {src : Source} {hash : String} {imp : ArrImport} (h : hist.lookup src hash = some imp) :
    (importByHash hist hash = some imp ∧ ∀ earlier ∈ sources.takeWhile (· ≠ src), hist.lookup earlier hash = none) ∨
      ∃ earlier ∈ sources.takeWhile (· ≠ src), ∃ other, importByHash hist hash = some other ∧
        hist.lookup earlier hash = some other := by
  rw [importByHash_eq]
  cases hs : hist.lookup .sonarr hash with
  | some other =>
    cases src with
    | sonarr => exact .inl ⟨by simpa using hs.symm.trans h, by simp [sources]⟩
    | _ => exact .inr ⟨.sonarr, by decide, other, by simp, hs⟩
  | none =>
    cases src with
    | sonarr => simp [h] at hs
    | radarr => exact .inl ⟨by simp [h], by simp [sources, hs]⟩
    | lidarr =>
      cases hr : hist.lookup .radarr hash with
      | some other => exact .inr ⟨.radarr, by decide, other, by simp, hr⟩
      | none => exact .inl ⟨by simp [h], by simp [sources, hs, hr]⟩

/-- **Whose import a row carries**, for all histories and grabs. -/
theorem carriesOwn_iff (g : GrabEvent) : CarriesOwn qbStates hist g ↔ ¬ Shadowed hist g := by
  constructor
  · rintro hcarries ⟨src, hsrc, earlier, hearlier, hhash, hsome, hsome'⟩
    obtain ⟨imp, himp⟩ := Option.isSome_iff_exists.mp hsome
    have hrow := hcarries src imp hhash hsrc himp
    rcases importByHash_cases hist himp with ⟨-, hnone⟩ | ⟨first, hfirst, other, hother, hlookup⟩
    · simp [hnone earlier hearlier] at hsome'
    · -- the import of the earlier source is dropped, and the row has none
      have hne : other.source ≠ some src := by
        rw [(hist.lookup_own hlookup).2]
        simpa using List.mem_takeWhile_imp hfirst
      have hfound := (hist.lookup_own himp).1
      simp only [join, if_pos hhash, hother, show g.source = some src from hsrc, hne] at hrow
      grind
  · intro hclear src imp hhash hsrc himp
    rcases importByHash_cases hist himp with ⟨hown, -⟩ | ⟨first, hfirst, other, -, hlookup⟩
    · simp only [join, if_pos hhash, hown, (hist.lookup_own himp).2, hsrc, true_or, if_true]
    · exact absurd ⟨src, hsrc, first, hfirst, hhash, by simp [himp], by simp [hlookup]⟩ hclear

def shared : Histories := fun src =>
  some ⟨fun _ => some { found := true, source := some src }, by rintro - - ⟨⟩; exact ⟨rfl, rfl⟩⟩

theorem radarr_grab_loses_import :
    ¬ CarriesOwn (fun _ => none (α := Unit)) shared ⟨some .radarr, "ab"⟩ := fun h =>
  absurd (h .radarr _ (by decide) rfl rfl) (by decide)

end BitAgent.Attribution
