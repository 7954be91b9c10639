/-
# Csamblocklist.Service — refreshes of the blocklist, and the filter

`Refresh`, `IsBlocked` and `Filter` of `internal/csamblocklist/service.go`. A feed that fails keeps its part of the
cache, and the filter is built anew from the whole cache. The filter may be any `Lib.Bloom`. Metrics and the status of
the feeds are left out.
-/
import Mathlib
import BitAgent.Lib.Bloom

namespace BitAgent.Csamblocklist

open Lib List

variable {Hash Digest F : Type} (bloom : Bloom Digest F)

structure Service (Digest F : Type) where
  active : F
  lastGoodEntries : String → Option (List Digest)

/-- One run: what each fetch gave, and the order in which `range` visits the cache. -/
structure Refresh (Digest : Type) where
  results : Nat → Option (List Digest)
  visit : List String → List String
  mem_visit : ∀ l u, u ∈ visit l ↔ u ∈ l

/-- The feeds of a configuration with an address. -/
def feedsOf (feedUrls : List String) : List String := feedUrls.filter (· ≠ "")

def store (cache : String → Option (List Digest)) (fetched : String × List Digest) : String → Option (List Digest) :=
  Function.update cache fetched.1 (some fetched.2)

/-- The successful fetches of a run, in the order stored. -/
def Refresh.fetched (r : Refresh Digest) (feeds : List String) : List (String × List Digest) :=
  feeds.zipIdx.filterMap fun (u, i) => (r.results i).map (u, ·)

def refresh (feedUrls : List String) (s : Service Digest F) (r : Refresh Digest) : Service Digest F :=
  let feeds := feedsOf feedUrls
  if feeds = [] then { active := bloom.fresh, lastGoodEntries := fun _ => none }
  else
    let cache := (r.fetched feeds).foldl store s.lastGoodEntries
    { active := ((r.visit (feeds.filter fun u => (cache u).isSome)).flatMap fun u =>
      (cache u).getD []).foldl bloom.add bloom.fresh
      lastGoodEntries := cache }

def isBlocked (doubleHash : Hash → Digest) (s : Service Digest F) (h : Hash) : Bool :=
  bloom.test s.active (doubleHash h)

/-- The loop of `Filter` with `left` hashes to read: the slice, and how many it kept in front. -/
def filterLoop (blocked : Hash → Bool) : Nat → List Hash → Nat → List Hash × Nat
  | 0, buf, written => (buf, written)
  | left + 1, buf, written =>
    match buf[buf.length - (left + 1)]? with
    | none => (buf, written)
    | some h => if blocked h then filterLoop blocked left buf written
        else filterLoop blocked left (buf.set written h) (written + 1)

def filter (doubleHash : Hash → Digest) (s : Service Digest F) (infoHashes : List Hash) : List Hash :=
  let (buf, written) := filterLoop (isBlocked bloom doubleHash s) infoHashes.length infoHashes 0
  buf.take written

theorem filterLoop_spec (blocked : Hash → Bool) {left : Nat} {buf front rest : List Hash} (hleft : rest.length = left)
    (hbuf : rest <:+ buf) (hfront : front <+: buf) (hroom : front.length + left ≤ buf.length) :
    let out := filterLoop blocked left buf front.length
    out.1.take out.2 = front ++ rest.filter fun h => !blocked h := by
  induction left generalizing buf front rest with
  | zero =>
    rw [length_eq_zero_iff.mp hleft, filter_nil, append_nil]
    exact prefix_iff_eq_take.mp hfront |>.symm
  | succ left ih =>
    obtain ⟨h, rest, rfl⟩ := exists_cons_of_length_eq_add_one hleft
    obtain ⟨read, rfl⟩ := hbuf
    simp only [length_cons, length_append, Nat.add_right_cancel_iff] at hleft hroom
    have hget : (read ++ h :: rest)[(read ++ h :: rest).length - (left + 1)]? = some h := by
      simp [hleft]
    simp only [filterLoop, hget]
    cases hblocked : blocked h with
    | true =>
      rw [filter_cons_of_neg (by simp [hblocked])]
      exact ih hleft ⟨read ++ [h], by simp⟩ hfront (by simp; omega)
    | false =>
      have hset : front ++ [h] <+: (read ++ h :: rest).set front.length h := by
        rw [prefix_iff_eq_take, length_append, length_singleton, take_add_one, take_set_of_le (Nat.le_refl _),
          ← prefix_iff_eq_take.mp hfront, getElem?_set_self (by simp; omega)]
        rfl
      have hrest : rest <:+ (read ++ h :: rest).set front.length h := by
        refine ⟨((read ++ h :: rest).set front.length h).take (read.length + 1), ?_⟩
        conv_rhs => rw [← take_append_drop (read.length + 1) ((read ++ h :: rest).set front.length h)]
        rw [drop_set_of_lt (by omega)]
        simp
      have hstep := ih hleft hrest hset (by simp; omega)
      rw [filter_cons_of_pos (by simp [hblocked]), ← singleton_append, ← append_assoc]
      simpa using hstep

def lastFetch (events : List (String × List Digest)) (u : String) : Option (List Digest) :=
  ((events.filter fun e => e.1 == u).getLast?).map Prod.snd

theorem foldl_store (events : List (String × List Digest)) :
    events.foldl store (fun _ => none) = lastFetch events := by
  induction events using reverseRecOn with
  | nil => rfl
  | append_singleton events e ih =>
    rw [foldl_append, ih]
    funext u
    by_cases hu : e.1 = u
    · subst hu
      simp [store, lastFetch, filter_append]
    · simp [store, lastFetch, filter_append, hu, Function.update_of_ne (Ne.symm hu)]

variable (feedUrls : List String) (runs : List (Refresh Digest))

theorem runs_spec (hfeeds : feedsOf feedUrls ≠ []) :
    let s := runs.foldl (refresh bloom feedUrls) ⟨bloom.fresh, fun _ => none⟩
    s.lastGoodEntries = lastFetch (runs.flatMap (·.fetched (feedsOf feedUrls))) ∧
      ∀ u ∈ feedsOf feedUrls, ∀ es, s.lastGoodEntries u = some es → ∀ d ∈ es, bloom.test s.active d = true := by
  induction runs using reverseRecOn with
  | nil => exact ⟨rfl, nofun⟩
  | append_singleton runs r ih =>
    simp only [foldl_append, foldl_cons, foldl_nil, refresh, if_neg hfeeds, flatMap_append, flatMap_singleton]
    refine ⟨by rw [← foldl_store, foldl_append, foldl_store, ih.1], ?_⟩
    intro u hu es hes d hd
    refine bloom.test_foldl_add (.inl (mem_flatMap.mpr ⟨u, ?_, by rw [hes]; exact hd⟩))
    exact (r.mem_visit _ _).mpr (mem_filter.mpr ⟨hu, by rw [hes]; rfl⟩)

/-- **The blocklist.** After any runs, a hash in the last successful fetch of a configured feed is blocked, and
`Filter` keeps exactly the hashes that are not blocked, in their order. -/
theorem blocked_and_filtered (doubleHash : Hash → Digest) (infoHashes : List Hash) :
    let s := runs.foldl (refresh bloom feedUrls) ⟨bloom.fresh, fun _ => none⟩
    (∀ u ∈ feedsOf feedUrls, ∀ es, lastFetch (runs.flatMap (·.fetched (feedsOf feedUrls))) u = some es →
      ∀ h, doubleHash h ∈ es → isBlocked bloom doubleHash s h = true ∧ h ∉ filter bloom doubleHash s infoHashes) ∧
      filter bloom doubleHash s infoHashes = infoHashes.filter fun h => !isBlocked bloom doubleHash s h := by
  intro s
  have hfilter : filter bloom doubleHash s infoHashes = infoHashes.filter fun h => !isBlocked bloom doubleHash s h :=
    filterLoop_spec _ rfl (suffix_refl _) nil_prefix (by simp)
  refine ⟨fun u hu es hes h hh => ?_, hfilter⟩
  obtain ⟨hcache, hall⟩ := runs_spec bloom feedUrls runs (ne_nil_of_mem hu)
  have hblocked : isBlocked bloom doubleHash s h = true := hall u hu es (hcache ▸ hes) _ hh
  exact ⟨hblocked, by simp [hfilter, hblocked]⟩

/-- Two runs over the feeds `a` and `b`: first both give a list, then `a` fails. -/
def twoRuns : List (Refresh Nat) :=
  [{ results := fun i => some (if i = 0 then [1] else [2]), visit := id, mem_visit := fun _ _ => Iff.rfl },
    { results := fun i => if i = 0 then none else some [3], visit := id, mem_visit := fun _ _ => Iff.rfl }]

/-- The entry of the failing feed is still blocked, the new one of the other feed is, and its old one is not. -/
theorem failing_feed_still_blocks :
    let s := twoRuns.foldl (refresh (Bloom.exact Nat) ["a", "b", ""]) ⟨[], fun _ => none⟩
    (isBlocked (Bloom.exact Nat) id s 1 = true ∧ 1 ∉ filter (Bloom.exact Nat) id s [1, 2, 3]) ∧
      filter (Bloom.exact Nat) id s [1, 2, 3] = [2] := by
  have h := blocked_and_filtered (Bloom.exact Nat) ["a", "b", ""] twoRuns id [1, 2, 3]
  have hlast : lastFetch (twoRuns.flatMap (·.fetched (feedsOf ["a", "b", ""]))) "a" = some [1] := by decide
  exact ⟨h.1 "a" (by decide) [1] hlast 1 (by decide), h.2.trans (by decide)⟩

end BitAgent.Csamblocklist
