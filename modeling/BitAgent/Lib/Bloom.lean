/-
# Lib.Bloom — what a program may rely on in a bloom filter

A filter over keys `K` with states `F`: a key that was added is found, and stays found when others are added. Nothing
is said of a key that was not added, so that a result about a program holds for filters of every size and with every
hash function. `Bloom.exact` is the filter that makes no mistake.
-/
import Mathlib.Data.List.Basic

namespace BitAgent.Lib

open List

structure Bloom (K F : Type) where
  fresh : F
  add : F → K → F
  test : F → K → Bool
  test_added : ∀ f k, test (add f k) k = true
  test_kept : ∀ f k k', test f k = true → test (add f k') k = true

namespace Bloom

variable {K F : Type} (bloom : Bloom K F)

/-- Once all keys of a list are added, each of them is found. -/
theorem test_foldl_add {keys : List K} {f : F} {k : K} (h : k ∈ keys ∨ bloom.test f k = true) :
    bloom.test (keys.foldl bloom.add f) k = true := by
  induction keys generalizing f with
  | nil => simpa using h
  | cons x keys ih =>
    apply ih
    rcases h with hmem | hkept
    · rcases mem_cons.mp hmem with rfl | hmem
      · exact .inr (bloom.test_added f k)
      · exact .inl hmem
    · exact .inr (bloom.test_kept f k x hkept)

/-- The filter that holds its keys in a list. -/
def exact (K : Type) [DecidableEq K] : Bloom K (List K) where
  fresh := []
  add f k := k :: f
  test f k := f.contains k
  test_added f k := by simp
  test_kept f k k' h := by
    rw [contains_cons, h, Bool.or_true]

end Bloom

end BitAgent.Lib
