/-
# Lib.Blocks — a list cut into blocks of one length

`blocks n l` are the first `n` elements of `l`, the next `n`, and so on; only the last block may be shorter. They make
up the list again (`flatten_blocks`), none is empty, and the blocks of a list without repetitions are distinct
(`nodup_blocks`). A reader that takes `n` elements at a time, `m` times, gets the blocks of the first `m * n`
(`blocks_take_succ`).
-/
import Mathlib.Data.List.Nodup

namespace BitAgent.Lib

open List

variable {α : Type} {n : Nat} {l : List α}

def blocks (n : Nat) (l : List α) : List (List α) :=
  if n = 0 ∨ l = [] then [] else l.take n :: blocks n (l.drop n)
termination_by l.length
decreasing_by
  rename_i h
  obtain ⟨hn, hl⟩ := not_or.mp h
  have hpos := length_pos_iff.mpr hl
  rw [length_drop]
  omega

@[simp] theorem blocks_nil (n : Nat) : blocks n ([] : List α) = [] := by
  rw [blocks, if_pos (.inr rfl)]

theorem blocks_of_ne_nil (hn : 0 < n) (hl : l ≠ []) : blocks n l = l.take n :: blocks n (l.drop n) := by
  rw [blocks, if_neg (by grind)]

/-- The blocks of the first `(m + 1) * n` elements: one block, and those of the next `m * n` elements. -/
theorem blocks_take_succ (hn : 0 < n) (hl : l ≠ []) (m : Nat) :
    blocks n (l.take ((m + 1) * n)) = l.take n :: blocks n ((l.drop n).take (m * n)) := by
  have hle : n ≤ (m + 1) * n := Nat.le_mul_of_pos_left n (Nat.succ_pos m)
  have hne : l.take ((m + 1) * n) ≠ [] := by
    rw [Ne, take_eq_nil_iff]
    exact not_or.mpr ⟨Nat.ne_of_gt (Nat.lt_of_lt_of_le hn hle), hl⟩
  rw [blocks_of_ne_nil hn hne, take_take, Nat.min_eq_left hle, drop_take]
  congr 3
  rw [Nat.succ_mul, Nat.add_sub_cancel]

theorem flatten_blocks (hn : 0 < n) (l : List α) : (blocks n l).flatten = l := by
  fun_induction blocks n l with
  | case1 l h => grind
  | case2 l h ih => rw [flatten_cons, ih, take_append_drop]

theorem ne_nil_of_mem_blocks {b : List α} (h : b ∈ blocks n l) : b ≠ [] := by
  fun_induction blocks n l with
  | case1 l hnil => exact absurd h not_mem_nil
  | case2 l hne ih =>
    rcases mem_cons.mp h with rfl | hrest
    · rwa [Ne, take_eq_nil_iff]
    · exact ih hrest

theorem length_le_of_mem_blocks {b : List α} (h : b ∈ blocks n l) : b.length ≤ n := by
  fun_induction blocks n l with
  | case1 l hnil => exact absurd h not_mem_nil
  | case2 l hne ih => grind

theorem subset_of_mem_blocks {b : List α} (h : b ∈ blocks n l) : b ⊆ l := by
  fun_induction blocks n l with
  | case1 l hnil => exact absurd h not_mem_nil
  | case2 l hne ih =>
    rcases mem_cons.mp h with rfl | hrest
    · exact take_subset n l
    · exact List.Subset.trans (ih hrest) (drop_subset n l)

theorem nodup_blocks (h : l.Nodup) : (blocks n l).Nodup := by
  fun_induction blocks n l with
  | case1 l hnil => exact nodup_nil
  | case2 l hne ih =>
    refine nodup_cons.mpr ⟨fun hmem => ?_, ih (h.sublist (drop_sublist n l))⟩
    -- an element of the first block would be among the later ones
    obtain ⟨a, ha⟩ := exists_mem_of_ne_nil _ (ne_nil_of_mem_blocks hmem)
    exact disjoint_take_drop h (Nat.le_refl n) ha (subset_of_mem_blocks hmem ha)

theorem length_blocks_one (l : List α) : (blocks 1 l).length = l.length := by
  induction l with
  | nil => simp
  | cons a l ih => rw [blocks_of_ne_nil Nat.one_pos (cons_ne_nil a l), length_cons, drop_one, tail_cons, ih, length_cons]

end BitAgent.Lib
