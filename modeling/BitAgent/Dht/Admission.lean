/-
# Dht.Admission — which new ids the routing-table tree takes

`Put` takes a new id if its bucket has room, or if splitting is on and fewer than `k` stored ids count as closer to
the origin. At the leaf where the path ends, `leafNode.countCloserThanSubpath` counts a farther id and not a closer
one; `accepts_iff_unless_misjudged` says for which ids this changes the answer.
-/
import BitAgent.Dht.BtreeSet

namespace BitAgent.Dht.Btree

open Lib List

namespace Root

variable {len : Nat} {n : Root len} {id : NodeID len}

def closerThan (n : Root len) (id : NodeID len) : Nat :=
  n.ids.countP fun x => decide (x.distance n.origin < id.distance n.origin)

def leafOn (n : Root len) (id : NodeID len) : Option (NodeID len) :=
  (n.node.leafOn (id.mustXor n.origin).bits).map (·.mustXor n.origin)

/-- The bucket is full, and the leaf on the path is closer and the `k`-th such id, or covers the new id while only `k
- 1` are closer. -/
def Misjudged (n : Root len) (id : NodeID len) : Prop :=
  n.k ≤ n.membersIn (id.sharedBits n.origin) ∧ n.splittingEnabled = true ∧ ∃ own, n.leafOn id = some own ∧
    (own.distance n.origin < id.distance n.origin ∧ (n.closerThan id : Int) = n.k ∨
      covers (own.mustXor n.origin).bits (id.mustXor n.origin).bits = true ∧ (n.closerThan id : Int) + 1 = n.k)

theorem closerThan_eq (n : Root len) (id : NodeID len) : n.closerThan id = n.node.closer (id.mustXor n.origin) := by
  rw [closerThan, ids, countP_map, Node.closer]
  refine countP_congr fun x _ => ?_
  simp [NodeID.distance]

theorem put_accepted_iff (h : n.node.WF []) (hne : id ≠ n.origin) (habsent : id ∉ n.ids) :
    (∃ n', n.put id = .ok (n', .accepted)) ↔ n.full (id.mustXor n.origin) = .ok false := by
  have hequals : id.equals n.origin = false := Bool.eq_false_iff.mpr (mt NodeID.equals_iff.mp hne)
  have hknown : id.mustXor n.origin ∉ n.node.allXors := fun hmem => habsent (mem_ids_iff.mpr hmem)
  have hneed : n.node.putNeed ([] : Bits).length ≤ putFuel len := by cases n.node <;> simp [Node.putNeed, putFuel]
  obtain ⟨node, hput, -⟩ := Node.put_spec h nil_prefix hknown hneed
  simp only [put, hequals, h.has_eq nil_prefix, hknown, hput, bind, Except.bind]
  cases n.full (id.mustXor n.origin) with
  | error e => simp
  | ok isFull => cases isFull <;> simp

theorem Sound.accepts_iff (h : n.Sound) (hne : id ≠ n.origin) (habsent : id ∉ n.ids) :
    ((∃ n', n.put id = .ok (n', .accepted)) ↔ (n.membersIn (id.sharedBits n.origin) : Int) < n.k ∨
      n.splittingEnabled = true ∧ (n.closerThan id : Int) < n.k) ↔ ¬ n.Misjudged id := by
  have hknown : id.mustXor n.origin ∉ n.node.allXors := fun hmem => habsent (mem_ids_iff.mpr hmem)
  obtain ⟨c, hc, hsum⟩ := h.shape.countCloserThanSubpath_eq (nil_append _).symm hknown
  have hbucket : n.getBucketCount (id.mustXor n.origin) = n.membersIn (id.sharedBits n.origin) := h.buckets _
  rw [put_accepted_iff h.shape hne habsent, full, hbucket, hc, Misjudged, leafOn, closerThan_eq]
  by_cases hfull : n.k ≤ n.membersIn (id.sharedBits n.origin)
  swap
  · simp [hfull, Int.not_le.mp hfull]
  cases n.splittingEnabled with
  | false => simp [hfull]
  | true =>
    simp only [ge_iff_le, hfull, if_true, Bool.not_true, Bool.false_eq_true, if_false, bind, Except.bind,
      Except.ok.injEq, decide_eq_false_iff_not, Int.not_le, true_and, Int.not_lt.mpr hfull, false_or]
    unfold Node.leafCounts at hsum
    cases hleaf : n.node.leafOn (id.mustXor n.origin).bits with
    | none =>
      rw [hleaf] at hsum
      simp only [Nat.add_zero] at hsum
      simp [hsum]
    | some own =>
      rw [hleaf] at hsum
      simp only [Option.map_some, Option.some.injEq, exists_eq_left', NodeID.distance, NodeID.mustXor_mustXor]
      by_cases hlt : BitString.value own.bits < BitString.value (id.mustXor n.origin).bits
      · have hcov : covers own.bits (id.mustXor n.origin).bits = false :=
          Bool.eq_false_iff.mpr fun hcov => absurd (value_le_of_covers (by simp) hcov) (by omega)
        simp only [hcov, hlt, decide_true, Bool.toNat_true, Bool.toNat_false, Nat.add_zero] at hsum ⊢
        simp only [true_and, Bool.false_eq_true, false_and, or_false]
        omega
      · simp only [hlt, decide_false, Bool.toNat_false, Nat.add_zero, false_and, false_or] at hsum ⊢
        cases hcov : covers own.bits (id.mustXor n.origin).bits <;>
          simp only [hcov, Bool.toNat_true, Bool.toNat_false, true_and, Bool.false_eq_true, false_and,
            not_false_eq_true, iff_true] at hsum ⊢ <;>
          omega

/-- **What `Put` takes.** After any calls, a new id is taken exactly when its bucket has room or, with splitting,
fewer than `k` stored ids are closer, unless its leaf is miscounted. -/
theorem accepts_iff_unless_misjudged (origin : NodeID len) (k : Int) (splittingEnabled : Bool) (ops : List (Op len)) :
    ∃ n, (new origin k splittingEnabled).run ops = .ok n ∧ ∀ id, id ≠ n.origin → id ∉ n.ids →
      (((∃ n', n.put id = .ok (n', .accepted)) ↔ (n.membersIn (id.sharedBits n.origin) : Int) < n.k ∨
        n.splittingEnabled = true ∧ (n.closerThan id : Int) < n.k) ↔ ¬ n.Misjudged id) := by
  obtain ⟨n, hrun, hsound, -⟩ := run_sound (sound_new origin k splittingEnabled) rfl ops
  exact ⟨n, hrun, fun id hne habsent => hsound.accepts_iff hne habsent⟩

/-- With `k = 1` and `10000000` stored, `11000000` is taken, although its bucket is full and one id is closer. -/
theorem accepts_with_full_bucket_and_closer_id :
    ∃ n, (new (⟨[0x00], rfl⟩ : NodeID 1) 1 true).run [.put ⟨[0x80], rfl⟩] = .ok n ∧
      ⟨[0xC0], rfl⟩ ∉ n.ids ∧ n.membersIn (NodeID.sharedBits ⟨[0xC0], rfl⟩ n.origin) = 1 ∧ n.k = 1 ∧
      n.closerThan ⟨[0xC0], rfl⟩ = 1 ∧ ∃ n', n.put ⟨[0xC0], rfl⟩ = .ok (n', .accepted) :=
  ⟨_, rfl, by decide, by decide, rfl, by decide, _, rfl⟩

end Root

end BitAgent.Dht.Btree
