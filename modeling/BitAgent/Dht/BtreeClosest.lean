/-
# Dht.BtreeClosest — which ids `Closest` returns, and in which order

`Closest` walks the tree along the bits of the target and goes on in sibling branches without a path. So an id with
a longer common prefix comes first, but ids that leave the target's path at the same bit come in the order of their
distance to the *origin*. `closest_by_branch` states this with the condition under which the two orders coincide.
-/
import BitAgent.Lib.SortedPrefix
import BitAgent.Dht.BtreeInvariant

namespace BitAgent.Dht.Btree

open Lib List

/-! ## The whole walk of a node -/

namespace Node

variable {len : Nat}

/-- The walk of `xorsClosestToSubpath`, not cut off by a count. -/
def walk : Node len → Bits → List (NodeID len)
  | .empty _, _ => []
  | .leaf _ own, _ => [own]
  | .branch _ branch0 branch1 _ _, path =>
    if path.headD false then branch1.walk path.tail ++ branch0.walk []
    else branch0.walk path.tail ++ branch1.walk []

theorem take_append_fill {α : Type} (xs ys : List α) (n : Int) : (if ((xs.take n.toNat).length : Int) < n then
        xs.take n.toNat ++ ys.take (n - (xs.take n.toNat).length).toNat
      else xs.take n.toNat) = (xs ++ ys).take n.toNat := by
  rw [take_append]
  split_ifs with h
  · rw [length_take] at h ⊢
    congr 2
    omega
  · rw [length_take] at h
    rw [show n.toNat - xs.length = 0 by omega, take_zero, append_nil]

/-- **`xorsClosestToSubpath`** is the walk, cut off after `n` xors. -/
theorem xorsClosestToSubpath_eq_take (node : Node len) (path : Bits) (n : Int) :
    node.xorsClosestToSubpath path n = (node.walk path).take n.toNat := by
  induction node generalizing path n with
  | empty p => simp [xorsClosestToSubpath, walk]
  | leaf p own =>
    rw [xorsClosestToSubpath, walk]
    split_ifs with h
    · rw [show n.toNat = 0 by omega, take_zero]
    · rw [take_of_length_le (by simp; omega)]
  | branch p b0 b1 c0 c1 ih0 ih1 => grind [xorsClosestToSubpath, walk, take_append_fill]

theorem walk_nil (node : Node len) : node.walk [] = node.allXors := by
  induction node with
  | empty p => rfl
  | leaf p own => rfl
  | branch p b0 b1 c0 c1 ih0 ih1 => simp [walk, allXors, ih0, ih1]

theorem walk_perm (node : Node len) (path : Bits) : (node.walk path).Perm node.allXors := by
  induction node generalizing path with
  | empty p => exact List.Perm.refl _
  | leaf p own => exact List.Perm.refl _
  | branch p b0 b1 c0 c1 ih0 ih1 => grind [walk, allXors]

theorem drop_eq_cons_below {path x : Bits} {bit : Bool} (h : path ++ [bit] <+: x) :
    x.drop path.length = bit :: x.drop (path ++ [bit]).length := by
  obtain ⟨rest, rfl⟩ := h
  grind

/-- **The order of the walk**: by the target's path, and by number off it. -/
theorem WF.walk_sorted {node : Node len} {path target : Bits} (h : node.WF path)
    (hlen : path.length + target.length = 8 * len) :
    (node.walk target).Pairwise fun a b =>
      BitString.Before target (a.bits.drop path.length) (b.bits.drop path.length) := by
  induction node generalizing path target with
  | empty p => simp [walk]
  | leaf p own => simp [walk]
  | branch p b0 b1 c0 c1 ih0 ih1 =>
    obtain ⟨-, hroom, h0, h1, -, -⟩ := h
    cases target with
    | nil => simp at hlen; omega
    | cons s rest =>
      -- `near` is the child on the target's path and `far` its sibling
      obtain ⟨near, far, hwalk, hnear, hfar, hnearSorted⟩ : ∃ near far : Node len,
          (Node.branch p b0 b1 c0 c1).walk (s :: rest) = near.walk rest ++ far.allXors ∧
          near.WF (path ++ [s]) ∧ far.WF (path ++ [!s]) ∧
          (near.walk rest).Pairwise fun a b => BitString.Before rest
            (a.bits.drop (path ++ [s]).length) (b.bits.drop (path ++ [s]).length) := by
        have hlen' : ∀ c : Bool, (path ++ [c]).length + rest.length = 8 * len := by
          intro c
          simp at hlen ⊢
          omega
        cases s with
        | false => exact ⟨b0, b1, by simp [walk, walk_nil], h0, h1, ih0 h0 (hlen' _)⟩
        | true => exact ⟨b1, b0, by simp [walk, walk_nil], h1, h0, ih1 h1 (hlen' _)⟩
      have hnearMem : ∀ a ∈ near.walk rest, path ++ [s] <+: a.bits := fun a ha =>
        hnear.prefix_bits a ((near.walk_perm rest).mem_iff.mp ha)
      have hne : (!s) ≠ s := by cases s <;> simp
      rw [hwalk, pairwise_append]
      refine ⟨?_, ?_, ?_⟩
      · refine hnearSorted.imp_of_mem fun {a b} ha hb hab => ?_
        rw [drop_eq_cons_below (hnearMem a ha), drop_eq_cons_below (hnearMem b hb)]
        exact (BitString.before_cons_self (by simp)).mpr hab
      · refine hfar.sorted_allXors.imp_of_mem fun {a b} ha hb hab => ?_
        have hpa := hfar.prefix_bits a ha
        have hpb := hfar.prefix_bits b hb
        rw [drop_eq_cons_below hpa, drop_eq_cons_below hpb, BitString.before_cons_off hne (by simp)]
        exact (BitString.value_drop_lt_iff (by simp) hpa hpb).mpr hab
      · intro a ha b hb
        rw [drop_eq_cons_below (hnearMem a ha), drop_eq_cons_below (hfar.prefix_bits b hb)]
        exact BitString.before_cons_of_ne hne _ _ _

end Node

/-! ## Distances between ids -/

namespace NodeID

variable {len : Nat}

/-- The XOR distance: the number that the xor of two ids denotes. -/
def distance (a b : NodeID len) : Nat := BitString.value (a.mustXor b).bits
def sharedBits (a b : NodeID len) : Nat := leadingZeros (a.mustXor b).bits

/-- `a` comes ahead of `b` on the way to `target`: by the distance to the target for ids that leave its bits at
different positions, by the distance to the origin for the others. -/
def Ahead (origin target a b : NodeID len) : Prop :=
  (a.sharedBits target ≠ b.sharedBits target ∧ a.distance target < b.distance target) ∨
    (a.sharedBits target = b.sharedBits target ∧ a.distance origin < b.distance origin)

instance (origin target a b : NodeID len) : Decidable (Ahead origin target a b) := inferInstanceAs (Decidable (_ ∨ _))

theorem xor_bits_mustXor (origin a b : NodeID len) :
    BitString.xor (a.mustXor origin).bits (b.mustXor origin).bits = (a.mustXor b).bits := by
  simp only [bits_mustXor]
  exact BitString.xor_xor_xor (by simp) (by simp)

theorem shared_bits_eq (origin a b : NodeID len) :
    BitString.shared (a.mustXor origin).bits (b.mustXor origin).bits = a.sharedBits b := by
  rw [BitString.shared, xor_bits_mustXor]
  rfl

variable {target a b : NodeID len}

theorem distance_lt_of_sharedBits_lt (h : b.sharedBits target < a.sharedBits target) :
    a.distance target < b.distance target := by
  rw [distance, distance, bits_mustXor, bits_mustXor]
  refine BitString.value_xor_lt_of_shared_lt (by simp) (by simp) ?_
  simpa [sharedBits, leadingZeros, bits_mustXor, BitString.shared] using h

theorem distance_injective (h : a.distance target = b.distance target) : a = b :=
  mustXor_left_injective (bits_injective (BitString.value_injective (by simp) h))

theorem before_iff_ahead (origin target a b : NodeID len) :
    BitString.Before (target.mustXor origin).bits (a.mustXor origin).bits (b.mustXor origin).bits ↔
      Ahead origin target a b := by
  have hab := @distance_lt_of_sharedBits_lt len target a b
  have hba := @distance_lt_of_sharedBits_lt len target b a
  rw [BitString.Before, shared_bits_eq, shared_bits_eq, Ahead]
  refine or_congr_left ⟨fun h => ⟨by omega, hab h⟩, fun h => ?_⟩
  by_contra hle
  have := hba (by omega)
  omega

theorem Ahead.asymm {origin : NodeID len} (h : Ahead origin target a b) : ¬ Ahead origin target b a := by
  rw [← before_iff_ahead] at h ⊢
  exact h.asymm

theorem distance_lt_iff_getBit {origin : NodeID len} (h : a.distance origin < b.distance origin) :
    a.distance target < b.distance target ↔ target.getBit (a.sharedBits b) = origin.getBit (a.sharedBits b) := by
  have hmask := BitString.value_xor_lt_iff (t := (target.mustXor origin).bits) (by simp) (by simp) h
  rw [xor_bits_mustXor, xor_bits_mustXor, shared_bits_eq] at hmask
  rw [distance, distance, hmask]
  -- the ids differ somewhere, so the position is inside them and `GetBit` reads it
  have hpos : a.sharedBits b < 8 * len := by
    rw [← shared_bits_eq origin]
    simpa using BitString.shared_lt_length (by simp) h
  obtain ⟨t, ht⟩ : ∃ t, target.bits[a.sharedBits b]? = some t := ⟨_, getElem?_eq_getElem (by simpa using hpos)⟩
  obtain ⟨o, ho⟩ : ∃ o, origin.bits[a.sharedBits b]? = some o := ⟨_, getElem?_eq_getElem (by simpa using hpos)⟩
  rw [getBit_of_bits ht, getBit_of_bits ho, bits_mustXor, BitString.xor, getElem?_zipWith, ht, ho]
  cases t <;> cases o <;> simp

end NodeID

/-! ## `Closest` -/

namespace Root

variable {len : Nat}

/-- As many distinct stored ids as asked for, or all of them. -/
structure Selection (n : Root len) (count : Int) (out : List (NodeID len)) : Prop where
  length_eq : out.length = min count.toNat n.count
  nodup : out.Nodup
  stored : ∀ x ∈ out, n.has x = .ok true

/-- The stored ids nearest to the target, in ascending order of XOR distance. -/
structure IsClosest (n : Root len) (target : NodeID len) (count : Int)
    (out : List (NodeID len)) : Prop extends n.Selection count out where
  sorted : out.Pairwise fun a b => a.distance target ≤ b.distance target
  minimal : ∀ x, n.has x = .ok true → x ∉ out → ∀ y ∈ out, ¬ x.distance target < y.distance target

structure IsClosestByBranch (n : Root len) (target : NodeID len) (count : Int)
    (out : List (NodeID len)) : Prop extends n.Selection count out where
  sorted : out.Pairwise (NodeID.Ahead n.origin target)
  minimal : ∀ x, n.has x = .ok true → x ∉ out → ∀ y ∈ out, NodeID.Ahead n.origin target y x

/-- Where two stored ids leave the target's bits at one position, with fewer than `count` ids ahead, the target has
the origin's bit at the first position where they differ. -/
def AgreesWithOrigin (n : Root len) (target : NodeID len) (count : Int) : Prop :=
  ∀ a ∈ n.ids, ∀ b ∈ n.ids, a.sharedBits target = b.sharedBits target → a.distance n.origin < b.distance n.origin →
    ((n.ids.countP fun c => decide (NodeID.Ahead n.origin target c a) : Nat) : Int) < count →
    target.getBit (a.sharedBits b) = n.origin.getBit (a.sharedBits b)

/-- The stored ids in the order of the target's path. -/
def walk (n : Root len) (target : NodeID len) : List (NodeID len) :=
  (n.node.walk (target.mustXor n.origin).bits).map (·.mustXor n.origin)

theorem closest_eq_take (n : Root len) (target : NodeID len) (count : Int) :
    n.closest target count = (n.walk target).take count.toNat := by
  rw [closest, Node.xorsClosestToSubpath_eq_take, map_take, walk]

theorem walk_perm_ids (n : Root len) (target : NodeID len) : (n.walk target).Perm n.ids := (n.node.walk_perm _).map _

variable {n : Root len}

theorem has_iff_mem_walk (h : n.node.WF []) (target : NodeID len) {x : NodeID len} :
    n.has x = .ok true ↔ x ∈ n.walk target := by
  rw [has_eq h, (n.walk_perm_ids target).mem_iff]
  simp

theorem walk_sorted (h : n.node.WF []) (target : NodeID len) :
    (n.walk target).Pairwise (NodeID.Ahead n.origin target) := by
  rw [walk, pairwise_map]
  have hlen : ([] : Bits).length + (target.mustXor n.origin).bits.length = 8 * len := by simp
  refine (h.walk_sorted hlen).imp ?_
  grind [NodeID.before_iff_ahead, NodeID.mustXor_mustXor]

theorem closest_selection (h : n.node.WF []) (target : NodeID len) (count : Int) :
    n.Selection count (n.closest target count) := by
  rw [closest_eq_take]
  refine ⟨?_, ?_, ?_⟩
  · rw [length_take, (n.walk_perm_ids target).length_eq, ids, length_map, Root.count, h.count_eq]
  · refine List.Pairwise.sublist (take_sublist _ _) ((walk_sorted h target).imp ?_)
    rintro a _ hab rfl
    exact hab.asymm hab
  · grind [has_iff_mem_walk]

theorem closest_isClosestByBranch (h : n.node.WF []) (target : NodeID len) (count : Int) :
    n.IsClosestByBranch target count (n.closest target count) := by
  have hsorted := walk_sorted h target
  refine ⟨closest_selection h target count, ?_, ?_⟩
  · grind [closest_eq_take]
  · grind [closest_eq_take, has_iff_mem_walk, take_append_drop]

theorem closest_isClosest_iff (h : n.node.WF []) (target : NodeID len) (count : Int) :
    n.IsClosest target count (n.closest target count) ↔ n.AgreesWithOrigin target count := by
  have hperm := n.walk_perm_ids target
  have hnearest : n.IsClosest target count (n.closest target count) ↔
      SortedPrefix.Nearest (NodeID.distance · target) (n.walk target) ((n.walk target).take count.toNat) := by
    rw [closest_eq_take]
    constructor
    · rintro ⟨-, hsorted, hminimal⟩
      exact ⟨hsorted, fun x hx => hminimal x ((has_iff_mem_walk h target).mpr hx)⟩
    · rintro ⟨hsorted, hminimal⟩
      exact ⟨closest_eq_take n target count ▸ closest_selection h target count, hsorted,
        fun x hx => hminimal x ((has_iff_mem_walk h target).mp hx)⟩
  rw [hnearest, SortedPrefix.take_nearest_iff (fun _ _ => NodeID.Ahead.asymm)
    (walk_sorted h target) (fun _ _ _ _ => NodeID.distance_injective)]
  simp only [hperm.mem_iff, hperm.countP_eq]
  refine forall₄_congr fun a ha b hb => ?_
  constructor
  · intro hpair hshared horigin hrank
    exact (NodeID.distance_lt_iff_getBit horigin).mp (hpair (Or.inr ⟨hshared, horigin⟩) (by omega))
  · rintro hagree (⟨-, htarget⟩ | ⟨hshared, horigin⟩) hrank
    · exact htarget
    · grind [NodeID.distance_lt_iff_getBit]

/-- **`Closest`, on every reachable tree**, returns exactly `min count Count` distinct stored ids, the first ones in
the order of the target's path. They are the nearest in ascending order exactly when the target agrees with the
origin. -/
theorem closest_by_branch (origin : NodeID len) (k : Int) (splittingEnabled : Bool) (ops : List (Op len)) :
    ∃ n, (new origin k splittingEnabled).run ops = .ok n ∧ ∀ (target : NodeID len) (count : Int),
        n.IsClosestByBranch target count (n.closest target count) ∧
        (n.IsClosest target count (n.closest target count) ↔ n.AgreesWithOrigin target count) := by
  obtain ⟨n, hrun, hwf, -⟩ := run_wf (new_wf origin k splittingEnabled) ops
  grind [closest_isClosestByBranch, closest_isClosest_iff]

/-- For the target `10100000` the first id is returned although the second is nearer. -/
theorem closest_returns_farther_id :
    ∃ n, (new (⟨[0x00], rfl⟩ : NodeID 1) 8 true).run [.put ⟨[0x40], rfl⟩, .put ⟨[0x60], rfl⟩] = .ok n ∧
      n.closest ⟨[0xA0], rfl⟩ 1 = [⟨[0x40], rfl⟩] ∧ n.has ⟨[0x60], rfl⟩ = .ok true ∧
      ¬ n.IsClosest ⟨[0xA0], rfl⟩ 1 (n.closest ⟨[0xA0], rfl⟩ 1) := by
  refine ⟨_, rfl, by decide, by decide, ?_⟩
  rintro ⟨-, -, hminimal⟩
  exact hminimal ⟨[0x60], rfl⟩ (by decide) (by decide) ⟨[0x40], rfl⟩ (by decide) (by decide)

end Root

end BitAgent.Dht.Btree
