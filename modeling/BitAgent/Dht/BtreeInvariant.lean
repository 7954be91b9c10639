/-
# Dht.BtreeInvariant — the shape of the routing-table tree and what `Put` and `Drop` do to it

The tree is a compressed binary trie: a node's `path` is a prefix of every xor below it, and a branch's counts are
those of its children (`WF`). `put_spec` and `drop_spec` say that the operations panic nowhere, end within their
fuel and change exactly the given xor; `run_wf` carries the shape through any sequence of calls.
-/
import BitAgent.Lib.BitString
import BitAgent.Dht.Btree

namespace BitAgent.Dht.Btree

open Lib List

/-! ## Ids and their bits -/

namespace NodeID

variable {len : Nat} {a b : NodeID len}

theorem ext_bytes (h : a.bytes = b.bytes) : a = b := by
  cases a
  cases b
  simp_all

@[simp] theorem equals_iff : a.equals b = true ↔ a = b :=
  ⟨fun h => ext_bytes (by simpa [equals] using h), fun h => by simp [equals, h]⟩

@[simp] theorem length_bits (id : NodeID len) : id.bits.length = 8 * len := by
  simp [bits, length_flatMap, id.length_bytes, Nat.mul_comm]

theorem flatMap_byteBit_getElem? (bytes : List UInt8) (n : Nat) :
    (bytes.flatMap fun b => (List.range 8).map (byteBit b))[n]? = (bytes[n / 8]?).map fun b => byteBit b n := by
  induction bytes generalizing n with
  | nil => simp
  | cons b bytes ih =>
    rw [flatMap_cons]
    by_cases hn : n < 8
    · grind
    · rw [List.getElem?_append_right (by simpa using hn)]
      have hdiv : n / 8 = (n - 8) / 8 + 1 := by omega
      have hmod : (n - 8) % 8 = n % 8 := by omega
      simp only [length_map, length_range, ih, hdiv, List.getElem?_cons_succ]
      simp only [byteBit, hmod]

theorem getBit_of_bits {id : NodeID len} {n : Nat} {b : Bool} (h : id.bits[n]? = some b) :
    id.getBit n = .ok b := by grind [bits, flatMap_byteBit_getElem?, getBit]

theorem byte_eq_of_bits {a b : UInt8}
    (h : (List.range 8).map (byteBit a) = (List.range 8).map (byteBit b)) : a = b := by
  apply UInt8.toBitVec_inj.mp
  apply BitVec.eq_of_getLsbD_eq
  intro i hi
  have hbit := congrArg (·[7 - i]?) h
  grind [byteBit]

theorem bits_injective (h : a.bits = b.bits) : a = b := by
  obtain ⟨as, has⟩ := a
  obtain ⟨bs, hbs⟩ := b
  apply ext_bytes
  simp only [bits] at h ⊢
  rw [← hbs] at has
  clear hbs
  induction as generalizing bs with
  | nil => exact (length_eq_zero_iff.mp has.symm).symm
  | cons x xs ih =>
    cases bs with
    | nil => simp at has
    | cons y ys => grind [append_inj, byte_eq_of_bits]

theorem bits_mustXor (a b : NodeID len) : (a.mustXor b).bits = BitString.xor a.bits b.bits := by
  obtain ⟨as, has⟩ := a
  obtain ⟨bs, hbs⟩ := b
  simp only [bits, mustXor]
  rw [← hbs] at has
  clear hbs
  induction as generalizing bs with
  | nil =>
    rw [length_eq_zero_iff.mp has.symm]
    rfl
  | cons x xs ih =>
    cases bs with
    | nil => simp at has
    | cons y ys =>
      rw [zipWith_cons_cons, flatMap_cons, flatMap_cons, flatMap_cons,
        ih ys (by simpa using has), BitString.xor, BitString.xor,
        zipWith_append (by simp)]
      congr 1
      simp [zipWith_map, zipWith_self, byteBit]

@[simp] theorem mustXor_mustXor (a b : NodeID len) : (a.mustXor b).mustXor b = a := by
  obtain ⟨as, has⟩ := a
  obtain ⟨bs, hbs⟩ := b
  apply ext_bytes
  simp only [mustXor]
  rw [← hbs] at has
  clear hbs
  induction as generalizing bs with
  | nil => simp
  | cons x xs ih =>
    cases bs with
    | nil => simp at has
    | cons y ys => simp [ih ys (by simpa using has)]

theorem mustXor_left_injective {c : NodeID len} (h : a.mustXor c = b.mustXor c) : a = b := by
  rw [← mustXor_mustXor a c, h, mustXor_mustXor]

end NodeID

/-! ## Strings that cover others -/

/-- The first string has a one in every place where the second has one. -/
def covers (own xor : Bits) : Bool := (List.zip own xor).all fun (a, b) => a || !b

theorem value_le_of_covers {own xor : Bits} (hlen : own.length = xor.length) (h : covers own xor = true) :
    BitString.value xor ≤ BitString.value own := by
  induction own generalizing xor with
  | nil => simp [length_eq_zero_iff.mp hlen.symm]
  | cons a own ih =>
    cases xor with
    | nil => simp at hlen
    | cons b xor =>
      simp only [length_cons, Nat.add_right_cancel_iff] at hlen
      simp only [covers, zip_cons_cons, all_cons, Bool.and_eq_true] at h
      have hrest := ih hlen h.2
      rw [BitString.value_cons, BitString.value_cons, hlen]
      generalize 2 ^ xor.length = m
      cases a <;> cases b <;> simp_all
      omega

theorem covers_append (p own xor : Bits) : covers (p ++ own) (p ++ xor) = covers own xor := by
  induction p with
  | nil => rfl
  | cons a p ih => cases a <;> simpa [covers] using ih

/-! ## The shape of a node -/

namespace Node

variable {len : Nat}

/-- The shape of a node: it carries its path, every xor below starts with it, and the counts are those of the
children. -/
def WF : Node len → Bits → Prop
  | .empty p, path => p = path
  | .leaf p xor, path => p = path ∧ path <+: xor.bits
  | .branch p branch0 branch1 count0 count1, path =>
    p = path ∧ path.length < 8 * len ∧ branch0.WF (path ++ [false]) ∧ branch1.WF (path ++ [true]) ∧
      count0 = branch0.count ∧ count1 = branch1.count

variable {path : Bits} {xor : NodeID len}

theorem exists_next_bit (hp : path <+: xor.bits) (hlen : path.length < 8 * len) :
    ∃ bit, xor.bits[path.length]? = some bit ∧ path ++ [bit] <+: xor.bits := by
  obtain ⟨rest, hrest⟩ := hp
  cases rest with
  | nil =>
    have := xor.length_bits
    rw [← hrest] at this
    simp at this
    omega
  | cons bit rest =>
    refine ⟨bit, ?_, rest, by simpa using hrest⟩
    rw [← hrest]
    simp

variable {bit : Bool}

theorem next_bit_unique {bit' : Bool} (h : path ++ [bit] <+: xor.bits) (hget : xor.bits[path.length]? = some bit') :
    bit = bit' := by
  obtain ⟨rest, hrest⟩ := h
  rw [← hrest] at hget
  simpa using hget

variable {n : Node len}

theorem WF.prefix_bits (h : n.WF path) : ∀ x ∈ n.allXors, path <+: x.bits := by
  induction n generalizing path with
  | empty p => simp [allXors]
  | leaf p xor => simpa [allXors] using h.2
  | branch p b0 b1 c0 c1 ih0 ih1 =>
    obtain ⟨-, -, h0, h1, -, -⟩ := h
    intro x hx
    rcases mem_append.mp hx with hx | hx
    · exact (prefix_append path [false]).trans (ih0 h0 x hx)
    · grind [prefix_append]

theorem WF.count_eq (h : n.WF path) : n.count = n.allXors.length := by
  induction n generalizing path with
  | empty p => rfl
  | leaf p xor => rfl
  | branch p b0 b1 c0 c1 ih0 ih1 =>
    obtain ⟨-, -, h0, h1, rfl, rfl⟩ := h
    grind [allXors, count]

variable {p : Bits} {b0 b1 : Node len} {c0 c1 : Nat}

theorem WF.mem_branch_iff (h : (Node.branch p b0 b1 c0 c1).WF path) (hget : xor.bits[path.length]? = some bit) :
    xor ∈ (Node.branch p b0 b1 c0 c1).allXors ↔ xor ∈ (if bit then b1 else b0).allXors := by
  obtain ⟨-, -, h0, h1, -, -⟩ := h
  rw [allXors, mem_append]
  constructor
  · rintro (hx | hx)
    · rw [← next_bit_unique (h0.prefix_bits xor hx) hget]
      exact hx
    · rw [← next_bit_unique (h1.prefix_bits xor hx) hget]
      exact hx
  · cases bit <;> simp_all

/-- **`has`** panics nowhere and tells membership. -/
theorem WF.has_eq (h : n.WF path) (hp : path <+: xor.bits) : n.has xor = .ok (decide (xor ∈ n.allXors)) := by
  induction n generalizing path with
  | empty p => simp [has, allXors]
  | leaf p own => grind [NodeID.equals_iff, has, allXors]
  | branch p b0 b1 c0 c1 ih0 ih1 =>
    have hwf := h
    obtain ⟨rfl, hlen, h0, h1, -, -⟩ := h
    obtain ⟨bit, hget, hnext⟩ := exists_next_bit hp hlen
    rw [has, NodeID.getBit_of_bits hget, decide_eq_decide.mpr (hwf.mem_branch_iff hget)]
    cases bit with
    | false => exact ih0 h0 hnext
    | true => exact ih1 h1 hnext

theorem WF.sorted_allXors (h : n.WF path) :
    n.allXors.Pairwise fun a b => BitString.value a.bits < BitString.value b.bits := by
  induction n generalizing path with
  | empty p => simp [allXors]
  | leaf p xor => simp [allXors]
  | branch p b0 b1 c0 c1 ih0 ih1 =>
    obtain ⟨-, -, h0, h1, -, -⟩ := h
    rw [allXors, pairwise_append]
    refine ⟨ih0 h0, ih1 h1, ?_⟩
    intro a ha b hb
    exact BitString.value_lt_below (by simp) (h0.prefix_bits a ha) (h1.prefix_bits b hb)

/-! ## The count of closer xors -/

def leafOn : Node len → Bits → Option (NodeID len)
  | .leaf _ own, _ => some own
  | .branch _ branch0 branch1 _ _, bit :: rest => if bit then branch1.leafOn rest else branch0.leafOn rest
  | _, _ => none

def closer (n : Node len) (xor : NodeID len) : Nat :=
  n.allXors.countP fun x => decide (BitString.value x.bits < BitString.value xor.bits)

/-- What the leaf on the path adds to the count, and what it should add. -/
def leafCounts (n : Node len) (xs : Bits) (xor : NodeID len) : Nat × Nat :=
  match n.leafOn xs with
  | none => (0, 0)
  | some own => ((covers own.bits xor.bits).toNat, (decide (BitString.value own.bits < BitString.value xor.bits)).toNat)

variable {xs : Bits}

theorem leafCloser_eq {own : NodeID len} {p os : Bits} (hown : own.bits = p ++ os) (hlen : os.length = xs.length) :
    leafCloser own p.length xs = .ok (covers os xs).toNat := by
  induction xs generalizing p os with
  | nil =>
    rw [length_eq_zero_iff.mp hlen]
    rfl
  | cons x xs ih =>
    cases os with
    | nil => simp at hlen
    | cons o os =>
      have hrest := @ih (p ++ [o]) os (by simp [hown]) (by simpa using hlen)
      rw [length_append] at hrest
      have hget : own.getBit p.length = .ok o := NodeID.getBit_of_bits (by simp [hown])
      cases x with
      | false =>
        show leafCloser own (p.length + 1) xs = _
        rw [show p.length + 1 = p.length + [o].length from rfl, hrest]
        simp [covers]
      | true =>
        rw [leafCloser, hget]
        cases o with
        | false => simp [covers, bind, Except.bind]
        | true => simpa [covers, bind, Except.bind] using hrest

theorem closer_branch {p : Bits} {b0 b1 : Node len} {c0 c1 : Nat} :
    (Node.branch p b0 b1 c0 c1).closer xor = b0.closer xor + b1.closer xor := by
  rw [closer, allXors, countP_append]
  rfl

theorem WF.closer_zeros (h : n.WF (path ++ [false])) (hxor : path ++ [true] <+: xor.bits) : n.closer xor = n.count := by
  rw [h.count_eq]
  refine countP_eq_length.mpr fun x hx => decide_eq_true ?_
  exact BitString.value_lt_below (by simp) (h.prefix_bits x hx) hxor

theorem WF.closer_ones (h : n.WF (path ++ [true])) (hxor : path ++ [false] <+: xor.bits) : n.closer xor = 0 := by
  refine countP_eq_zero.mpr fun x hx hlt => ?_
  have hgt := BitString.value_lt_below (by simp) hxor (h.prefix_bits x hx)
  exact absurd (of_decide_eq_true hlt) (by omega)

theorem WF.count_eq_zero (h : n.WF xor.bits) (habsent : xor ∉ n.allXors) : n.count = 0 := by
  rw [h.count_eq, length_eq_zero_iff, eq_nil_iff_forall_not_mem]
  intro x hx
  have heq := (h.prefix_bits x hx).eq_of_length (by simp)
  exact habsent (NodeID.bits_injective heq ▸ hx)

/-- **The count along a path** differs from the number of closer xors by what the leaf at its end adds. -/
theorem WF.countCloserThanSubpath_eq (h : n.WF path) (hxor : xor.bits = path ++ xs) (habsent : xor ∉ n.allXors) :
    ∃ c, n.countCloserThanSubpath xs = .ok c ∧
      c + (n.leafCounts xs xor).2 = n.closer xor + (n.leafCounts xs xor).1 := by
  induction n generalizing path xs with
  | empty p => exact ⟨0, by simp [countCloserThanSubpath], by simp [leafCounts, leafOn, closer, allXors]⟩
  | leaf p own =>
    obtain ⟨rfl, os, hown⟩ := h
    have hlen : os.length = xs.length := by
      have := congrArg List.length hxor
      have := congrArg List.length hown
      simp only [length_append, NodeID.length_bits] at *
      omega
    refine ⟨_, (leafCloser_eq hown.symm hlen), ?_⟩
    simp only [leafCounts, leafOn, closer, allXors, countP_singleton]
    rw [← hown, hxor, covers_append, Nat.add_comm]
    by_cases hlt : BitString.value (p ++ os) < BitString.value (p ++ xs) <;> simp [hlt]
  | branch p b0 b1 c0 c1 ih0 ih1 =>
    obtain ⟨rfl, hlt, h0, h1, rfl, rfl⟩ := h
    simp only [allXors, mem_append, not_or] at habsent
    obtain ⟨x, xs, rfl⟩ : ∃ x rest, xs = x :: rest := by
      refine exists_cons_of_ne_nil fun hnil => ?_
      have := congrArg List.length hxor
      simp only [hnil, append_nil, NodeID.length_bits] at this
      omega
    have hnext : xor.bits = (p ++ [x]) ++ xs := by simp [hxor]
    have hp : p ++ [x] <+: xor.bits := ⟨xs, hnext.symm⟩
    rw [closer_branch]
    cases x with
    | false =>
      obtain ⟨c, hc, hsum⟩ := ih0 h0 hnext habsent.1
      rw [h1.closer_ones hp, Nat.add_zero]
      cases xs with
      | nil =>
        rw [append_nil] at hnext
        have hzero := WF.count_eq_zero (hnext ▸ h0) habsent.1
        refine ⟨b0.count, rfl, ?_⟩
        show b0.count + (b0.leafCounts [] xor).2 = b0.closer xor + (b0.leafCounts [] xor).1
        have hnone : b0.allXors = [] := length_eq_zero_iff.mp (h0.count_eq ▸ hzero)
        cases b0 <;> simp_all [leafCounts, leafOn, closer, allXors]
      | cons y ys => exact ⟨c, hc, hsum⟩
    | true =>
      obtain ⟨c, hc, hsum⟩ := ih1 h1 hnext habsent.2
      rw [h0.closer_zeros hp]
      cases xs with
      | nil =>
        rw [append_nil] at hnext
        have hzero := WF.count_eq_zero (hnext ▸ h1) habsent.2
        refine ⟨b0.count + b1.count, rfl, ?_⟩
        show b0.count + b1.count + (b1.leafCounts [] xor).2 = b0.count + b1.closer xor + (b1.leafCounts [] xor).1
        have hnone : b1.allXors = [] := length_eq_zero_iff.mp (h1.count_eq ▸ hzero)
        cases b1 <;> simp_all [leafCounts, leafOn, closer, allXors]
      | cons y ys =>
        refine ⟨b0.count + c, by simp [countCloserThanSubpath, hc, bind, Except.bind], ?_⟩
        show b0.count + c + (b1.leafCounts (y :: ys) xor).2 = b0.count + b1.closer xor + (b1.leafCounts (y :: ys) xor).1
        omega

/-! ## `put` -/

/-- The calls a `put` needs below a node; a leaf, which turns into a branch first, needs one more. -/
def putNeed (depth : Nat) : Node len → Nat
  | .leaf _ _ => 2 * (8 * len - depth) + 2
  | _ => 2 * (8 * len - depth) + 1

theorem put_initNode {own : NodeID len} (hp : path <+: own.bits) (hlen : path.length < 8 * len) (fuel : Nat) :
    ∃ b0 b1 c0 c1, put (fuel + 2) (initNode path) own = .ok (.branch path b0 b1 c0 c1, .accepted) ∧
      (Node.branch path b0 b1 c0 c1).WF path ∧ (Node.branch path b0 b1 c0 c1).allXors = [own] := by
  obtain ⟨bit, hget, hnext⟩ := exists_next_bit hp hlen
  rw [initNode, put, NodeID.getBit_of_bits hget]
  cases bit with
  | false => exact ⟨_, _, _, _, rfl, by simp [WF, hlen, hnext, count], rfl⟩
  | true => exact ⟨_, _, _, _, rfl, by simp [WF, hlen, hnext, count], rfl⟩

variable {x : NodeID len}

theorem path_length_lt {y : NodeID len} (hx : path <+: x.bits) (hy : path <+: y.bits) (hne : x ≠ y) :
    path.length < 8 * len := by
  have hle : path.length ≤ 8 * len := x.length_bits ▸ hx.length_le
  refine Nat.lt_of_le_of_ne hle fun heq => hne (NodeID.bits_injective ?_)
  rw [← hx.eq_of_length (by simp [heq]), ← hy.eq_of_length (by simp [heq])]

theorem WF.setBranch {p path : Bits} {b0 b1 child : Node len} {c0 c1 : Nat} {bit : Bool}
    (h : (Node.branch p b0 b1 c0 c1).WF path) (hchild : child.WF (path ++ [bit])) :
    (setBranch p b0 b1 c0 c1 bit child).WF path := by
  obtain ⟨hp, hlen, h0, h1, hc0, hc1⟩ := h
  cases bit with
  | false => exact ⟨hp, hlen, hchild, h1, rfl, hc1⟩
  | true => exact ⟨hp, hlen, h0, hchild, hc0, rfl⟩

theorem mem_allXors_setBranch {child : Node len} :
    x ∈ (setBranch p b0 b1 c0 c1 bit child).allXors ↔ x ∈ child.allXors ∨ x ∈ (if bit then b0 else b1).allXors := by
  cases bit <;> simp [Node.setBranch, allXors, or_comm]

theorem mem_allXors_branch (bit : Bool) :
    x ∈ (Node.branch p b0 b1 c0 c1).allXors ↔
      x ∈ (if bit then b1 else b0).allXors ∨ x ∈ (if bit then b0 else b1).allXors := by
  cases bit <;> simp [allXors, or_comm]

/-- **`put`** of an absent xor ends within its fuel, panics nowhere, is accepted, and adds exactly
that xor. -/
theorem put_spec {fuel : Nat} (h : n.WF path) (hp : path <+: xor.bits) (habsent : xor ∉ n.allXors)
    (hfuel : n.putNeed path.length ≤ fuel) :
    ∃ n', n.put fuel xor = .ok (n', .accepted) ∧ n'.WF path ∧ ∀ x, x ∈ n'.allXors ↔ x = xor ∨ x ∈ n.allXors := by
  induction fuel generalizing n path with
  | zero => cases n <;> simp [putNeed] at hfuel
  | succ fuel ih =>
    cases n with
    | empty p => exact ⟨.leaf p xor, rfl, ⟨h, hp⟩, by simp [allXors]⟩
    | leaf p own =>
      obtain ⟨rfl, hown⟩ := h
      have hne : own ≠ xor := by
        rintro rfl
        exact habsent (by simp [allXors])
      have hlen := path_length_lt hown hp hne
      simp only [putNeed] at hfuel
      obtain ⟨b0, b1, c0, c1, hput, hwf, hall⟩ := put_initNode hown hlen (fuel - 2)
      rw [show fuel - 2 + 2 = fuel by omega] at hput
      have hbranch : (Node.branch p b0 b1 c0 c1).putNeed p.length ≤ fuel := by
        simp only [putNeed]
        omega
      obtain ⟨n', hput', hwf', hmem'⟩ := ih hwf hp (by rw [hall]; simpa [eq_comm] using hne) hbranch
      refine ⟨n', ?_, hwf', ?_⟩
      · have hequals : own.equals xor = false := Bool.eq_false_iff.mpr (mt NodeID.equals_iff.mp hne)
        rw [put, hequals, hput]
        exact hput'
      · intro x
        rw [hmem', hall, allXors]
    | branch p b0 b1 c0 c1 =>
      have hwf := h
      obtain ⟨rfl, hlen, h0, h1, -, -⟩ := h
      obtain ⟨bit, hget, hnext⟩ := exists_next_bit hp hlen
      have hchild : (if bit then b1 else b0).WF (p ++ [bit]) := by cases bit <;> assumption
      have hneed : (if bit then b1 else b0).putNeed (p ++ [bit]).length ≤ fuel := by
        simp only [putNeed] at hfuel
        rw [length_append, length_singleton]
        cases (if bit then b1 else b0) <;> simp only [putNeed] <;> omega
      obtain ⟨child, hput, hchild', hmem⟩ := ih hchild hnext (mt (hwf.mem_branch_iff hget).mpr habsent) hneed
      refine ⟨_, ?_, hwf.setBranch hchild', ?_⟩
      · rw [put, NodeID.getBit_of_bits hget]
        simp only [bind, Except.bind, hput, if_true]
      · intro x
        rw [mem_allXors_setBranch, hmem, mem_allXors_branch bit, or_assoc]

/-! ## `drop` -/

theorem dropped_spec {sibling newBranch updated : Node len} {side : Bool} (hs : sibling.WF (path ++ [side]))
    (hn : newBranch.count = newBranch.allXors.length) (hu : updated.WF path)
    (hmem : ∀ x, x ∈ updated.allXors ↔ x ∈ newBranch.allXors ∨ x ∈ sibling.allXors) :
    ∃ n', dropped path sibling sibling.count newBranch updated = .ok n' ∧ n'.WF path ∧
      ∀ x, x ∈ n'.allXors ↔ x ∈ newBranch.allXors ∨ x ∈ sibling.allXors := by
  have hempty : newBranch.count = 0 → newBranch.allXors = [] := fun h => length_eq_zero_iff.mp (hn ▸ h)
  unfold dropped
  split_ifs with hzero hone
  · have hsib : sibling.allXors = [] := length_eq_zero_iff.mp (hs.count_eq ▸ hzero.2)
    exact ⟨_, rfl, rfl, by simp [allXors, hempty hzero.1, hsib]⟩
  · obtain ⟨xor, hxor⟩ := length_eq_one_iff.mp (hs.count_eq ▸ hone.2)
    have hpath : path <+: xor.bits := (prefix_append path [side]).trans (hs.prefix_bits xor (by simp [hxor]))
    rw [hxor]
    exact ⟨_, rfl, ⟨rfl, hpath⟩, by simp [allXors, hempty hone.1]⟩
  · exact ⟨_, rfl, hu, hmem⟩

/-- **`drop`** panics nowhere, tells whether the xor was there, and removes exactly it. -/
theorem drop_spec (h : n.WF path) (hp : path <+: xor.bits) :
    ∃ n', n.drop xor = .ok (n', decide (xor ∈ n.allXors)) ∧ n'.WF path ∧
      ∀ x, x ∈ n'.allXors ↔ x ∈ n.allXors ∧ x ≠ xor := by
  induction n generalizing path with
  | empty p => grind [drop, allXors]
  | leaf p own =>
    by_cases heq : own = xor
    · subst heq
      exact ⟨.empty p, by simp [drop, allXors], h.1, by simp [allXors]⟩
    · grind [NodeID.equals_iff, drop, allXors]
  | branch p b0 b1 c0 c1 ih0 ih1 =>
    have hwf := h
    obtain ⟨rfl, hlen, h0, h1, rfl, rfl⟩ := h
    obtain ⟨bit, hget, hnext⟩ := exists_next_bit hp hlen
    have hsib : (if bit then b0 else b1).WF (p ++ [!bit]) := by cases bit <;> assumption
    have hsibCount : (if bit then b0.count else b1.count) = (if bit then b0 else b1).count := by cases bit <;> rfl
    -- an xor of the sibling differs from the dropped one in the next bit
    have hother : ∀ x ∈ (if bit then b0 else b1).allXors, x ≠ xor := by
      rintro x hx rfl
      exact absurd (next_bit_unique (hsib.prefix_bits x hx) hget) (by cases bit <;> simp)
    obtain ⟨child, hdrop, hchild, hmem⟩ : ∃ child, (if bit then b1.drop xor else b0.drop xor) =
          .ok (child, decide (xor ∈ (if bit then b1 else b0).allXors)) ∧
        child.WF (p ++ [bit]) ∧
        ∀ x, x ∈ child.allXors ↔ x ∈ (if bit then b1 else b0).allXors ∧ x ≠ xor := by grind
    have hdec : decide (xor ∈ (Node.branch p b0 b1 b0.count b1.count).allXors) =
        decide (xor ∈ (if bit then b1 else b0).allXors) :=
      decide_eq_decide.mpr (hwf.mem_branch_iff hget)
    rw [drop, NodeID.getBit_of_bits hget, hdec]
    simp only [bind, Except.bind, hdrop, hsibCount]
    by_cases hin : xor ∈ (if bit then b1 else b0).allXors
    · obtain ⟨n', hn', hwf', hmem'⟩ := dropped_spec hsib hchild.count_eq (hwf.setBranch hchild)
        (fun x => mem_allXors_setBranch)
      refine ⟨n', by simp [hin, hn'], hwf', ?_⟩
      intro x
      rw [hmem', hmem, mem_allXors_branch bit, or_and_right]
      exact or_congr_right (iff_self_and.mpr (hother x))
    · grind

end Node

/-! ## Runs of the root -/

namespace Root

variable {len : Nat}

def ids (n : Root len) : List (NodeID len) := n.node.allXors.map (·.mustXor n.origin)

variable {n : Root len}

theorem mem_ids_iff {id : NodeID len} :
    id ∈ n.ids ↔ id.mustXor n.origin ∈ n.node.allXors := by grind [ids, NodeID.mustXor_mustXor]

/-- **`Has`** tells the stored ids. -/
theorem has_eq (h : n.node.WF []) (id : NodeID len) : n.has id = .ok (decide (id ∈ n.ids)) := by
  rw [has, h.has_eq nil_prefix, decide_eq_decide.mpr mem_ids_iff]

/-- What `Put` answers, with the tree that it leaves. -/
inductive PutCase (n : Root len) (id : NodeID len) : Root len → PutResult → Prop
  | origin (is_origin : id = n.origin) : PutCase n id n .rejected
  | known (ne_origin : id ≠ n.origin) (mem : id ∈ n.ids) : PutCase n id n .alreadyExists
  | full (ne_origin : id ≠ n.origin) (absent : id ∉ n.ids) : PutCase n id n .rejected
  | added {n' : Root len} (ne_origin : id ≠ n.origin) (absent : id ∉ n.ids) (shape : n'.node.WF [])
      (same_origin : n'.origin = n.origin)
      (buckets : n'.bucketCounts = n.addBucketCount (id.mustXor n.origin) 1)
      (mem_iff : ∀ x, x ∈ n'.ids ↔ x = id ∨ x ∈ n.ids) : PutCase n id n' .accepted

theorem put_cases (h : n.node.WF []) (id : NodeID len) :
    ∃ n' result, n.put id = .ok (n', result) ∧ PutCase n id n' result := by
  by_cases horigin : id.equals n.origin
  · exact ⟨n, .rejected, by simp [put, horigin], .origin (NodeID.equals_iff.mp horigin)⟩
  have hne : id ≠ n.origin := fun heq => horigin (NodeID.equals_iff.mpr heq)
  have hnil : [] <+: (id.mustXor n.origin).bits := nil_prefix
  have hhas := h.has_eq hnil
  by_cases hknown : id.mustXor n.origin ∈ n.node.allXors
  · exact ⟨n, .alreadyExists, by simp [put, horigin, hhas, hknown, bind, Except.bind],
      .known hne (mem_ids_iff.mpr hknown)⟩
  have habsent : id ∉ n.ids := fun hmem => hknown (mem_ids_iff.mp hmem)
  obtain ⟨isFull, hfull⟩ : ∃ b, n.full (id.mustXor n.origin) = .ok b := by
    obtain ⟨c, hc, -⟩ := h.countCloserThanSubpath_eq (nil_append _).symm hknown
    unfold full
    split_ifs
    · exact ⟨_, rfl⟩
    · exact ⟨_, by rw [hc]; rfl⟩
    · exact ⟨_, rfl⟩
  cases isFull with
  | true =>
    exact ⟨n, .rejected, by simp [put, horigin, hhas, hknown, hfull, bind, Except.bind], .full hne habsent⟩
  | false =>
    have hneed : n.node.putNeed ([] : Bits).length ≤ putFuel len := by cases n.node <;> simp [Node.putNeed, putFuel]
    obtain ⟨node, hput, hwf, hmem⟩ := Node.put_spec h hnil hknown hneed
    refine ⟨{ n with node := node, bucketCounts := n.addBucketCount (id.mustXor n.origin) 1 },
      .accepted, by simp [put, horigin, hhas, hknown, hfull, hput, bind, Except.bind],
      .added hne habsent hwf rfl rfl ?_⟩
    grind [mem_ids_iff, NodeID.mustXor_left_injective]

/-- **`Put`** keeps the shape, and adds the given id exactly when it answers `accepted`. -/
theorem put_spec (h : n.node.WF []) (id : NodeID len) :
    ∃ n' result, n.put id = .ok (n', result) ∧ n'.node.WF [] ∧ n'.origin = n.origin ∧
      ∀ x, x ∈ n'.ids ↔ (result = .accepted ∧ x = id) ∨ x ∈ n.ids := by
  obtain ⟨n', result, hput, hcase⟩ := put_cases h id
  refine ⟨n', result, hput, ?_⟩
  cases hcase with
  | origin | known | full => exact ⟨h, rfl, by simp⟩
  | added _ _ shape same_origin _ mem_iff => exact ⟨shape, same_origin, by simpa using mem_iff⟩

/-- **`Drop`** keeps the shape and removes exactly the given id. -/
theorem drop_spec (h : n.node.WF []) (id : NodeID len) :
    ∃ n', n.drop id = .ok (n', decide (id ∈ n.ids)) ∧ n'.node.WF [] ∧ n'.origin = n.origin ∧
      ∀ x, x ∈ n'.ids ↔ x ∈ n.ids ∧ x ≠ id := by
  have hnil : [] <+: (id.mustXor n.origin).bits := nil_prefix
  obtain ⟨node, hdrop, hwf, hmem⟩ := Node.drop_spec h hnil
  by_cases hin : id.mustXor n.origin ∈ n.node.allXors
  · refine ⟨{ n with node := node, bucketCounts := n.addBucketCount (id.mustXor n.origin) (-1) },
      by simp [drop, hdrop, bind, Except.bind, hin, mem_ids_iff], hwf, rfl, ?_⟩
    grind [mem_ids_iff, NodeID.mustXor_left_injective]
  · refine ⟨n, by simp [drop, hdrop, bind, Except.bind, hin, mem_ids_iff], h, rfl, ?_⟩
    grind [mem_ids_iff]

theorem drop_buckets {n' : Root len} {id : NodeID len} {ok : Bool} (hdrop : n.drop id = .ok (n', ok)) :
    n'.bucketCounts = if ok then n.addBucketCount (id.mustXor n.origin) (-1) else n.bucketCounts := by
  cases hnode : n.node.drop (id.mustXor n.origin) with
  | error e =>
    simp only [drop, hnode, bind, Except.bind] at hdrop
    cases hdrop
  | ok out =>
    obtain ⟨node, dropped⟩ := out
    simp only [drop, hnode, bind, Except.bind] at hdrop
    cases dropped <;> cases hdrop <;> rfl

theorem step_wf (h : n.node.WF []) (op : Op len) :
    ∃ n', n.step op = .ok n' ∧ n'.node.WF [] ∧ n'.origin = n.origin := by
  cases op with
  | put id =>
    obtain ⟨n', result, hput, hwf, horigin, -⟩ := put_spec h id
    exact ⟨n', by simp [step, hput, bind, Except.bind], hwf, horigin⟩
  | drop id =>
    obtain ⟨n', hdrop, hwf, horigin, -⟩ := drop_spec h id
    exact ⟨n', by simp [step, hdrop, bind, Except.bind], hwf, horigin⟩

theorem run_wf (h : n.node.WF []) (ops : List (Op len)) :
    ∃ n', n.run ops = .ok n' ∧ n'.node.WF [] ∧ n'.origin = n.origin := by
  induction ops generalizing n with
  | nil => exact ⟨n, rfl, h, rfl⟩
  | cons op ops ih =>
    obtain ⟨n1, hstep, hwf1, horigin1⟩ := step_wf h op
    obtain ⟨n', hrun, hwf', horigin'⟩ := ih hwf1
    exact ⟨n', by simp [run, hstep, hrun, bind, Except.bind], hwf', horigin'.trans horigin1⟩

theorem new_wf (origin : NodeID len) (k : Int) (splittingEnabled : Bool) :
    (new origin k splittingEnabled).node.WF [] := rfl

end Root

end BitAgent.Dht.Btree
