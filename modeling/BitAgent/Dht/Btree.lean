/-
# Dht.Btree — the binary tree of the Kademlia routing table, as the code computes it

The package `internal/protocol/dht/ktable/btree`: ids as byte strings, the three kinds of node and the root with
its bucket counts. Every stored id is kept as its xor with the origin, and a node's `path` is the prefix of those.

  * the panics of the node code and of `GetBit` are results of type `Panic`;
  * ids carry their length in their type, so the length checks of `MustXor` and `Equals` are the type's;
  * the maps `branches` and `counts` always have the two keys `Bit0` and `Bit1`, so each is a pair of fields;
  * `put` recurses on a tree that it grows, so it takes a fuel; `putFuel` is enough by the invariant.

`baseNode.origin` and `baseNode.bit` are never read and left out; so are `String` and `ParseBinaryNodeID`.
-/
import Mathlib.Data.List.Basic

namespace BitAgent.Dht.Btree

/-! ## Ids and bits -/

inductive Panic where
  /-- `GetBit` was asked for a bit past the end of the id. -/
  | indexOutOfRange
  /-- `leafNode.put`: the fresh branch did not accept the existing id. -/
  | unexpectedPutResult
  /-- `branchNode.drop`: a branch that counts one id holds another number of them. -/
  | unexpectedCondition
  /-- The recursion of `put` did not end within its fuel. -/
  | outOfFuel
  deriving DecidableEq

/-- A node id of `len` bytes. -/
structure NodeID (len : Nat) where
  bytes : List UInt8
  /-- All ids of one table have one length. -/
  length_bytes : bytes.length = len
  deriving DecidableEq

/-- `Bits`, most significant bit first; `Bit1` is `true`. -/
abbrev Bits := List Bool

/-- `Bits.LeadingZeros`: the index of the first one, or the length. -/
def leadingZeros (b : Bits) : Nat := b.findIdx id

namespace NodeID

variable {len : Nat}

/-- The bit test of `GetBit` on one byte: `b >> (7 - uint(n%8)) & 1 == 1`. -/
def byteBit (b : UInt8) (n : Nat) : Bool := b.toBitVec.getLsbD (7 - n % 8)

def getBit (id : NodeID len) (n : Nat) : Except Panic Bool :=
  match id.bytes[n / 8]? with
  | some b => .ok (byteBit b n)
  | none => .error .indexOutOfRange

/-- `NodeID.Bits`: the bits of every byte in turn. -/
def bits (id : NodeID len) : Bits := id.bytes.flatMap fun b => (List.range 8).map (byteBit b)

def mustXor (id other : NodeID len) : NodeID len where
  bytes := List.zipWith (· ^^^ ·) id.bytes other.bytes
  length_bytes := by simp [id.length_bytes, other.length_bytes]

def equals (id other : NodeID len) : Bool := id.bytes == other.bytes

end NodeID

inductive PutResult where
  | rejected
  | accepted
  | alreadyExists
  deriving DecidableEq

/-! ## Nodes -/

/-- `iNode`: `emptyNode`, `leafNode` with its xor, `branchNode` with branches and counts. -/
inductive Node (len : Nat) where
  | empty (path : Bits)
  | leaf (path : Bits) (xor : NodeID len)
  | branch (path : Bits) (branch0 branch1 : Node len) (count0 count1 : Nat)

namespace Node

variable {len : Nat}

def count : Node len → Nat
  | .empty _ => 0
  | .leaf _ _ => 1
  | .branch _ _ _ count0 count1 => count0 + count1

def has : Node len → NodeID len → Except Panic Bool
  | .empty _, _ => .ok false
  | .leaf _ own, xor => .ok (own.equals xor)
  | .branch path branch0 branch1 _ _, xor => do
      let bit ← xor.getBit path.length
      if bit then branch1.has xor else branch0.has xor

def initNode (path : Bits) : Node len := .branch path (.empty (path ++ [false])) (.empty (path ++ [true])) 0 0

/-- `n.branches[bit] = newBranch; n.counts[bit] = newBranch.count()`. -/
def setBranch (path : Bits) (branch0 branch1 : Node len) (count0 count1 : Nat) (bit : Bool)
    (newBranch : Node len) : Node len :=
  if bit then .branch path branch0 newBranch count0 newBranch.count
  else .branch path newBranch branch1 newBranch.count count1

/-- `iNode.put`. A leaf that must be split puts its own xor into a fresh branch and then the new one; a branch
recounts the child that accepted. -/
def put : Nat → Node len → NodeID len → Except Panic (Node len × PutResult)
  | 0, _, _ => .error .outOfFuel
  | _ + 1, .empty path, xor => .ok (.leaf path xor, .accepted)
  | fuel + 1, .leaf path own, xor =>
    if own.equals xor then .ok (.leaf path own, .alreadyExists)
    else do
      let (newNode, existingPutResult) ← put fuel (initNode path) own
      if existingPutResult ≠ .accepted then .error .unexpectedPutResult
      else put fuel newNode xor
  | fuel + 1, .branch path branch0 branch1 count0 count1, xor => do
      let bit ← xor.getBit path.length
      let (newBranch, result) ← put fuel (if bit then branch1 else branch0) xor
      if result = .accepted then .ok (setBranch path branch0 branch1 count0 count1 bit newBranch, result)
      else .ok (.branch path branch0 branch1 count0 count1, result)

def allXors : Node len → List (NodeID len)
  | .empty _ => []
  | .leaf _ xor => [xor]
  | .branch _ branch0 branch1 _ _ => branch0.allXors ++ branch1.allXors

/-- The end of `branchNode.drop`: an emptied child empties the branch or turns it into a leaf. -/
def dropped (path : Bits) (sibling : Node len) (siblingCount : Nat) (newBranch updated : Node len) :
    Except Panic (Node len) :=
  if newBranch.count = 0 ∧ siblingCount = 0 then .ok (.empty path)
  else if newBranch.count = 0 ∧ siblingCount = 1 then
    match sibling.allXors with
    | [xor] => .ok (.leaf path xor)
    | _ => .error .unexpectedCondition
  else .ok updated

def drop : Node len → NodeID len → Except Panic (Node len × Bool)
  | .empty path, _ => .ok (.empty path, false)
  | .leaf path own, xor => if own.equals xor then .ok (.empty path, true) else .ok (.leaf path own, false)
  | .branch path branch0 branch1 count0 count1, xor => do
      let bit ← xor.getBit path.length
      let (newBranch, ok) ← (if bit then branch1.drop xor else branch0.drop xor)
      if ok then
        let n ← dropped path (if bit then branch0 else branch1) (if bit then count0 else count1)
          newBranch (setBranch path branch0 branch1 count0 count1 bit newBranch)
        .ok (n, true)
      else .ok (.branch path branch0 branch1 count0 count1, false)

/-- The loop of `leafNode.countCloserThanSubpath` from index `i` on. -/
def leafCloser (own : NodeID len) (i : Nat) : Bits → Except Panic Nat
  | [] => .ok 1
  | bit :: rest => do
      -- the condition is `bit && !GetBit`, so `GetBit` is only evaluated where the path has a one
      if bit then
        let b ← own.getBit i
        if b then leafCloser own (i + 1) rest else .ok 0
      else leafCloser own (i + 1) rest

def countCloserThanSubpath : Node len → Bits → Except Panic Nat
  | .empty _, _ => .ok 0
  | .leaf path own, subpath => leafCloser own path.length subpath
  | .branch _ _ _ _ _, [] => .ok 0
  | .branch _ _ _ count0 _, [false] => .ok count0
  | .branch _ _ _ count0 count1, [true] => .ok (count0 + count1)
  | .branch _ branch0 _ _ _, false :: rest => branch0.countCloserThanSubpath rest
  | .branch _ _ branch1 count0 _, true :: rest => do
      let n ← branch1.countCloserThanSubpath rest
      .ok (count0 + n)

/-- `iNode.xorsClosestToSubpath`: the branch of the path first, `Bit0` without one; the other is searched without a
path. -/
def xorsClosestToSubpath : Node len → Bits → Int → List (NodeID len)
  | .empty _, _, _ => []
  | .leaf _ own, _, n => if n < 1 then [] else [own]
  | .branch _ branch0 branch1 _ _, path, n =>
    let first := path.headD false
    let closest :=
      if first then branch1.xorsClosestToSubpath path.tail n
      else branch0.xorsClosestToSubpath path.tail n
    if (closest.length : Int) < n then
      closest ++ (if first then branch0.xorsClosestToSubpath [] (n - closest.length)
          else branch1.xorsClosestToSubpath [] (n - closest.length))
    else closest

end Node

/-! ## The root -/

/-- `rootNode`. `bucketCounts` maps a number of leading zeros to how many stored xors have it. -/
structure Root (len : Nat) where
  origin : NodeID len
  k : Int
  node : Node len
  splittingEnabled : Bool
  bucketCounts : Nat → Int

namespace Root

variable {len : Nat}

def new (origin : NodeID len) (k : Int) (splittingEnabled : Bool) : Root len where
  origin := origin
  k := k
  node := .empty []
  splittingEnabled := splittingEnabled
  bucketCounts := fun _ => 0

/-- Enough fuel for a `put` at the root: two calls for each of the `8 * len` bits, and the last. -/
def putFuel (len : Nat) : Nat := 2 * (8 * len) + 2
def has (n : Root len) (id : NodeID len) : Except Panic Bool := n.node.has (id.mustXor n.origin)
def getBucketCount (n : Root len) (xor : NodeID len) : Int := n.bucketCounts (leadingZeros xor.bits)

/-- `putBucketCount` and `dropBucketCount`: the xor's bucket changes by `delta`. -/
def addBucketCount (n : Root len) (xor : NodeID len) (delta : Int) : Nat → Int :=
  fun b => if b = leadingZeros xor.bits then n.bucketCounts b + delta else n.bucketCounts b

/-- `Put` rejects a new xor: its bucket is full, and splitting is off or `k` ids are closer. -/
def full (n : Root len) (xor : NodeID len) : Except Panic Bool :=
  if n.getBucketCount xor ≥ n.k then
    if !n.splittingEnabled then .ok true
    else do
      let closer ← n.node.countCloserThanSubpath xor.bits
      .ok (decide ((closer : Int) ≥ n.k))
  else .ok false

def put (n : Root len) (id : NodeID len) : Except Panic (Root len × PutResult) :=
  if id.equals n.origin then .ok (n, .rejected)
  else do
    let xor := id.mustXor n.origin
    let known ← n.node.has xor
    if known then .ok (n, .alreadyExists)
    else do
      let isFull ← n.full xor
      if isFull then .ok (n, .rejected)
      else do
        let (newNode, result) ← n.node.put (putFuel len) xor
        if result = .accepted then .ok ({ n with node := newNode, bucketCounts := n.addBucketCount xor 1 }, result)
        else .ok (n, result)

def drop (n : Root len) (id : NodeID len) : Except Panic (Root len × Bool) := do
  let xor := id.mustXor n.origin
  let (newNode, ok) ← n.node.drop xor
  if ok then .ok ({ n with node := newNode, bucketCounts := n.addBucketCount xor (-1) }, true)
  else .ok (n, false)

def count (n : Root len) : Nat := n.node.count

def closest (n : Root len) (id : NodeID len) (count : Int) : List (NodeID len) :=
  (n.node.xorsClosestToSubpath (id.mustXor n.origin).bits count).map (·.mustXor n.origin)

/-! ## Runs -/

inductive Op (len : Nat) where
  | put (id : NodeID len)
  | drop (id : NodeID len)

def step (n : Root len) : Op len → Except Panic (Root len)
  | .put id => do let (n', _) ← n.put id; .ok n'
  | .drop id => do let (n', _) ← n.drop id; .ok n'

def run (n : Root len) : List (Op len) → Except Panic (Root len)
  | [] => .ok n
  | op :: ops => do let n' ← n.step op; n'.run ops

end Root

end BitAgent.Dht.Btree
