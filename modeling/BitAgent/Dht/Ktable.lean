/-
# Dht.Ktable — the routing table: two keyspaces and the reverse map of addresses

`internal/protocol/dht/ktable`: `keyspace.go`, `node.go`, `hash.go`, `reverse_map.go`, `command.go`, the table of
`factory.go` and `FilterKnownAddrs`. A keyspace is a tree beside a map of items, and both keyspaces write to one
reverse map of addresses. Maps keyed by `addr.String()` are keyed by the address, since addresses with one text are
equal. Left out: the options of `PutNode` and `PutHash`, drop reasons and times, which no command reads.
-/
import BitAgent.Dht.Btree

namespace BitAgent.Dht.Ktable

open Dht.Btree (NodeID Root PutResult)

abbrev ID := NodeID 20
def zeroID : ID := ⟨List.replicate 20 0, List.length_replicate⟩
def isZero (id : ID) : Bool := decide (id = zeroID)

/-- `netip.Addr`; the zero value is not an address. -/
inductive Addr where
  | invalid
  | v4 (bits : BitVec 32)
  | v6 (bits : BitVec 128) (zone : String)
  deriving DecidableEq

structure AddrPort where
  addr : Addr
  port : UInt16
  deriving DecidableEq

/-- `IsValid`; the port may be zero. -/
def AddrPort.isValid (a : AddrPort) : Bool := decide (a.addr ≠ .invalid)

inductive Panic where
  | btree (p : Btree.Panic)
  /-- An id that the tree knows has no item. -/
  | nilItem
  deriving DecidableEq

/-! ## The reverse map -/

/-- `infoForAddr`; `hashes` is a set. -/
structure InfoForAddr where
  peerID : ID
  hashes : ID → Bool

/-- From an address to the node and the hashes known there. -/
abbrev ReverseMap := Addr → Option InfoForAddr

def InfoForAddr.addHashes (i : InfoForAddr) (hashes : List ID) : InfoForAddr :=
  { i with hashes := fun h => i.hashes h || hashes.contains h }

def InfoForAddr.dropHashes (i : InfoForAddr) (hashes : List ID) : InfoForAddr :=
  { i with hashes := fun h => i.hashes h && !hashes.contains h }

/-- The information on an address seen for the first time. -/
def newInfoForAddr (peerID : ID) (hashes : List ID) : InfoForAddr :=
  InfoForAddr.addHashes { peerID := peerID, hashes := fun _ => false } hashes

namespace ReverseMap

def putAddrPeerID (m : ReverseMap) (addr : Addr) (id : ID) : ReverseMap :=
  Function.update m addr <| match m addr with
    | some info => some { info with peerID := id }
    | none => some (newInfoForAddr id [])

def putAddrHashes (m : ReverseMap) (addr : Addr) (hashes : List ID) : ReverseMap :=
  Function.update m addr <| match m addr with
    | some info => some (info.addHashes hashes)
    | none => some (newInfoForAddr zeroID hashes)

/-- An entry made for hashes only has the zero id, which is no node. -/
def getPeerIDForAddr (m : ReverseMap) (addr : Addr) : Option ID :=
  match m addr with
  | some info => if isZero info.peerID then none else some info.peerID
  | none => none

/-- `dropAddr`: the whole entry goes. -/
def dropAddr (m : ReverseMap) (addr : Addr) : ReverseMap := Function.update m addr none

end ReverseMap

/-! ## Keyspaces -/

/-- `keyspace`, without its factory. -/
structure Keyspace (ι : Type) where
  btree : Root 20
  items : ID → Option ι

/-- What a kind of item does when it is created, updated and dropped. -/
structure Callbacks (Input ι : Type) where
  newItem : ID → Input → ReverseMap → ι × ReverseMap
  update : ι → Input → ReverseMap → ι × ReverseMap
  drop : ι → ReverseMap → ReverseMap

def newKeyspace (ι : Type) (origin : ID) (k : Int) : Keyspace ι where
  btree := .new origin k true
  items := fun _ => none

namespace Keyspace

variable {Input ι : Type} (cb : Callbacks Input ι)

/-- The tree decides; an accepted id gets an item, a known one has its item updated. -/
def put (ks : Keyspace ι) (m : ReverseMap) (id : ID) (input : Input) :
    Except Panic (Keyspace ι × ReverseMap × PutResult) :=
  match ks.btree.put id with
  | .error p => .error (.btree p)
  | .ok (btree, .accepted) =>
    let (it, m) := match ks.items id with
      | some it => (it, m)
      | none => cb.newItem id input m
    .ok ({ btree := btree, items := Function.update ks.items id (some it) }, m, .accepted)
  | .ok (btree, .alreadyExists) =>
    match ks.items id with
    | none => .error .nilItem
    | some it =>
      let (it, m) := cb.update it input m
      .ok ({ btree := btree, items := Function.update ks.items id (some it) }, m, .alreadyExists)
  | .ok (btree, .rejected) => .ok ({ ks with btree := btree }, m, .rejected)

/-- The item goes with the id, and the reverse map follows. -/
def drop (ks : Keyspace ι) (m : ReverseMap) (id : ID) : Except Panic (Keyspace ι × ReverseMap × Bool) :=
  match ks.items id with
  | none => .ok (ks, m, false)
  | some it =>
    match ks.btree.drop id with
    | .error p => .error (.btree p)
    | .ok (btree, dropped) => .ok ({ btree := btree, items := Function.update ks.items id none }, cb.drop it m, dropped)

end Keyspace

/-! ## Nodes and hashes -/

structure Node where
  id : ID
  addr : AddrPort

/-- The callbacks of a node. The factory does not touch the reverse map. -/
def nodeCallbacks : Callbacks AddrPort Node where
  newItem := fun id addr m => ({ id := id, addr := addr }, m)
  update := fun n addr m =>
    let m := if n.addr ≠ addr then m.dropAddr n.addr.addr else m
    ({ n with addr := addr }, m.putAddrPeerID addr.addr n.id)
  drop := fun n m => m.dropAddr n.addr.addr

structure HashPeer where
  addr : AddrPort

structure Hash where
  id : ID
  peers : Addr → Option HashPeer
  /-- A peer is filed under its address. -/
  keyed : ∀ {a p}, peers a = some p → p.addr.addr = a

namespace Hash

def noPeers (id : ID) : Hash where
  id := id
  peers := fun _ => none
  keyed := nofun

/-- `h.peers[p.Addr.Addr().String()] = p`. -/
def putPeer (h : Hash) (p : HashPeer) : Hash where
  id := h.id
  peers := Function.update h.peers p.addr.addr (some p)
  keyed := by
    intro a q hq
    rw [Function.update_apply] at hq
    split_ifs at hq with ha
    · cases hq
      exact ha.symm
    · exact h.keyed hq

/-- The loop of `hash.update` and of the factory: each peer is stored, and its address leads to the hash. -/
def addPeers (h : Hash) (peers : List HashPeer) (m : ReverseMap) : Hash × ReverseMap :=
  peers.foldl (fun (h, m) p => (h.putPeer p, m.putAddrHashes p.addr.addr [h.id])) (h, m)

/-- `hash.drop`: the addresses of its peers no longer lead to it. -/
def drop (h : Hash) (m : ReverseMap) : ReverseMap := fun a =>
  if (h.peers a).isSome then (m a).map (·.dropHashes [h.id]) else m a

end Hash

def hashCallbacks : Callbacks (List HashPeer) Hash where
  newItem := fun id peers m => (Hash.noPeers id).addPeers peers m
  update := fun h peers m => h.addPeers peers m
  drop := Hash.drop

/-! ## The table -/

/-- The two keyspaces and the map that they share. -/
structure Table where
  nodes : Keyspace Node
  hashes : Keyspace Hash
  addrs : ReverseMap

/-- Both keyspaces have buckets of 80. -/
def newTable (nodeID : ID) : Table where
  nodes := newKeyspace Node nodeID 80
  hashes := newKeyspace Hash nodeID 80
  addrs := fun _ => none

namespace Table

/-- `PutNode.execReturn`. -/
def putNode (t : Table) (id : ID) (addr : AddrPort) : Except Panic (Table × PutResult) :=
  if !addr.isValid then .ok (t, .rejected)
  else do
    let (nodes, addrs, result) ← t.nodes.put nodeCallbacks t.addrs id addr
    .ok ({ t with nodes := nodes, addrs := addrs }, result)

/-- `DropNode.execReturn`. -/
def dropNode (t : Table) (id : ID) : Except Panic (Table × Bool) := do
  let (nodes, addrs, dropped) ← t.nodes.drop nodeCallbacks t.addrs id
  .ok ({ t with nodes := nodes, addrs := addrs }, dropped)

/-- `DropAddr.execReturn`. -/
def dropAddr (t : Table) (addr : Addr) : Except Panic (Table × Bool) :=
  match t.addrs.getPeerIDForAddr addr with
  | none => .ok (t, false)
  | some id => t.dropNode id

/-- `PutHash.execReturn`. -/
def putHash (t : Table) (id : ID) (peers : List HashPeer) : Except Panic (Table × PutResult) := do
  let (hashes, addrs, result) ← t.hashes.put hashCallbacks t.addrs id peers
  .ok ({ t with hashes := hashes, addrs := addrs }, result)

/-- `FilterKnownAddrs.execReturn`. -/
def filterKnownAddrs (t : Table) (addrs : List Addr) : List Addr := addrs.filter fun a => (t.addrs a).isNone

end Table

/-- A `Command`. -/
inductive Command where
  | putNode (id : ID) (addr : AddrPort)
  | dropNode (id : ID)
  | dropAddr (addr : Addr)
  | putHash (id : ID) (peers : List HashPeer)

def Table.exec (t : Table) : Command → Except Panic Table
  | .putNode id addr => (t.putNode id addr).map Prod.fst
  | .dropNode id => (t.dropNode id).map Prod.fst
  | .dropAddr addr => (t.dropAddr addr).map Prod.fst
  | .putHash id peers => (t.putHash id peers).map Prod.fst

/-- A call on the table: one command, or a batch of them (`BatchCommand`). -/
inductive Call where
  | command (c : Command)
  | batch (cs : List Command)

def Call.commands : Call → List Command
  | .command c => [c]
  | .batch cs => cs

def step (s : Except Panic Table) (c : Command) : Except Panic Table := s.bind (·.exec c)

/-- A run of calls; a panic ends it. -/
def run (t : Table) (calls : List Call) : Except Panic Table :=
  calls.foldl (fun s call => call.commands.foldl step s) (.ok t)

end BitAgent.Dht.Ktable
