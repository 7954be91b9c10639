/-
# Dht.ReverseMap — which addresses of nodes the routing table knows

An entry for a node is made when a node that is already there is put again. It goes when any node at the address is
dropped or moves elsewhere. So what an entry names is in the table (`EntrySound`), and an address has an entry for a
node iff a node was put there again and none at it has left since (`Registers`, `Withdraws`).
-/
import BitAgent.Dht.BtreeSet
import BitAgent.Dht.Ktable

namespace BitAgent.Dht.Ktable

open Lib List Function
open Dht.Btree (PutResult)

/-! ## Keyspaces -/

namespace Keyspace

variable {Input ι : Type} {ks : Keyspace ι} {id : ID}

/-- The items are those whose ids the tree knows. -/
structure Consistent (ks : Keyspace ι) : Prop where
  tree : ks.btree.Sound
  items : ∀ id, (ks.items id).isSome = true ↔ id ∈ ks.btree.ids

theorem consistent_new (origin : ID) (k : Int) : (newKeyspace ι origin k).Consistent where
  tree := Btree.Root.sound_new origin k true
  items := fun id => by simp [newKeyspace, Btree.Root.new, Btree.Root.ids, Btree.Node.allXors]

theorem isSome_update {items : ID → Option ι} {x : ID} {it : Option ι} : (Function.update items id it x).isSome = true ↔
      if x = id then it.isSome = true else (items x).isSome = true := by
  rw [update_apply]
  split_ifs <;> rfl

theorem Consistent.item_eq_none (h : ks.Consistent) (habsent : id ∉ ks.btree.ids) : ks.items id = none :=
  Option.not_isSome_iff_eq_none.mp fun hsome => habsent ((h.items id).mp hsome)

/-- The three things that `put` can do. -/
inductive PutCase (cb : Callbacks Input ι) (ks : Keyspace ι) (m : ReverseMap) (id : ID) (input : Input) :
    Keyspace ι → ReverseMap → PutResult → Prop
  | rejected (absent : ks.items id = none) : PutCase cb ks m id input ks m .rejected
  | created {ks' : Keyspace ι} (absent : ks.items id = none) (consistent : ks'.Consistent)
      (items : ks'.items = Function.update ks.items id (some (cb.newItem id input m).1)) :
      PutCase cb ks m id input ks' (cb.newItem id input m).2 .accepted
  | updated {ks' : Keyspace ι} {it : ι} (present : ks.items id = some it) (consistent : ks'.Consistent)
      (items : ks'.items = Function.update ks.items id (some (cb.update it input m).1)) :
      PutCase cb ks m id input ks' (cb.update it input m).2 .alreadyExists

theorem Consistent.put_cases (h : ks.Consistent) (cb : Callbacks Input ι) (m : ReverseMap) (id : ID) (input : Input) :
    ∃ ks' m' result, ks.put cb m id input = .ok (ks', m', result) ∧ PutCase cb ks m id input ks' m' result := by
  obtain ⟨tree, result, hput, hcase⟩ := Btree.Root.put_cases h.tree.shape id
  have hsound := h.tree.put hcase
  cases hcase with
  | origin is_origin =>
    refine ⟨ks, m, .rejected, by simp only [put, hput], .rejected (h.item_eq_none ?_)⟩
    rw [is_origin]
    exact h.tree.origin
  | full _ absent => exact ⟨ks, m, .rejected, by simp only [put, hput], .rejected (h.item_eq_none absent)⟩
  | known _ mem =>
    obtain ⟨it, hit⟩ := Option.isSome_iff_exists.mp ((h.items id).mpr mem)
    refine ⟨⟨ks.btree, Function.update ks.items id (some (cb.update it input m).1)⟩, _, .alreadyExists,
      by simp only [put, hput, hit], .updated hit ⟨hsound, ?_⟩ rfl⟩
    intro x
    refine isSome_update.trans ?_
    split_ifs with hx
    · exact iff_of_true rfl (hx ▸ mem)
    · exact h.items x
  | added _ absent _ _ _ mem_iff =>
    have hnone := h.item_eq_none absent
    refine ⟨⟨tree, Function.update ks.items id (some (cb.newItem id input m).1)⟩, _, .accepted,
      by simp only [put, hput, hnone], .created hnone ⟨hsound, ?_⟩ rfl⟩
    intro x
    refine isSome_update.trans ?_
    rw [mem_iff]
    split_ifs with hx
    · exact iff_of_true rfl (.inl hx)
    · rw [h.items x, or_iff_right hx]

theorem Consistent.drop_cases (h : ks.Consistent) (cb : Callbacks Input ι) (m : ReverseMap) (id : ID) :
    (ks.items id = none ∧ ks.drop cb m id = .ok (ks, m, false)) ∨
      ∃ it ks', ks.items id = some it ∧ ks.drop cb m id = .ok (ks', cb.drop it m, true) ∧
        ks'.Consistent ∧ ks'.items = Function.update ks.items id none := by
  cases hit : ks.items id with
  | none => exact .inl ⟨rfl, by simp only [drop, hit]⟩
  | some it =>
    have hin : id ∈ ks.btree.ids := (h.items id).mp (by rw [hit]; rfl)
    obtain ⟨tree, hdrop, hsound, mem_iff⟩ := h.tree.drop id
    rw [decide_eq_true hin] at hdrop
    refine .inr ⟨it, ⟨tree, Function.update ks.items id none⟩, rfl, by simp only [drop, hit, hdrop], ⟨hsound, ?_⟩, rfl⟩
    intro x
    refine isSome_update.trans ?_
    rw [mem_iff]
    split_ifs with hx
    · exact iff_of_false Bool.false_ne_true fun hmem => hmem.2 hx
    · rw [h.items x, and_iff_left hx]

/-! ## Calls on a keyspace -/

section Calls

variable {Opt : Type}

def applyOptions (apply : ι → Opt → ι) (ks : Keyspace ι) (id : ID) (options : List Opt) : Keyspace ι :=
  { ks with items := Function.update ks.items id ((ks.items id).map (options.foldl apply)) }

/-- `put` with its options, which are not applied when the tree rejected the id. -/
def putWith (cb : Callbacks Input ι) (apply : ι → Opt → ι) (ks : Keyspace ι) (m : ReverseMap) (id : ID) (input : Input)
    (options : List Opt) : Except Panic (Keyspace ι × ReverseMap × PutResult) := do
  let (ks, m, result) ← ks.put cb m id input
  if result = .rejected then .ok (ks, m, result) else .ok (ks.applyOptions apply id options, m, result)

def getClosest (ks : Keyspace ι) (id : ID) : Except Panic (List ι) :=
  match ks.items id with
  | some it => .ok [it]
  | none => (ks.btree.closest id 8).mapM fun id => (ks.items id).elim (.error .nilItem) .ok

/-- A call; a `put` of an id that is there updates its item. -/
inductive Op (Input Opt : Type) where
  | put (id : ID) (input : Input) (options : List Opt)
  | drop (id : ID)

def step (cb : Callbacks Input ι) (apply : ι → Opt → ι) (s : Keyspace ι × ReverseMap) :
    Op Input Opt → Except Panic (Keyspace ι × ReverseMap)
  | .put id input options => (s.1.putWith cb apply s.2 id input options).map fun (ks, m, _) => (ks, m)
  | .drop id => (s.1.drop cb s.2 id).map fun (ks, m, _) => (ks, m)

variable (cb : Callbacks Input ι) (apply : ι → Opt → ι)

theorem Consistent.applyOptions (h : ks.Consistent) (id : ID) (options : List Opt) :
    (ks.applyOptions apply id options).Consistent := by
  refine ⟨h.tree, fun x => isSome_update.trans ?_⟩
  split_ifs with hx
  · rw [Option.isSome_map, hx]
    exact h.items id
  · exact h.items x

theorem Consistent.step (h : ks.Consistent) (m : ReverseMap) (op : Op Input Opt) :
    ∃ ks' m', Keyspace.step cb apply (ks, m) op = .ok (ks', m') ∧ ks'.Consistent := by
  cases op with
  | put id input options =>
    obtain ⟨ks', m', result, hput, hcase⟩ := h.put_cases cb m id input
    simp only [Keyspace.step, putWith, hput]
    cases hcase with
    | rejected => exact ⟨ks, m, rfl, h⟩
    | created _ consistent => exact ⟨_, _, rfl, consistent.applyOptions apply id options⟩
    | updated _ consistent => exact ⟨_, _, rfl, consistent.applyOptions apply id options⟩
  | drop id =>
    simp only [Keyspace.step]
    rcases h.drop_cases cb m id with ⟨-, hdrop⟩ | ⟨it, ks', -, hdrop, hks', -⟩
    · exact ⟨ks, m, by rw [hdrop]; rfl, h⟩
    · exact ⟨ks', cb.drop it m, by rw [hdrop]; rfl, hks'⟩

theorem Consistent.run (h : ks.Consistent) (m : ReverseMap) (ops : List (Op Input Opt)) :
    ∃ ks' m', ops.foldlM (Keyspace.step cb apply) (ks, m) = .ok (ks', m') ∧ ks'.Consistent := by
  induction ops generalizing ks m with
  | nil => exact ⟨ks, m, rfl, h⟩
  | cons op ops ih =>
    obtain ⟨ks1, m1, hstep, hks1⟩ := h.step cb apply m op
    rw [foldlM_cons, hstep]
    exact ih hks1 m1

theorem Consistent.isSome_closest (h : ks.Consistent) {target : ID} {count : Int}
    (hid : id ∈ ks.btree.closest target count) : (ks.items id).isSome = true := by
  rw [Btree.Root.closest_eq_take] at hid
  exact (h.items id).mpr ((ks.btree.walk_perm_ids target).mem_iff.mp (mem_of_mem_take hid))

theorem Consistent.getClosest_ok (h : ks.Consistent) (id : ID) : ∃ its, ks.getClosest id = .ok its := by
  unfold getClosest
  cases ks.items id with
  | some it => exact ⟨[it], rfl⟩
  | none =>
    dsimp only
    have hall : ∀ x ∈ ks.btree.closest id 8, (ks.items x).isSome = true := fun x hx => h.isSome_closest hx
    generalize ks.btree.closest id 8 = ids at hall
    induction ids with
    | nil => exact ⟨[], rfl⟩
    | cons x xs ih =>
      obtain ⟨it, hit⟩ := Option.isSome_iff_exists.mp (hall x mem_cons_self)
      obtain ⟨its, hits⟩ := ih fun y hy => hall y (mem_cons_of_mem x hy)
      refine ⟨it :: its, ?_⟩
      rw [mapM_cons, hit, hits]
      rfl

/-- **Tree and items agree** after every sequence of calls, so `getClosest` never meets a missing item. -/
theorem run_items_iff_members (cb : Callbacks Input ι) (apply : ι → Opt → ι) (origin : ID) (k : Int) (m : ReverseMap)
    (ops : List (Op Input Opt)) :
    ∃ ks m', ops.foldlM (Keyspace.step cb apply) (newKeyspace ι origin k, m) = .ok (ks, m') ∧
      (∀ id, (ks.items id).isSome = true ↔ id ∈ ks.btree.ids) ∧
      (∀ target count, ∀ id ∈ ks.btree.closest target count, (ks.items id).isSome = true) ∧
      ∀ target, ∃ its, ks.getClosest target = .ok its := by
  obtain ⟨ks, m', hrun, h⟩ := (consistent_new origin k).run cb apply m ops
  exact ⟨ks, m', hrun, h.items, fun _ _ _ hid => h.isSome_closest hid, h.getClosest_ok⟩

end Calls

end Keyspace

/-! ## What the entries name -/

/-- A node of the table is filed under an id, at an address. -/
def NodeAt (t : Table) (id : ID) (a : Addr) : Prop := ∃ n, t.nodes.items id = some n ∧ n.addr.addr = a

/-- A hash of the table has a peer at an address. -/
def PeerAt (t : Table) (id : ID) (a : Addr) : Prop := ∃ h p, t.hashes.items id = some h ∧ h.peers a = some p

/-- An entry names a node or the peer of a hash, and everything that it names is in the table. -/
structure EntrySound (t : Table) (a : Addr) (info : InfoForAddr) : Prop where
  node : isZero info.peerID = false → NodeAt t info.peerID a
  hashes : ∀ h, info.hashes h = true → PeerAt t h a
  named : NodeAt t info.peerID a ∨ ∃ h, info.hashes h = true

/-- The invariant of the table between commands. -/
structure Inv (t : Table) : Prop where
  nodes : t.nodes.Consistent
  hashes : t.hashes.Consistent
  nodeID : ∀ {id n}, t.nodes.items id = some n → n.id = id
  hashID : ∀ {id h}, t.hashes.items id = some h → h.id = id
  entries : ∀ {a info}, t.addrs a = some info → EntrySound t a info

theorem inv_new (nodeID : ID) : Inv (newTable nodeID) where
  nodes := Keyspace.consistent_new nodeID 80
  hashes := Keyspace.consistent_new nodeID 80
  nodeID := nofun
  hashID := nofun
  entries := nofun

theorem Inv.newNode {t : Table} (h : Inv t) {id : ID} {addr : AddrPort} {nodes : Keyspace Node}
    (habsent : t.nodes.items id = none) (hnodes : nodes.Consistent)
    (hitems : nodes.items = Function.update t.nodes.items id (some ⟨id, addr⟩)) :
    Inv { t with nodes := nodes } := by
  have hkept : ∀ {x a}, NodeAt t x a → NodeAt { t with nodes := nodes } x a := by
    rintro x a ⟨n, hn, ha⟩
    refine ⟨n, ?_, ha⟩
    show nodes.items x = some n
    rw [hitems, update_of_ne]
    · exact hn
    · rintro rfl
      rw [habsent] at hn
      cases hn
  refine ⟨hnodes, h.hashes, ?_, h.hashID, ?_⟩
  · intro x n hn
    replace hn : nodes.items x = some n := hn
    rw [hitems, update_apply] at hn
    split_ifs at hn with hx
    · cases hn
      exact hx.symm
    · exact h.nodeID hn
  · intro a info hinfo
    obtain ⟨hnode, hhashes, hnamed⟩ := h.entries hinfo
    exact ⟨fun hzero => hkept (hnode hzero), hhashes, hnamed.imp_left hkept⟩

theorem NodeAt.of_update {t : Table} {nodes : Keyspace Node} {addrs : ReverseMap} {id x : ID} {a : Addr}
    {it : Option Node} (hitems : nodes.items = Function.update t.nodes.items id it) (hne : x ≠ id)
    (hx : NodeAt t x a) : NodeAt { t with nodes := nodes, addrs := addrs } x a := by
  obtain ⟨n, hn, ha⟩ := hx
  refine ⟨n, ?_, ha⟩
  show nodes.items x = some n
  rw [hitems, update_of_ne hne]
  exact hn

theorem NodeAt.ne {t : Table} {id x : ID} {n : Node} {a : Addr} (hn : t.nodes.items id = some n)
    (ha : a ≠ n.addr.addr) (hx : NodeAt t x a) : x ≠ id := by
  rintro rfl
  obtain ⟨n', hn', ha'⟩ := hx
  rw [hn] at hn'
  cases hn'
  exact ha ha'.symm

theorem Inv.dropNode {t : Table} (h : Inv t) {id : ID} {n : Node} {nodes : Keyspace Node}
    (hn : t.nodes.items id = some n) (hnodes : nodes.Consistent)
    (hitems : nodes.items = Function.update t.nodes.items id none) :
    Inv { t with nodes := nodes, addrs := t.addrs.dropAddr n.addr.addr } := by
  refine ⟨hnodes, h.hashes, ?_, h.hashID, ?_⟩
  · intro x n' hn'
    replace hn' : nodes.items x = some n' := hn'
    rw [hitems, update_apply] at hn'
    split_ifs at hn'
    exact h.nodeID hn'
  · intro a info hinfo
    replace hinfo : Function.update t.addrs n.addr.addr none a = some info := hinfo
    rw [update_apply] at hinfo
    split_ifs at hinfo with ha
    obtain ⟨hnode, hhashes, hnamed⟩ := h.entries hinfo
    have hkept : ∀ {x}, NodeAt t x a → NodeAt { t with nodes := nodes, addrs := t.addrs.dropAddr n.addr.addr } x a :=
      fun hx => hx.of_update hitems (hx.ne hn ha)
    exact ⟨fun hzero => hkept (hnode hzero), hhashes, hnamed.imp_left hkept⟩

/-- The reverse map after a node was put again. -/
def movedAddrs (m : ReverseMap) (n : Node) (addr : AddrPort) : ReverseMap :=
  ((if n.addr ≠ addr then m.dropAddr n.addr.addr else m) : ReverseMap).putAddrPeerID addr.addr n.id

theorem movedAddrs_of_ne {m : ReverseMap} {n : Node} {addr : AddrPort} {a : Addr} (ha : a ≠ addr.addr) :
    movedAddrs m n addr a = if a = n.addr.addr then none else m a := by
  unfold movedAddrs ReverseMap.putAddrPeerID ReverseMap.dropAddr
  grind

theorem movedAddrs_self (m : ReverseMap) (n : Node) (addr : AddrPort) :
    ∃ info, movedAddrs m n addr addr.addr = some info ∧ info.peerID = n.id ∧
      ∀ h, info.hashes h = true → ∃ old, m addr.addr = some old ∧ old.hashes h = true := by
  unfold movedAddrs ReverseMap.putAddrPeerID
  rw [update_self]
  generalize hm : (if n.addr ≠ addr then m.dropAddr n.addr.addr else m : ReverseMap) = m'
  have hsub : ∀ info, m' addr.addr = some info → m addr.addr = some info := by
    intro info hinfo
    rw [← hm] at hinfo
    split_ifs at hinfo
    · unfold ReverseMap.dropAddr at hinfo
      grind
    · exact hinfo
  cases hget : m' addr.addr with
  | none => grind [newInfoForAddr, InfoForAddr.addHashes]
  | some info => grind

theorem Inv.moveNode {t : Table} (h : Inv t) {id : ID} {n : Node} {addr : AddrPort} {nodes : Keyspace Node}
    (hn : t.nodes.items id = some n) (hnodes : nodes.Consistent)
    (hitems : nodes.items = Function.update t.nodes.items id (some { n with addr := addr })) :
    Inv { t with nodes := nodes, addrs := movedAddrs t.addrs n addr } := by
  have hmoved : NodeAt { t with nodes := nodes, addrs := movedAddrs t.addrs n addr } id addr.addr := by
    refine ⟨{ n with addr := addr }, ?_, rfl⟩
    show nodes.items id = _
    rw [hitems, update_self]
  refine ⟨hnodes, h.hashes, ?_, h.hashID, ?_⟩
  · intro x n' hn'
    replace hn' : nodes.items x = some n' := hn'
    rw [hitems, update_apply] at hn'
    split_ifs at hn' with hx
    · cases hn'
      rw [hx]
      exact (h.nodeID hn : n.id = id)
    · exact h.nodeID hn'
  · intro a info hinfo
    replace hinfo : movedAddrs t.addrs n addr a = some info := hinfo
    by_cases ha : a = addr.addr
    · subst ha
      obtain ⟨info', hinfo', hpeer, hhashes⟩ := movedAddrs_self t.addrs n addr
      rw [hinfo'] at hinfo
      cases hinfo
      have hnode : NodeAt { t with nodes := nodes, addrs := movedAddrs t.addrs n addr } info.peerID addr.addr := by
        rw [hpeer, h.nodeID hn]
        exact hmoved
      refine ⟨fun _ => hnode, fun x hx => ?_, .inl hnode⟩
      obtain ⟨old, hold, hin⟩ := hhashes x hx
      exact (h.entries hold).hashes x hin
    · rw [movedAddrs_of_ne ha] at hinfo
      split_ifs at hinfo with hold
      obtain ⟨hnode, hhashes, hnamed⟩ := h.entries hinfo
      have hkept : ∀ {x}, NodeAt t x a → NodeAt { t with nodes := nodes, addrs := movedAddrs t.addrs n addr } x a :=
        fun hx => hx.of_update hitems (hx.ne hn hold)
      exact ⟨fun hzero => hkept (hnode hzero), hhashes, hnamed.imp_left hkept⟩

/-! ## Hashes that take peers -/

/-- What taking peers does to a hash and to the reverse map. -/
structure Leads (h : Hash) (m : ReverseMap) (h' : Hash) (m' : ReverseMap) : Prop where
  id : h'.id = h.id
  peers : ∀ {a}, (h.peers a).isSome = true → (h'.peers a).isSome = true
  kept : ∀ {a info}, m a = some info →
    ∃ info', m' a = some info' ∧ info'.peerID = info.peerID ∧ ∀ x, info.hashes x = true → info'.hashes x = true
  fresh : ∀ {a info'}, m a = none → m' a = some info' → info'.peerID = zeroID ∧ info'.hashes h.id = true
  hashes : ∀ {a info' x}, m' a = some info' → info'.hashes x = true →
    (∃ info, m a = some info ∧ info.hashes x = true) ∨ (x = h.id ∧ (h'.peers a).isSome = true)

theorem Leads.refl (h : Hash) (m : ReverseMap) : Leads h m h m where
  id := rfl
  peers := fun hsome => hsome
  kept := fun hinfo => ⟨_, hinfo, rfl, fun _ hx => hx⟩
  fresh := fun hnone hsome => by rw [hnone] at hsome; cases hsome
  hashes := fun hinfo hx => .inl ⟨_, hinfo, hx⟩

theorem Hash.isSome_putPeer {h : Hash} {p : HashPeer} {a : Addr} :
    ((h.putPeer p).peers a).isSome = true ↔ a = p.addr.addr ∨ (h.peers a).isSome = true := by
  show (Function.update h.peers p.addr.addr (some p) a).isSome = true ↔ _
  grind

theorem mem_addHashes_singleton {info : InfoForAddr} {id x : ID} :
    (info.addHashes [id]).hashes x = true ↔ info.hashes x = true ∨ x = id := by
  simp [InfoForAddr.addHashes]

theorem Leads.step {h h' : Hash} {m m' : ReverseMap} (hl : Leads h m h' m') (p : HashPeer) :
    Leads h m (h'.putPeer p) (m'.putAddrHashes p.addr.addr [h'.id]) := by
  have hpeers : ∀ {a}, (h'.peers a).isSome = true → ((h'.putPeer p).peers a).isSome = true :=
    fun hsome => Hash.isSome_putPeer.mpr (.inr hsome)
  refine ⟨hl.id, fun hsome => hpeers (hl.peers hsome), ?_, ?_, ?_⟩
  · intro a info hinfo
    obtain ⟨info', hinfo', hpeer, hsub⟩ := hl.kept hinfo
    by_cases ha : a = p.addr.addr
    · subst ha
      refine ⟨info'.addHashes [h'.id], ?_, hpeer, fun x hx => mem_addHashes_singleton.mpr (.inl (hsub x hx))⟩
      simp only [ReverseMap.putAddrHashes, update_self, hinfo']
    · refine ⟨info', ?_, hpeer, hsub⟩
      rw [ReverseMap.putAddrHashes, update_of_ne ha]
      exact hinfo'
  · intro a info' hnone hinfo'
    rw [ReverseMap.putAddrHashes, update_apply] at hinfo'
    split_ifs at hinfo' with ha
    · subst ha
      cases hm : m' p.addr.addr with
      | none =>
        rw [hm] at hinfo'
        cases hinfo'
        exact ⟨rfl, mem_addHashes_singleton.mpr (.inr hl.id.symm)⟩
      | some info =>
        rw [hm] at hinfo'
        cases hinfo'
        obtain ⟨hpeer, hin⟩ := hl.fresh hnone hm
        exact ⟨hpeer, mem_addHashes_singleton.mpr (.inl hin)⟩
    · exact hl.fresh hnone hinfo'
  · intro a info' x hinfo' hx
    rw [ReverseMap.putAddrHashes, update_apply] at hinfo'
    split_ifs at hinfo' with ha
    · subst ha
      have hnew : x = h'.id → x = h.id ∧ ((h'.putPeer p).peers p.addr.addr).isSome = true :=
        fun hid => ⟨hid.trans hl.id, Hash.isSome_putPeer.mpr (.inl rfl)⟩
      cases hm : m' p.addr.addr with
      | none =>
        rw [hm] at hinfo'
        cases hinfo'
        rcases mem_addHashes_singleton.mp hx with hold | hid
        · cases hold
        · exact .inr (hnew hid)
      | some info =>
        rw [hm] at hinfo'
        cases hinfo'
        rcases mem_addHashes_singleton.mp hx with hold | hid
        · exact (hl.hashes hm hold).imp_right (And.imp_right hpeers)
        · exact .inr (hnew hid)
    · exact (hl.hashes hinfo' hx).imp_right (And.imp_right hpeers)

theorem Hash.leads_addPeers (h : Hash) (peers : List HashPeer) (m : ReverseMap) :
    Leads h m (h.addPeers peers m).1 (h.addPeers peers m).2 := by
  unfold Hash.addPeers
  exact Run.foldl_invariant _ (I := fun s : Hash × ReverseMap => Leads h m s.1 s.2) (Leads.refl h m)
    (fun _ p hl => hl.step p) peers

theorem Inv.leadHash {t : Table} (h : Inv t) {id : ID} {old new : Hash} {hashes : Keyspace Hash}
    {addrs : ReverseMap} (hl : Leads old t.addrs new addrs) (hid : old.id = id)
    (hold : ∀ x, t.hashes.items id = some x → x = old) (hhashes : hashes.Consistent)
    (hitems : hashes.items = Function.update t.hashes.items id (some new)) :
    Inv { t with hashes := hashes, addrs := addrs } := by
  have hnew : hashes.items id = some new := by rw [hitems, update_self]
  have hkept : ∀ {x a}, PeerAt t x a → PeerAt { t with hashes := hashes, addrs := addrs } x a := by
    rintro x a ⟨hash, p, hx, hp⟩
    by_cases hxid : x = id
    · subst hxid
      obtain rfl := hold hash hx
      obtain ⟨q, hq⟩ := Option.isSome_iff_exists.mp (hl.peers (a := a) (by rw [hp]; rfl))
      exact ⟨new, q, hnew, hq⟩
    · refine ⟨hash, p, ?_, hp⟩
      show hashes.items x = some hash
      rw [hitems, update_of_ne hxid]
      exact hx
  refine ⟨h.nodes, hhashes, h.nodeID, ?_, ?_⟩
  · intro x hash hx
    replace hx : hashes.items x = some hash := hx
    rw [hitems, update_apply] at hx
    split_ifs at hx with hxid
    · cases hx
      rw [hxid, hl.id, hid]
    · exact h.hashID hx
  · intro a info' hinfo'
    replace hinfo' : addrs a = some info' := hinfo'
    have hpeers : ∀ x, info'.hashes x = true → PeerAt { t with hashes := hashes, addrs := addrs } x a := by
      intro x hx
      rcases hl.hashes hinfo' hx with ⟨info, hinfo, hin⟩ | ⟨rfl, hsome⟩
      · exact hkept ((h.entries hinfo).hashes x hin)
      · obtain ⟨q, hq⟩ := Option.isSome_iff_exists.mp hsome
        exact ⟨new, q, hid ▸ hnew, hq⟩
    cases hm : t.addrs a with
    | none =>
      obtain ⟨hpeer, hin⟩ := hl.fresh hm hinfo'
      refine ⟨?_, hpeers, .inr ⟨_, hin⟩⟩
      rw [hpeer]
      intro hzero
      simp [isZero] at hzero
    | some info =>
      obtain ⟨info'', hinfo'', hpeer, hsub⟩ := hl.kept hm
      rw [hinfo'] at hinfo''
      cases hinfo''
      obtain ⟨hnode, -, hnamed⟩ := h.entries hm
      rw [← hpeer] at hnode hnamed
      exact ⟨hnode, hpeers, hnamed.imp_right fun ⟨x, hx⟩ => ⟨x, hsub x hx⟩⟩

/-! ## Commands -/

/-- What a command can do to the table. -/
inductive Effect (t : Table) : Command → Table → Prop
  | invalid {id addr} (invalid : addr.isValid = false) : Effect t (.putNode id addr) t
  | rejected {id addr} (absent : t.nodes.items id = none) : Effect t (.putNode id addr) t
  | created {id addr nodes} (absent : t.nodes.items id = none) (consistent : nodes.Consistent)
      (items : nodes.items = Function.update t.nodes.items id (some ⟨id, addr⟩)) :
      Effect t (.putNode id addr) { t with nodes := nodes }
  | putAgain {id addr n nodes} (valid : addr.isValid = true) (found : t.nodes.items id = some n)
      (consistent : nodes.Consistent)
      (items : nodes.items = Function.update t.nodes.items id (some { n with addr := addr })) :
      Effect t (.putNode id addr) { t with nodes := nodes, addrs := movedAddrs t.addrs n addr }
  | noNode {id} (absent : t.nodes.items id = none) : Effect t (.dropNode id) t
  | noAddr {a} (unknown : t.addrs.getPeerIDForAddr a = none) : Effect t (.dropAddr a) t
  | droppedNode {c id n nodes} (named : c = .dropNode id ∨ c = .dropAddr n.addr.addr)
      (found : t.nodes.items id = some n) (consistent : nodes.Consistent)
      (items : nodes.items = Function.update t.nodes.items id none) :
      Effect t c { t with nodes := nodes, addrs := t.addrs.dropAddr n.addr.addr }
  | noHash {id peers} : Effect t (.putHash id peers) t
  | tookPeers {id peers old new hashes addrs} (leads : Leads old t.addrs new addrs) (named : old.id = id)
      (found : ∀ x, t.hashes.items id = some x → x = old) (consistent : hashes.Consistent)
      (items : hashes.items = Function.update t.hashes.items id (some new)) :
      Effect t (.putHash id peers) { t with hashes := hashes, addrs := addrs }

theorem Inv.dropNode_ok {t : Table} (h : Inv t) {id : ID} {n : Node} (hn : t.nodes.items id = some n) :
    ∃ nodes : Keyspace Node,
      t.dropNode id = .ok ({ t with nodes := nodes, addrs := t.addrs.dropAddr n.addr.addr }, true) ∧
        nodes.Consistent ∧ nodes.items = Function.update t.nodes.items id none := by
  rcases h.nodes.drop_cases nodeCallbacks t.addrs id with
    ⟨hnone, -⟩ | ⟨n', nodes, hn', hdrop, hcons, hitems⟩
  · rw [hn] at hnone
    cases hnone
  · rw [hn] at hn'
    cases hn'
    refine ⟨nodes, ?_, hcons, hitems⟩
    simp only [Table.dropNode, hdrop, bind, Except.bind]
    rfl

theorem Inv.dropNode_absent {t : Table} (h : Inv t) {id : ID} (hnone : t.nodes.items id = none) :
    t.dropNode id = .ok (t, false) := by
  rcases h.nodes.drop_cases nodeCallbacks t.addrs id with
    ⟨-, hdrop⟩ | ⟨n', nodes, hn', -⟩
  · simp only [Table.dropNode, hdrop, bind, Except.bind]
  · rw [hnone] at hn'
    cases hn'

theorem Inv.nodeAt_of_getPeerIDForAddr {t : Table} (h : Inv t) {a : Addr} {id : ID}
    (hget : t.addrs.getPeerIDForAddr a = some id) : NodeAt t id a := by
  unfold ReverseMap.getPeerIDForAddr at hget
  cases hm : t.addrs a with
  | none =>
    rw [hm] at hget
    cases hget
  | some info =>
    rw [hm] at hget
    dsimp only at hget
    split_ifs at hget with hzero
    cases hget
    exact (h.entries hm).node (Bool.not_eq_true _ ▸ hzero)

theorem Inv.exec_effect {t : Table} (h : Inv t) (c : Command) : ∃ t', t.exec c = .ok t' ∧ Effect t c t' := by
  cases c with
  | putNode id addr =>
    cases hvalid : addr.isValid with
    | false => exact ⟨t, by simp [Table.exec, Table.putNode, hvalid, Except.map], .invalid hvalid⟩
    | true =>
      obtain ⟨nodes, addrs, result, hput, hcase⟩ := h.nodes.put_cases nodeCallbacks t.addrs id addr
      have hexec : t.exec (.putNode id addr) = .ok { t with nodes := nodes, addrs := addrs } := by
        simp [Table.exec, Table.putNode, hvalid, hput, bind, Except.bind, Except.map]
      cases hcase with
      | rejected absent => exact ⟨_, hexec, .rejected absent⟩
      | created absent consistent items => exact ⟨_, hexec, .created absent consistent items⟩
      | updated found consistent items => exact ⟨_, hexec, .putAgain hvalid found consistent items⟩
  | dropNode id =>
    cases hn : t.nodes.items id with
    | none => exact ⟨t, by simp [Table.exec, h.dropNode_absent hn, Except.map], .noNode hn⟩
    | some n =>
      obtain ⟨nodes, hdrop, hcons, hitems⟩ := h.dropNode_ok hn
      exact ⟨_, by simp only [Table.exec, hdrop, Except.map], .droppedNode (.inl rfl) hn hcons hitems⟩
  | dropAddr a =>
    cases hget : t.addrs.getPeerIDForAddr a with
    | none => exact ⟨t, by simp only [Table.exec, Table.dropAddr, hget, Except.map], .noAddr hget⟩
    | some id =>
      obtain ⟨n, hn, rfl⟩ := h.nodeAt_of_getPeerIDForAddr hget
      obtain ⟨nodes, hdrop, hcons, hitems⟩ := h.dropNode_ok hn
      exact ⟨_, by simp only [Table.exec, Table.dropAddr, hget, hdrop, Except.map],
        .droppedNode (.inr rfl) hn hcons hitems⟩
  | putHash id peers =>
    obtain ⟨hashes, addrs, result, hput, hcase⟩ := h.hashes.put_cases hashCallbacks t.addrs id peers
    have hexec : t.exec (.putHash id peers) = .ok { t with hashes := hashes, addrs := addrs } := by
      simp only [Table.exec, Table.putHash, hput, bind, Except.bind, Except.map]
    cases hcase with
    | rejected _ => exact ⟨_, hexec, .noHash⟩
    | created absent consistent items =>
      refine ⟨_, hexec, .tookPeers (Hash.leads_addPeers (.noPeers id) peers t.addrs) rfl ?_ consistent items⟩
      intro x hx
      rw [absent] at hx
      cases hx
    | @updated _ old found consistent items =>
      refine ⟨_, hexec, .tookPeers (Hash.leads_addPeers old peers t.addrs) (h.hashID found) ?_ consistent items⟩
      grind

theorem Inv.effect {t t' : Table} {c : Command} (h : Inv t) (he : Effect t c t') : Inv t' := by
  cases he with
  | invalid => exact h
  | rejected => exact h
  | created absent consistent items => exact h.newNode absent consistent items
  | putAgain _ found consistent items => exact h.moveNode found consistent items
  | noNode => exact h
  | noAddr => exact h
  | droppedNode _ found consistent items => exact h.dropNode found consistent items
  | noHash => exact h
  | tookPeers leads named found consistent items => exact h.leadHash leads named found consistent items

/-! ## Addresses that are known -/

/-- The entry of an address names a node. -/
def Registered (t : Table) (a : Addr) : Prop := ∃ info, t.addrs a = some info ∧ isZero info.peerID = false

/-- A node is put at the address, and it is in the table already. -/
inductive Registers (t : Table) : Command → Addr → Prop
  | putAgain {id addr n} (valid : addr.isValid = true) (found : t.nodes.items id = some n)
      (nonzero : isZero id = false) : Registers t (.putNode id addr) addr.addr

/-- A node at the address is dropped or put elsewhere, or the zero id is put there. -/
inductive Withdraws (t : Table) : Command → Addr → Prop
  | moved {id addr n} (valid : addr.isValid = true) (found : t.nodes.items id = some n)
      (elsewhere : addr.addr ≠ n.addr.addr) : Withdraws t (.putNode id addr) n.addr.addr
  | zero {id addr n} (valid : addr.isValid = true) (found : t.nodes.items id = some n) (zero : isZero id = true) :
      Withdraws t (.putNode id addr) addr.addr
  | droppedNode {id n} (found : t.nodes.items id = some n) : Withdraws t (.dropNode id) n.addr.addr
  | droppedAddr {a} : Withdraws t (.dropAddr a) a

/-- `FilterKnownAddrs` removes the address, and `DropAddr` drops a node with it. -/
def Known (t : Table) (a : Addr) : Prop :=
  (∀ addrs, a ∉ t.filterKnownAddrs addrs) ∧
    ∃ t' id, t.dropAddr a = .ok (t', true) ∧ NodeAt t id a ∧ t'.nodes.items id = none

theorem registered_iff {t : Table} {a : Addr} : Registered t a ↔ ∃ id, t.addrs.getPeerIDForAddr a = some id := by
  unfold Registered ReverseMap.getPeerIDForAddr
  cases t.addrs a with
  | none => simp
  | some info => cases hzero : isZero info.peerID <;> simp [hzero]

theorem Inv.known_iff {t : Table} (h : Inv t) (a : Addr) : Known t a ↔ Registered t a := by
  constructor
  · rintro ⟨-, t', id, hdrop, -⟩
    grind [registered_iff, Table.dropAddr]
  · intro hreg
    refine ⟨fun addrs hmem => ?_, ?_⟩
    · obtain ⟨info, hinfo, -⟩ := hreg
      simp [Table.filterKnownAddrs, hinfo] at hmem
    · obtain ⟨id, hget⟩ := registered_iff.mp hreg
      obtain ⟨n, hn, rfl⟩ := h.nodeAt_of_getPeerIDForAddr hget
      obtain ⟨nodes, hdrop, -, hitems⟩ := h.dropNode_ok hn
      have heq : t.dropAddr n.addr.addr = t.dropNode id := by simp only [Table.dropAddr, hget]
      refine ⟨_, id, heq.trans hdrop, ⟨n, hn, rfl⟩, ?_⟩
      show nodes.items id = none
      rw [hitems, update_self]

theorem registered_dropAddr {t : Table} {nodes : Keyspace Node} {b a : Addr} :
    Registered { t with nodes := nodes, addrs := t.addrs.dropAddr b } a ↔ Registered t a ∧ a ≠ b := by
  show (∃ info, Function.update t.addrs b none a = some info ∧ _) ↔ _
  rw [update_apply]
  split_ifs with ha
  · simp [ha]
  · exact (and_iff_left ha).symm

theorem registered_moved {t : Table} {nodes : Keyspace Node} {n : Node} {addr : AddrPort} {a : Addr} :
    Registered { t with nodes := nodes, addrs := movedAddrs t.addrs n addr } a ↔
      if a = addr.addr then isZero n.id = false else Registered t a ∧ a ≠ n.addr.addr := by
  show (∃ info, movedAddrs t.addrs n addr a = some info ∧ _) ↔ _
  split_ifs with ha
  · subst ha
    obtain ⟨info, hinfo, hpeer, -⟩ := movedAddrs_self t.addrs n addr
    rw [hinfo]
    simp [hpeer]
  · rw [movedAddrs_of_ne ha]
    split_ifs with hold
    · simp [hold]
    · exact (and_iff_left hold).symm

theorem Leads.registered {t : Table} {old new : Hash} {hashes : Keyspace Hash} {addrs : ReverseMap} {a : Addr}
    (hl : Leads old t.addrs new addrs) :
    Registered { t with hashes := hashes, addrs := addrs } a ↔ Registered t a := by
  constructor
  · rintro ⟨info', hinfo', hzero⟩
    cases hm : t.addrs a with
    | none =>
      rw [(hl.fresh hm hinfo').1] at hzero
      simp [isZero] at hzero
    | some info =>
      obtain ⟨info'', hinfo'', hpeer, -⟩ := hl.kept hm
      obtain rfl : info'' = info' := Option.some.inj (hinfo''.symm.trans hinfo')
      exact ⟨info, hm, hpeer ▸ hzero⟩
  · rintro ⟨info, hinfo, hzero⟩
    obtain ⟨info', hinfo', hpeer, -⟩ := hl.kept hinfo
    exact ⟨info', hinfo', hpeer.symm ▸ hzero⟩

theorem idle_of_absent {t : Table} {id : ID} {addr : AddrPort} (habsent : t.nodes.items id = none) (a : Addr) :
    ¬ Registers t (.putNode id addr) a ∧ ¬ Withdraws t (.putNode id addr) a := by
  constructor
  · rintro ⟨-, found, -⟩
    rw [habsent] at found
    cases found
  · intro hw
    cases hw with
    | moved _ found => rw [habsent] at found; cases found
    | zero _ found => rw [habsent] at found; cases found

theorem idle_of_invalid {t : Table} {id : ID} {addr : AddrPort} (hinvalid : addr.isValid = false) (a : Addr) :
    ¬ Registers t (.putNode id addr) a ∧ ¬ Withdraws t (.putNode id addr) a := by
  constructor
  · rintro ⟨valid, -, -⟩
    rw [hinvalid] at valid
    cases valid
  · intro hw
    cases hw with
    | moved valid => rw [hinvalid] at valid; cases valid
    | zero valid => rw [hinvalid] at valid; cases valid

theorem withdraws_putNode_iff {t : Table} {id : ID} {addr : AddrPort} {n : Node} {a : Addr}
    (hvalid : addr.isValid = true) (hfound : t.nodes.items id = some n) (ha : a ≠ addr.addr) :
    Withdraws t (.putNode id addr) a ↔ a = n.addr.addr := by
  constructor
  · intro hw
    cases hw with
    | moved _ found' =>
      rw [hfound] at found'
      cases found'
      rfl
    | zero => exact absurd rfl ha
  · rintro rfl
    exact .moved hvalid hfound (Ne.symm ha)

theorem withdraws_dropNode_iff {t : Table} {id : ID} {n : Node} {a : Addr} (hfound : t.nodes.items id = some n) :
    Withdraws t (.dropNode id) a ↔ a = n.addr.addr := by
  constructor
  · intro hw
    cases hw with
    | droppedNode found' =>
      rw [hfound] at found'
      cases found'
      rfl
  · rintro rfl
    exact .droppedNode hfound

theorem withdraws_dropAddr_iff {t : Table} {b a : Addr} : Withdraws t (.dropAddr b) a ↔ a = b := by
  constructor
  · intro hw
    cases hw
    rfl
  · rintro rfl
    exact .droppedAddr

/-- **One command.** An address is registered afterwards if the command registers it, or it was and is not withdrawn.
-/
theorem Inv.registered_effect {t t' : Table} {c : Command} (h : Inv t) (he : Effect t c t') (a : Addr) :
    Registered t' a ↔ Registers t c a ∨ (Registered t a ∧ ¬ Withdraws t c a) := by
  cases he with
  | invalid invalid => grind [idle_of_invalid]
  | rejected absent => grind [idle_of_absent]
  | created absent =>
    obtain ⟨hreg, hwith⟩ := idle_of_absent absent a
    rw [or_iff_right hreg, and_iff_left hwith]
    rfl
  | @putAgain id addr n nodes valid found =>
    rw [registered_moved, h.nodeID found]
    split_ifs with ha
    · subst ha
      constructor
      · intro hzero
        exact .inl (.putAgain valid found hzero)
      · rintro (⟨-, -, hzero⟩ | ⟨-, hwith⟩)
        · exact hzero
        · exact Bool.not_eq_true _ ▸ fun hzero => hwith (.zero valid found hzero)
    · have hreg : ¬ Registers t (.putNode id addr) a := by
        rintro ⟨-, -, -⟩
        exact ha rfl
      grind [withdraws_putNode_iff]
  | @noNode id absent =>
    have hreg : ¬ Registers t (.dropNode id) a := nofun
    have hwith : ¬ Withdraws t (.dropNode id) a := by
      intro hw
      cases hw with
      | droppedNode found => rw [absent] at found; cases found
    rw [or_iff_right hreg, and_iff_left hwith]
  | @noAddr b unknown =>
    have hreg : ¬ Registers t (.dropAddr b) a := nofun
    grind [withdraws_dropAddr_iff, registered_iff]
  | @droppedNode c id n nodes named found =>
    rw [registered_dropAddr]
    rcases named with rfl | rfl
    · have hreg : ¬ Registers t (.dropNode id) a := nofun
      rw [or_iff_right hreg, withdraws_dropNode_iff found]
    · have hreg : ¬ Registers t (.dropAddr n.addr.addr) a := nofun
      rw [or_iff_right hreg, withdraws_dropAddr_iff]
  | @noHash id peers =>
    have hreg : ¬ Registers t (.putHash id peers) a := nofun
    have hwith : ¬ Withdraws t (.putHash id peers) a := nofun
    rw [or_iff_right hreg, and_iff_left hwith]
  | @tookPeers id peers _ _ _ _ leads =>
    have hreg : ¬ Registers t (.putHash id peers) a := nofun
    have hwith : ¬ Withdraws t (.putHash id peers) a := nofun
    rw [or_iff_right hreg, and_iff_left hwith]
    exact leads.registered

/-! ## Sequences of calls -/

theorem run_eq_foldl (t : Table) (calls : List Call) :
    run t calls = (calls.flatMap Call.commands).foldl step (.ok t) := by
  unfold run
  rw [foldl_flatMap]

def InvSoFar (s : Except Panic Table) : Prop := ∃ t, s = .ok t ∧ Inv t

theorem InvSoFar.step {s : Except Panic Table} (c : Command) (h : InvSoFar s) : InvSoFar (step s c) := by
  obtain ⟨t, rfl, ht⟩ := h
  obtain ⟨t', hexec, he⟩ := ht.exec_effect c
  exact ⟨t', hexec, ht.effect he⟩

theorem InvSoFar.registered_step {s : Except Panic Table} (c : Command) (a : Addr) (h : InvSoFar s) :
    (∃ t, Ktable.step s c = .ok t ∧ Registered t a) ↔ (∃ t, s = .ok t ∧ Registers t c a) ∨
        ((∃ t, s = .ok t ∧ Registered t a) ∧ ¬ ∃ t, s = .ok t ∧ Withdraws t c a) := by
  obtain ⟨t, rfl, ht⟩ := h
  obtain ⟨t', hexec, he⟩ := ht.exec_effect c
  have hstep : Ktable.step (.ok t) c = .ok t' := hexec
  rw [hstep]
  simpa using ht.registered_effect he a

/-- A node was put there again, and since then none was dropped there or put elsewhere. -/
def PutAgainSince (nodeID : ID) (calls : List Call) (a : Addr) : Prop :=
  Run.Since step (fun s c => ∃ t, s = .ok t ∧ Registers t c a) (fun s c => ∃ t, s = .ok t ∧ Withdraws t c a)
    (.ok (newTable nodeID)) (calls.flatMap Call.commands)

theorem run_inv (nodeID : ID) (calls : List Call) : InvSoFar (run (newTable nodeID) calls) := by
  rw [run_eq_foldl]
  exact Run.foldl_invariant step ⟨_, rfl, inv_new nodeID⟩ (fun _ c h => h.step c) _

theorem registered_iff_putAgainSince {nodeID : ID} {calls : List Call} {t : Table}
    (hrun : run (newTable nodeID) calls = .ok t) (a : Addr) :
    Registered t a ↔ PutAgainSince nodeID calls a := by
  have hdown : ¬ ∃ t, (Except.ok (newTable nodeID) : Except Panic Table) = .ok t ∧ Registered t a := by
    rintro ⟨_, hnew, info, hinfo, -⟩
    cases hnew
    cases hinfo
  have hflag := Run.flag_iff_since (I := InvSoFar) (fun s => ∃ t, s = .ok t ∧ Registered t a)
    ⟨_, rfl, inv_new nodeID⟩ hdown (fun _ c h => h.step c) (fun _ c h => h.registered_step c a)
    (calls.flatMap Call.commands)
  grind [run_eq_foldl, PutAgainSince]

/-- **The reverse map, exactly.** Every entry names nodes and peers of the table, and every node's address is known
exactly if at each some node was put again and none has left since. -/
theorem reverseMap_exact (nodeID : ID) (calls : List Call) : ∃ t, run (newTable nodeID) calls = .ok t ∧
      (∀ a info, t.addrs a = some info → EntrySound t a info) ∧
      ((∀ id n, t.nodes.items id = some n → Known t n.addr.addr) ↔
        ∀ id n, t.nodes.items id = some n → PutAgainSince nodeID calls n.addr.addr) := by
  obtain ⟨t, hrun, ht⟩ := run_inv nodeID calls
  refine ⟨t, hrun, fun _ _ hinfo => ht.entries hinfo, ?_⟩
  simp only [ht.known_iff, registered_iff_putAgainSince hrun]

def oneID : ID := ⟨1 :: List.replicate 19 0, rfl⟩
def somePeer : AddrPort := ⟨.v4 0x0a000001, 6881⟩

/-- A node put once is in the table, `FilterKnownAddrs` keeps its address, and `DropAddr` does not find it. -/
theorem fresh_node_unknown : ∃ t n, run (newTable zeroID) [.command (.putNode oneID somePeer)] = .ok t ∧
      t.nodes.items oneID = some n ∧ n.addr = somePeer ∧
      t.filterKnownAddrs [somePeer.addr] = [somePeer.addr] ∧ t.dropAddr somePeer.addr = .ok (t, false) := by
  exact ⟨_, ⟨oneID, somePeer⟩, rfl, rfl, rfl, rfl, rfl⟩

end BitAgent.Dht.Ktable
