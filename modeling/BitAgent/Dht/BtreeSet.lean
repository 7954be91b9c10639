/-
# Dht.BtreeSet — the routing-table tree behaves like a finite set of ids

After every sequence of calls `Has`, `Count` and the answers of `Put` and `Drop` are those of one finite set,
`Kept`: the ids that a `Put` accepted and no `Drop` named since. Which new ids are accepted is the tree's decision.
-/
import BitAgent.Dht.BtreeClosest
import BitAgent.Lib.Run

namespace BitAgent.Dht.Btree.Root

open Lib List

variable {len : Nat}

/-! ## The members of a bucket -/

def membersIn (n : Root len) (b : Nat) : Nat := n.ids.countP fun id => decide (NodeID.sharedBits id n.origin = b)

variable {n : Root len}

theorem ids_nodup (h : n.node.WF []) : n.ids.Nodup := by
  have hxors : n.node.allXors.Nodup := h.sorted_allXors.imp fun hlt heq => by
    rw [heq] at hlt
    exact Nat.lt_irrefl _ hlt
  exact hxors.map fun _ _ heq => NodeID.mustXor_left_injective heq

variable {n' : Root len} {id : NodeID len}

theorem membersIn_added (h : n.node.WF []) (h' : n'.node.WF []) (horigin : n'.origin = n.origin)
    (habsent : id ∉ n.ids) (hmem : ∀ x, x ∈ n'.ids ↔ x = id ∨ x ∈ n.ids) (b : Nat) :
    n'.membersIn b = n.membersIn b + if b = NodeID.sharedBits id n.origin then 1 else 0 := by
  have hperm : n'.ids.Perm (id :: n.ids) := by grind [ids_nodup]
  unfold membersIn
  rw [horigin, hperm.countP_eq, countP_cons]
  simp only [decide_eq_true_eq, eq_comm (a := b)]

theorem membersIn_dropped (h : n.node.WF []) (h' : n'.node.WF []) (horigin : n'.origin = n.origin) (hin : id ∈ n.ids)
    (hmem : ∀ x, x ∈ n'.ids ↔ x ∈ n.ids ∧ x ≠ id) (b : Nat) :
    n.membersIn b = n'.membersIn b + if b = NodeID.sharedBits id n.origin then 1 else 0 := by
  grind [membersIn_added]

/-! ## One call -/

/-- The invariant of the tree between calls. -/
structure Sound (n : Root len) : Prop where
  shape : n.node.WF []
  origin : n.origin ∉ n.ids
  buckets : ∀ b, n.bucketCounts b = (n.membersIn b : Int)

theorem sound_new (origin : NodeID len) (k : Int) (splittingEnabled : Bool) :
    (new origin k splittingEnabled).Sound where
  shape := new_wf origin k splittingEnabled
  origin := not_mem_nil
  buckets := fun _ => rfl

theorem Sound.put {result : PutResult} (h : n.Sound) (hcase : PutCase n id n' result) : n'.Sound := by
  cases hcase with
  | origin | known | full => exact h
  | added ne_origin absent shape same_origin buckets mem_iff =>
    refine ⟨shape, ?_, ?_⟩
    · rw [same_origin, mem_iff]
      rintro (heq | hin)
      · exact ne_origin heq.symm
      · exact h.origin hin
    · intro b
      rw [buckets, membersIn_added h.shape shape same_origin absent mem_iff b, addBucketCount, h.buckets]
      unfold NodeID.sharedBits
      split_ifs <;> simp

theorem Sound.drop (h : n.Sound) (id : NodeID len) :
    ∃ n', n.drop id = .ok (n', decide (id ∈ n.ids)) ∧ n'.Sound ∧ ∀ x, x ∈ n'.ids ↔ x ∈ n.ids ∧ x ≠ id := by
  obtain ⟨n', hdrop, shape, same_origin, mem_iff⟩ := drop_spec h.shape id
  refine ⟨n', hdrop, ⟨shape, ?_, ?_⟩, mem_iff⟩
  · rw [same_origin, mem_iff]
    exact fun hin => h.origin hin.1
  · intro b
    rw [drop_buckets hdrop]
    by_cases hin : id ∈ n.ids
    · have hcount := membersIn_dropped h.shape shape same_origin hin mem_iff b
      rw [decide_eq_true hin, if_pos rfl, addBucketCount, h.buckets, hcount]
      grind [NodeID.sharedBits]
    · -- nothing was dropped, and the members are the same
      have hperm : n'.ids.Perm n.ids := by
        refine (perm_ext_iff_of_nodup (ids_nodup shape) (ids_nodup h.shape)).mpr ?_
        grind
      rw [decide_eq_false hin, if_neg Bool.false_ne_true, h.buckets]
      unfold membersIn
      rw [same_origin, hperm.countP_eq]

/-! ## Sequences of calls -/

def stepOrPanic (s : Except Panic (Root len)) (op : Op len) : Except Panic (Root len) := s.bind (·.step op)

theorem foldl_stepOrPanic_error (e : Panic) (ops : List (Op len)) : ops.foldl stepOrPanic (.error e) = .error e := by
  induction ops with
  | nil => rfl
  | cons op ops ih => exact ih

theorem run_eq_foldl (n : Root len) (ops : List (Op len)) : n.run ops = ops.foldl stepOrPanic (.ok n) := by
  induction ops generalizing n with
  | nil => rfl
  | cons op ops ih =>
    show (n.step op).bind (·.run ops) = ops.foldl stepOrPanic (n.step op)
    cases n.step op with
    | error e => exact (foldl_stepOrPanic_error e ops).symm
    | ok n' => exact ih n'

def Accepts (id : NodeID len) (s : Except Panic (Root len)) (op : Op len) : Prop :=
  op = .put id ∧ ∃ n n', s = .ok n ∧ n.put id = .ok (n', .accepted)

def Kept (n : Root len) (ops : List (Op len)) (id : NodeID len) : Prop :=
  Run.Since stepOrPanic (Accepts id) (fun _ op => op = .drop id) (.ok n) ops

def SoundSoFar (s : Except Panic (Root len)) : Prop := ∃ n, s = .ok n ∧ n.Sound

theorem Sound.step (h : n.Sound) (op : Op len) :
    ∃ n', n.step op = .ok n' ∧ n'.Sound ∧ ∀ id, id ∈ n'.ids ↔
      (op = .put id ∧ ∃ n₂, n.put id = .ok (n₂, .accepted)) ∨ (id ∈ n.ids ∧ op ≠ .drop id) := by
  cases op with
  | put id =>
    obtain ⟨n₂, result, hput, hcase⟩ := put_cases h.shape id
    refine ⟨n₂, by simp [Root.step, hput, bind, Except.bind], h.put hcase, ?_⟩
    intro x
    have haccepted : (Op.put id = Op.put x ∧ ∃ n₂, n.put x = .ok (n₂, .accepted)) ↔
        x = id ∧ result = .accepted := by grind
    rw [haccepted]
    cases hcase with
    | origin | known | full => simp
    | added _ _ _ _ _ mem_iff =>
      rw [mem_iff]
      simp
  | drop id =>
    obtain ⟨n₂, hdrop, hsound, mem_iff⟩ := h.drop id
    refine ⟨n₂, by simp [Root.step, hdrop, bind, Except.bind], hsound, ?_⟩
    intro x
    rw [mem_iff]
    simp [eq_comm]

theorem SoundSoFar.step {s : Except Panic (Root len)} (h : SoundSoFar s) (op : Op len) :
    SoundSoFar (stepOrPanic s op) := by
  obtain ⟨n, rfl, hsound⟩ := h
  obtain ⟨n', hstep, hsound', -⟩ := hsound.step op
  exact ⟨n', hstep, hsound'⟩

theorem run_sound (h : n.Sound) (hempty : n.ids = []) (ops : List (Op len)) :
    ∃ n', n.run ops = .ok n' ∧ n'.Sound ∧ ∀ id, id ∈ n'.ids ↔ Kept n ops id := by
  have hstart : SoundSoFar (.ok n) := ⟨n, rfl, h⟩
  obtain ⟨n', hrun, hsound⟩ := Run.foldl_invariant stepOrPanic hstart (fun _ op hs => hs.step op) ops
  refine ⟨n', by rw [run_eq_foldl, hrun], hsound, ?_⟩
  intro id
  have hflag : ∀ s op, SoundSoFar s → ((∃ m, stepOrPanic s op = .ok m ∧ id ∈ m.ids) ↔
      Accepts id s op ∨ ((∃ m, s = .ok m ∧ id ∈ m.ids) ∧ ¬ op = .drop id)) := by
    rintro _ op ⟨n1, rfl, hn1⟩
    obtain ⟨n2, hstep, -, hmem⟩ := hn1.step op
    show (∃ m, n1.step op = .ok m ∧ id ∈ m.ids) ↔ _
    rw [hstep]
    simp [hmem id, Accepts]
  have hmember := Run.flag_iff_since (fun s => ∃ m, s = .ok m ∧ id ∈ m.ids) hstart (by simp [hempty])
    (fun _ op hs => hs.step op) hflag ops
  rw [Kept, ← hmember, hrun]
  simp

/-! ## The tree as a set -/

/-- The tree is a finite set of ids: for queries, for the next call's answers, and in every bucket. -/
structure LikeSet (n : Root len) (member : NodeID len → Prop) : Prop where
  has : ∀ id, ∃ answer, n.has id = .ok answer ∧ (answer = true ↔ member id)
  list : ∀ id, id ∈ n.ids ↔ member id
  nodup : n.ids.Nodup
  count : n.count = n.ids.length
  buckets : ∀ b, n.bucketCounts b = (n.membersIn b : Int)
  put : ∀ id, ∃ n' result, n.put id = .ok (n', result) ∧ (result = .alreadyExists ↔ member id)
  drop : ∀ id, ∃ n' answer, n.drop id = .ok (n', answer) ∧ (answer = true ↔ member id)

theorem Sound.likeSet (h : n.Sound) : n.LikeSet (· ∈ n.ids) where
  has := fun id => ⟨_, has_eq h.shape id, decide_eq_true_iff⟩
  list := fun _ => Iff.rfl
  nodup := ids_nodup h.shape
  count := by rw [count, h.shape.count_eq, ids, length_map]
  buckets := h.buckets
  put := by
    intro id
    obtain ⟨n', result, hput, hcase⟩ := put_cases h.shape id
    refine ⟨n', result, hput, ?_⟩
    cases hcase with
    | origin is_origin => simpa [is_origin] using h.origin
    | known _ mem => simpa using mem
    | full _ absent | added _ absent => simpa using absent
  drop := by
    intro id
    obtain ⟨n', hdrop, -⟩ := h.drop id
    exact ⟨n', _, hdrop, decide_eq_true_iff⟩

/-- **The tree is a finite set.** Every sequence of calls ends without a panic, and the tree agrees in everything with
the set of the ids that were accepted and not dropped since. -/
theorem run_likeSet (origin : NodeID len) (k : Int) (splittingEnabled : Bool) (ops : List (Op len)) :
    ∃ n, (new origin k splittingEnabled).run ops = .ok n ∧ n.LikeSet (Kept (new origin k splittingEnabled) ops) := by
  obtain ⟨n, hrun, hsound, hmem⟩ := run_sound (sound_new origin k splittingEnabled) rfl ops
  have hset : (· ∈ n.ids) = Kept (new origin k splittingEnabled) ops := funext fun id => propext (hmem id)
  exact ⟨n, hrun, hset ▸ hsound.likeSet⟩

end BitAgent.Dht.Btree.Root
