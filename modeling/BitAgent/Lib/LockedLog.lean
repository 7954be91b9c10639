/-
# Lib.LockedLog — rows that are kept in step with a log by concurrent transactions

A write upserts the row of its key, then appends an entry to the log under an id from a sequence; any number of
transactions do this at once. An upserted row is locked until its transaction ends. Ids are drawn in one order and
committed in another, and those of aborted transactions are lost. Because the row comes first, the ids of a key are
drawn under its lock, and the row is that of the entry with the greatest id (`Sound.step`).
-/
import BitAgent.Lib.Run
import BitAgent.Lib.Table

namespace BitAgent.Lib.LockedLog

open List

/-! ## Writes, tables and transactions -/

/-- How a write `ε` is stored: as a row `σ` with a key `κ`, and as an entry `ρ` of the log. -/
structure Format (κ σ ε ρ : Type) where
  rowKey : σ → κ
  row : ε → σ
  entryKey : ρ → Nat
  entry : Nat → ε → ρ
  written : ρ → ε
  entryKey_entry : ∀ n e, entryKey (entry n e) = n
  written_entry : ∀ n e, written (entry n e) = e

variable {κ σ ε ρ : Type} [DecidableEq κ] (F : Format κ σ ε ρ)

def Format.key (e : ε) : κ := F.rowKey (F.row e)

structure Base where
  rows : Table F.rowKey
  log : Serial F.entryKey

/-- A transaction: the complete writes with ids, and the one whose entry is still to come. -/
structure Tx (ε : Type) where
  id : Nat
  done : List (Nat × ε)
  half : Option ε

structure System where
  base : Base F
  active : Table (Tx.id : Tx ε → Nat)

inductive Statement (ε : Type) where
  | begin (t : Nat)
  | upsert (t : Nat) (e : ε)
  | insert (t : Nat)
  | commit (t : Nat)
  | abort (t : Nat)

def Tx.holds (tx : Tx ε) (k : κ) : Bool := (tx.done.map Prod.snd ++ tx.half.toList).any fun e => decide (F.key e = k)

variable {F}

def Base.put (b : Base F) (x : Nat × ε) : Base F where
  rows := b.rows.upsert (F.row x.2)
  log := b.log.place (F.entry x.1 x.2)

/-- Another open transaction holds the key. -/
def System.locked (s : System F) (t : Nat) (k : κ) : Bool :=
  s.active.rows.any fun tx => decide (tx.id ≠ t) && tx.holds F k

/-- One statement; one that cannot be sent, or has to wait, does nothing. -/
def step (s : System F) : Statement ε → System F
  | .begin t => { s with active := s.active.insertNew { id := t, done := [], half := none } }
  | .upsert t e =>
    match s.active.get? t with
    | some { half := none, .. } =>
      if s.locked t (F.key e) then s
      else
        { s with
          active := s.active.update (fun tx => decide (tx.id = t))
            (fun tx => { tx with half := some e }) }
    | _ => s
  | .insert t =>
    match s.active.get? t with
    | some { half := some e, .. } =>
      { base := { s.base with log := s.base.log.draw }
        active := s.active.update (fun tx => decide (tx.id = t))
          (fun tx => { tx with done := tx.done ++ [(s.base.log.next, e)], half := none }) }
    | _ => s
  | .commit t =>
    match s.active.get? t with
    | some { done := done, half := none, .. } =>
      { base := done.foldl Base.put s.base, active := s.active.delete fun tx => decide (tx.id = t) }
    | _ => s
  | .abort t => { s with active := s.active.delete fun tx => decide (tx.id = t) }

/-! ## Agreement -/

def Base.last (b : Base F) (k : κ) : Option ρ :=
  (b.log.maxKey fun x => decide (F.key (F.written x) = k)).bind b.log.get?

/-- The row of every key is that of its last entry. -/
def Base.Agrees (b : Base F) : Prop := ∀ k, b.rows.get? k = (b.last k).map fun x => F.row (F.written x)

/-- A write whose id was drawn, is not in the log, and is above those of its key there. -/
structure Base.Next (b : Base F) (x : Nat × ε) : Prop where
  drawn : x.1 < b.log.next
  free : x.1 ∉ b.log.table.rows.map F.entryKey
  above : ∀ y ∈ b.log.table.rows, F.key (F.written y) = F.key x.2 → F.entryKey y < x.1

section
variable {b : Base F} {x : Nat × ε}

theorem Base.Next.rows_put (h : b.Next x) : (b.put x).log.table.rows = b.log.table.rows ++ [F.entry x.1 x.2] ∧
      (b.put x).log.next = b.log.next := by
  refine Serial.rows_place ?_ ?_
  · rw [F.entryKey_entry]
    exact h.drawn
  · rw [F.entryKey_entry]
    exact h.free

/-- **One visible write** keeps the agreement: it is the last entry of its key and of no other. -/
theorem Base.Agrees.put (hb : b.Agrees) (h : b.Next x) : (b.put x).Agrees := by
  obtain ⟨hrows, -⟩ := h.rows_put
  have hfree : F.entryKey (F.entry x.1 x.2) ∉ b.log.table.rows.map F.entryKey := by
    rw [F.entryKey_entry]
    exact h.free
  intro k
  have hget : (b.put x).rows.get? k =
      if F.key x.2 = k then some (F.row x.2) else b.rows.get? k := Table.get?_upsert _ _ _
  rw [hget]
  unfold Base.last
  by_cases hk : F.key x.2 = k
  · have habove : ∀ y ∈ b.log.table.rows, decide (F.key (F.written y) = k) = true →
        F.entryKey y < F.entryKey (F.entry x.1 x.2) := by
      intro y hy hkey
      rw [F.entryKey_entry]
      exact h.above y hy ((of_decide_eq_true hkey).trans hk.symm)
    rw [if_pos hk, Serial.maxKey_append_above hrows habove, F.written_entry,
      if_pos (decide_eq_true hk), Option.bind_some, Serial.get?_append_free hrows hfree, if_pos rfl,
      Option.map_some, F.written_entry]
  · rw [if_neg hk, hb k]
    unfold Base.last
    rw [Serial.maxKey_bind_append hrows hfree]
    rw [F.written_entry]
    exact decide_eq_false hk

/-- **A commit** keeps the agreement: its ids ascend, and each is above those of its key in the log. -/
theorem Base.Agrees.putAll {l : List (Nat × ε)} {b : Base F} (hb : b.Agrees)
    (hascending : l.Pairwise (·.1 < ·.1)) (hnext : ∀ x ∈ l, b.Next x) :
    (l.foldl Base.put b).Agrees ∧ (l.foldl Base.put b).log.next = b.log.next ∧
      ∀ y, y ∈ (l.foldl Base.put b).log.table.rows ↔ y ∈ b.log.table.rows ∨ ∃ x ∈ l, y = F.entry x.1 x.2 := by
  induction l generalizing b with
  | nil => exact ⟨hb, rfl, by simp⟩
  | cons x l ih =>
    rw [pairwise_cons] at hascending
    have hx := hnext x mem_cons_self
    obtain ⟨hrows, hsame⟩ := hx.rows_put
    have hrest : ∀ x' ∈ l, (b.put x).Next x' := by
      intro x' hx'
      have hold := hnext x' (mem_cons_of_mem _ hx')
      have hlt := hascending.1 x' hx'
      refine ⟨by rw [hsame]; exact hold.drawn, ?_, ?_⟩
      · rw [hrows, map_append, mem_append, not_or, map_singleton, F.entryKey_entry, mem_singleton]
        exact ⟨hold.free, Nat.ne_of_gt hlt⟩
      · intro y hy hkey
        rw [hrows, mem_append, mem_singleton] at hy
        rcases hy with hy | rfl
        · exact hold.above y hy hkey
        · rw [F.entryKey_entry]
          exact hlt
    obtain ⟨hagrees, hnext', hmem⟩ := ih (hb.put hx) hascending.2 hrest
    refine ⟨hagrees, hnext'.trans hsame, fun y => ?_⟩
    rw [foldl_cons, hmem, hrows, mem_append, mem_singleton, exists_mem_cons_iff]
    tauto

end

/-! ## The invariant -/

/-- What every statement keeps: transactions hold different keys, and the ids they have drawn are theirs alone,
ascend, and are above those of their keys in the log. -/
structure Sound (s : System F) : Prop where
  agrees : s.base.Agrees
  exclusive : ∀ tx ∈ s.active.rows, ∀ tx' ∈ s.active.rows, ∀ k, tx.holds F k = true →
    tx'.holds F k = true → tx.id = tx'.id
  ascending : ∀ tx ∈ s.active.rows, tx.done.Pairwise (·.1 < ·.1)
  next : ∀ tx ∈ s.active.rows, ∀ x ∈ tx.done, s.base.Next x
  apart : ∀ tx ∈ s.active.rows, ∀ tx' ∈ s.active.rows, ∀ x ∈ tx.done, ∀ x' ∈ tx'.done, x.1 = x'.1 → tx.id = tx'.id

theorem holds_iff {tx : Tx ε} {k : κ} :
    tx.holds F k = true ↔ (∃ x ∈ tx.done, F.key x.2 = k) ∨ ∃ e, tx.half = some e ∧ F.key e = k := by
  simp [Tx.holds]

variable {s : System F}

theorem Sound.of_active {s' : System F} (hs : Sound s) (hbase : s'.base = s.base)
    (hactive : ∀ tx ∈ s'.active.rows, tx ∈ s.active.rows ∨ (tx.done = [] ∧ tx.half = none)) :
    Sound s' := by
  have hold : ∀ tx ∈ s'.active.rows, ∀ {k}, tx.holds F k = true → tx ∈ s.active.rows := by grind [holds_iff]
  have hold' : ∀ tx ∈ s'.active.rows, ∀ x ∈ tx.done, tx ∈ s.active.rows := by grind
  refine ⟨hbase ▸ hs.agrees, ?_, ?_, ?_, ?_⟩
  · intro tx htx tx' htx' k hk hk'
    exact hs.exclusive tx (hold tx htx hk) tx' (hold tx' htx' hk') k hk hk'
  · intro tx htx
    rcases hactive tx htx with hmem | ⟨hdone, -⟩
    · exact hs.ascending tx hmem
    · rw [hdone]
      exact List.Pairwise.nil
  · intro tx htx x hx
    rw [hbase]
    exact hs.next tx (hold' tx htx x hx) x hx
  · intro tx htx tx' htx' x hx x' hx'
    exact hs.apart tx (hold' tx htx x hx) tx' (hold' tx' htx' x' hx') x hx x' hx'

variable {t : Nat}

/-- A transaction's statement: it may come to hold a free key, and write with new ids. -/
theorem Sound.advance {s' : System F} (hs : Sound s) (hagrees : s'.base.Agrees) (key : κ) (new : List (Nat × ε))
    (hnext : ∀ x, s.base.Next x → s'.base.Next x) (hsorted : new.Pairwise (·.1 < ·.1))
    (hnew : ∀ x ∈ new, s'.base.Next x ∧ s.base.log.next ≤ x.1)
    (hother : ∀ tx ∈ s.active.rows, tx.id ≠ t → tx.holds F key = false)
    (hcases : ∀ tx' ∈ s'.active.rows, ∃ tx ∈ s.active.rows, tx'.id = tx.id ∧
      (tx'.done = tx.done ∨ (tx.id = t ∧ tx'.done = tx.done ++ new)) ∧
      ∀ k, tx'.holds F k = true → tx.holds F k = true ∨ (tx.id = t ∧ key = k)) :
    Sound s' := by
  have hids : ∀ tx' ∈ s'.active.rows, ∀ x ∈ tx'.done, ∃ tx ∈ s.active.rows, tx'.id = tx.id ∧
      (x ∈ tx.done ∨ (tx.id = t ∧ x ∈ new)) := by grind
  refine ⟨hagrees, ?_, ?_, ?_, ?_⟩
  · intro tx1 htx1 tx2 htx2 k hk1 hk2
    obtain ⟨tx, htx, hid, -, hholds⟩ := hcases tx1 htx1
    obtain ⟨tx', htx', hid', -, hholds'⟩ := hcases tx2 htx2
    rw [hid, hid']
    rcases hholds k hk1 with h | ⟨rfl, hkey⟩
    · rcases hholds' k hk2 with h' | ⟨rfl, hkey⟩
      · exact hs.exclusive tx htx tx' htx' k h h'
      · grind
    · grind
  · intro tx1 htx1
    obtain ⟨tx, htx, -, hdone | ⟨-, hdone⟩, -⟩ := hcases tx1 htx1
    · rw [hdone]
      exact hs.ascending tx htx
    · rw [hdone, pairwise_append]
      refine ⟨hs.ascending tx htx, hsorted, ?_⟩
      intro x hx y hy
      exact Nat.lt_of_lt_of_le (hs.next tx htx x hx).drawn (hnew y hy).2
  · intro tx1 htx1 x hx
    obtain ⟨tx, htx, -, hold | ⟨-, hx⟩⟩ := hids tx1 htx1 x hx
    · exact hnext x (hs.next tx htx x hold)
    · exact (hnew x hx).1
  · intro tx1 htx1 tx2 htx2 x hx x' hx' heq
    obtain ⟨tx, htx, hid, hx⟩ := hids tx1 htx1 x hx
    obtain ⟨tx', htx', hid', hx'⟩ := hids tx2 htx2 x' hx'
    rw [hid, hid']
    rcases hx with hold | ⟨ht, hx⟩
    · have hdrawn := (hs.next tx htx x hold).drawn
      rcases hx' with hold' | ⟨-, hx'⟩
      · exact hs.apart tx htx tx' htx' x hold x' hold' heq
      · exact absurd (hnew x' hx').2 (by omega)
    · rcases hx' with hold' | ⟨ht', -⟩
      · have hdrawn := (hs.next tx' htx' x' hold').drawn
        exact absurd (hnew x hx).2 (by omega)
      · exact ht.trans ht'.symm

theorem Sound.upsert (hs : Sound s) {e : ε} (hfree : s.locked t (F.key e) = false) :
    Sound { s with
      active := s.active.update (fun tx => decide (tx.id = t))
        (fun tx => { tx with half := some e }) } := by
  unfold System.locked at hfree
  rw [any_eq_false] at hfree
  refine hs.advance (t := t) hs.agrees (F.key e) [] (fun _ hx => hx) .nil (by simp) (by grind) fun tx' htx' => ?_
  dsimp only at htx'
  rcases Table.mem_update htx' with ⟨tx, htx, hid, rfl⟩ | ⟨htx, -⟩
  · grind [holds_iff]
  · exact ⟨tx', htx, rfl, .inl rfl, fun _ hk => .inl hk⟩

theorem Sound.insert (hs : Sound s) {e : ε} {tx₀ : Tx ε} (hget : s.active.get? t = some tx₀)
    (hhalf : tx₀.half = some e) :
    Sound
      { base := { s.base with log := s.base.log.draw }
        active := s.active.update (fun tx => decide (tx.id = t))
          (fun tx => { tx with done := tx.done ++ [(s.base.log.next, e)], half := none }) } := by
  have hheld : tx₀.holds F (F.key e) = true := holds_iff.mpr (.inr ⟨e, hhalf, rfl⟩)
  refine hs.advance (t := t) hs.agrees (F.key e) [(s.base.log.next, e)] ?_ (pairwise_singleton _ _) ?_ ?_ ?_
  · intro x hx
    exact ⟨Nat.lt_succ_of_lt hx.drawn, hx.free, hx.above⟩
  · intro x hx
    cases mem_singleton.mp hx
    exact ⟨⟨Nat.lt_succ_self _, s.base.log.next_not_mem, fun y hy _ => s.base.log.below y hy⟩, Nat.le_refl _⟩
  · intro tx htx hne
    have hid0 : tx₀.id = t := Table.get?_key hget
    have hsame := hs.exclusive tx htx tx₀ (Table.get?_mem hget) (F.key e)
    grind
  · intro tx' htx'
    dsimp only at htx'
    rcases Table.mem_update htx' with ⟨tx, htx, hid, rfl⟩ | ⟨htx, -⟩
    · have hid := of_decide_eq_true hid
      have hsame : tx = tx₀ := by
        have hrow := Table.get?_of_mem htx
        grind
      grind [holds_iff]
    · exact ⟨tx', htx, rfl, .inl rfl, fun _ hk => .inl hk⟩

theorem Sound.commit (hs : Sound s) {tx₀ : Tx ε} (hget : s.active.get? t = some tx₀) :
    Sound { base := tx₀.done.foldl Base.put s.base
            active := s.active.delete fun tx => decide (tx.id = t) } := by
  have hmem0 := Table.get?_mem hget
  have hid0 : tx₀.id = t := Table.get?_key hget
  obtain ⟨hagrees, hnext, hrows⟩ := hs.agrees.putAll (hs.ascending tx₀ hmem0) (hs.next tx₀ hmem0)
  have hcases : ∀ tx ∈ (s.active.delete fun tx => decide (tx.id = t)).rows,
      tx ∈ s.active.rows ∧ tx.id ≠ t := by grind [Table.mem_delete]
  refine ⟨hagrees, ?_, ?_, ?_, ?_⟩
  · intro tx htx tx' htx'
    exact hs.exclusive tx (hcases tx htx).1 tx' (hcases tx' htx').1
  · intro tx htx
    exact hs.ascending tx (hcases tx htx).1
  · intro tx htx x hx
    obtain ⟨hmem, hne⟩ := hcases tx htx
    have hold := hs.next tx hmem x hx
    refine ⟨by rw [hnext]; exact hold.drawn, ?_, ?_⟩
    · intro htaken
      obtain ⟨y, hy, hkey⟩ := mem_map.mp htaken
      rcases (hrows y).mp hy with hy | ⟨x', hx', rfl⟩
      · exact hold.free (hkey ▸ mem_map_of_mem hy)
      · rw [F.entryKey_entry] at hkey
        exact hne ((hs.apart tx hmem tx₀ hmem0 x hx x' hx' hkey.symm).trans hid0)
    · intro y hy hkey
      rcases (hrows y).mp hy with hy | ⟨x', hx', rfl⟩
      · exact hold.above y hy hkey
      · rw [F.written_entry] at hkey
        have hholds : tx.holds F (F.key x.2) = true := holds_iff.mpr (.inl ⟨x, hx, rfl⟩)
        have hholds0 : tx₀.holds F (F.key x.2) = true := holds_iff.mpr (.inl ⟨x', hx', hkey⟩)
        exact absurd ((hs.exclusive tx hmem tx₀ hmem0 _ hholds hholds0).trans hid0) hne
  · intro tx htx tx' htx'
    exact hs.apart tx (hcases tx htx).1 tx' (hcases tx' htx').1

/-- **Every statement keeps the invariant.** -/
theorem Sound.step {s : System F} (hs : Sound s) (c : Statement ε) : Sound (step s c) := by
  cases c with
  | begin t =>
    refine hs.of_active rfl fun tx htx => ?_
    rcases Table.mem_insertNew htx with hold | rfl
    · exact .inl hold
    · exact .inr ⟨rfl, rfl⟩
  | upsert t e =>
    simp only [LockedLog.step]
    split
    · split_ifs with hlocked
      · exact hs
      · exact hs.upsert (Bool.eq_false_iff.mpr hlocked)
    · exact hs
  | insert t =>
    simp only [LockedLog.step]
    split
    next hget => exact hs.insert hget rfl
    · exact hs
  | commit t =>
    simp only [LockedLog.step]
    split
    next hget => exact hs.commit hget
    · exact hs
  | abort t =>
    refine hs.of_active rfl fun tx htx => ?_
    exact .inl (Table.mem_delete.mp htx).1

theorem sound_idle {b : Base F} (hb : b.Agrees) : Sound { base := b, active := .empty } where
  agrees := hb
  exclusive := by
    intro tx htx
    cases htx
  ascending := by
    intro tx htx
    cases htx
  next := by
    intro tx htx
    cases htx
  apart := by
    intro tx htx
    cases htx

end BitAgent.Lib.LockedLog
