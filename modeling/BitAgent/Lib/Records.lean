/-
# Lib.Records — lists of records of one size, written one after the other

A `Format` is the fixed size of a record with its writer and its reader; `marshal` and `unmarshal` are for lists.
`Format.Faithful` (lists come back up to a normal form, inputs of whole records exactly, and every other input is
refused) follows from the same facts about one record (`Format.RecordFaithful`).
-/
import Mathlib.Data.List.Basic

namespace BitAgent.Lib.Records

open List

/-- Records `α` over symbols `β`; reading may fail with `ε`. -/
structure Format (α β ε : Type) where
  size : Nat
  size_pos : 0 < size
  write : α → List β
  read : List β → Except ε α

inductive ReadError (ε : Type) where
  /-- Fewer symbols are left than a record has. -/
  | trailing (left required : Nat)
  | record (e : ε)

/-- A record was written with another number of symbols than the format has. -/
structure WrongSize where
  written : Nat
  expected : Nat

namespace Format

variable {α β ε : Type} (f : Format α β ε)

def marshal : List α → Except WrongSize (List β)
  | [] => .ok []
  | x :: xs =>
    if (f.write x).length ≠ f.size then .error ⟨(f.write x).length, f.size⟩
    else (marshal xs).map (f.write x ++ ·)

/-- The reading loop; `fuel` bounds the number of records. -/
def unmarshalUpTo : Nat → List β → Except (ReadError ε) (List α)
  | _, [] => .ok []
  | 0, s :: rest => .error (.trailing (s :: rest).length f.size)
  | fuel + 1, s :: rest =>
    if (s :: rest).length < f.size then .error (.trailing (s :: rest).length f.size)
    else
      match f.read ((s :: rest).take f.size) with
      | .error e => .error (.record e)
      | .ok x => (unmarshalUpTo fuel ((s :: rest).drop f.size)).map (x :: ·)

def unmarshal (b : List β) : Except (ReadError ε) (List α) := f.unmarshalUpTo b.length b

/-! ## One record -/

/-- One record: those in `dom` are read back as `norm` says, and a piece of the right size comes back as that piece.
-/
structure RecordFaithful (dom : α → Prop) (norm : α → α) : Prop where
  length_write : ∀ x, dom x → (f.write x).length = f.size
  read_write : ∀ x, dom x → f.read (f.write x) = .ok (norm x)
  write_read : ∀ b, b.length = f.size → ∃ x, f.read b = .ok x ∧ f.write x = b

/-- The same of lists. -/
structure Faithful (dom : α → Prop) (norm : α → α) : Prop where
  roundtrip : ∀ xs, (∀ x ∈ xs, dom x) → ∃ b, f.marshal xs = .ok b ∧ f.unmarshal b = .ok (xs.map norm)
  reencode : ∀ b : List β, f.size ∣ b.length → ∃ xs, f.unmarshal b = .ok xs ∧ f.marshal xs = .ok b
  refused : ∀ b : List β, ¬ f.size ∣ b.length → ∃ e, f.unmarshal b = .error e

/-! ## Lists -/

variable {f} {b : List β}

theorem unmarshalUpTo_append {rest : List β} {x : α} (hsize : b.length = f.size) (hread : f.read b = .ok x)
    (fuel : Nat) : f.unmarshalUpTo (fuel + 1) (b ++ rest) = (f.unmarshalUpTo fuel rest).map (x :: ·) := by
  have hpos := f.size_pos
  cases hb : b ++ rest with
  | nil => grind [length_nil]
  | cons s tail => grind [unmarshalUpTo]

variable {fuel : Nat}

theorem unmarshalUpTo_of_le (h : b.length ≤ fuel) :
    f.unmarshalUpTo fuel b = f.unmarshal b := by
  have hmore : ∀ (fuel fuel' : Nat) (b : List β), b.length ≤ fuel → b.length ≤ fuel' →
      f.unmarshalUpTo fuel b = f.unmarshalUpTo fuel' b := by
    intro fuel
    induction fuel with
    | zero =>
      intro fuel' b hb _
      obtain rfl := length_eq_zero_iff.mp (Nat.le_zero.mp hb)
      cases fuel' with
      | zero => rfl
      | succ n => rfl
    | succ fuel ih =>
      intro fuel' b hb hb'
      cases b with
      | nil => grind
      | cons s rest =>
        obtain ⟨n, rfl⟩ : ∃ n, fuel' = n + 1 := Nat.exists_eq_add_one.mpr (by
          rw [length_cons] at hb'
          omega)
        have hpos := f.size_pos
        rw [length_cons] at hb hb'
        have hdrop : ((s :: rest).drop f.size).length ≤ rest.length := by
          rw [length_drop, length_cons]
          omega
        grind [unmarshalUpTo]
  exact hmore fuel b.length b h (Nat.le_refl _)

theorem unmarshal_append {rest : List β} {x : α} (hsize : b.length = f.size) (hread : f.read b = .ok x) :
    f.unmarshal (b ++ rest) = (f.unmarshal rest).map (x :: ·) := by
  have hpos := f.size_pos
  have hlen : (b ++ rest).length = (b.length - 1 + rest.length) + 1 := by
    rw [length_append]
    omega
  grind [unmarshal, unmarshalUpTo_append, unmarshalUpTo_of_le]

variable {dom : α → Prop} {norm : α → α}

theorem marshal_unmarshal (h : f.RecordFaithful dom norm) {xs : List α} (hxs : ∀ x ∈ xs, dom x) :
    ∃ b, f.marshal xs = .ok b ∧ f.unmarshal b = .ok (xs.map norm) := by
  induction xs with
  | nil => exact ⟨[], rfl, rfl⟩
  | cons x xs ih =>
    have hx : dom x := hxs x (mem_cons_self ..)
    obtain ⟨b, hb, hread⟩ := ih fun y hy => hxs y (mem_cons_of_mem _ hy)
    refine ⟨f.write x ++ b, ?_, ?_⟩
    · rw [marshal, if_neg (not_not_intro (h.length_write x hx)), hb]
      rfl
    · rw [unmarshal_append (h.length_write x hx) (h.read_write x hx), hread]
      rfl

theorem unmarshal_marshal (h : f.RecordFaithful dom norm) (n : Nat) :
    ∀ b : List β, b.length = f.size * n → ∃ xs, f.unmarshal b = .ok xs ∧ f.marshal xs = .ok b := by
  induction n with
  | zero =>
    intro b hb
    obtain rfl := length_eq_zero_iff.mp hb
    exact ⟨[], rfl, rfl⟩
  | succ n ih =>
    intro b hb
    rw [Nat.mul_succ] at hb
    have hfront : (b.take f.size).length = f.size := by
      rw [length_take]
      omega
    obtain ⟨x, hx, hwrite⟩ := h.write_read _ hfront
    obtain ⟨xs, hxs, hmarshal⟩ := ih (b.drop f.size) (by rw [length_drop, hb, Nat.add_sub_cancel])
    refine ⟨x :: xs, ?_, ?_⟩
    · rw [← take_append_drop f.size b, unmarshal_append hfront hx, hxs]
      rfl
    · rw [marshal, hwrite, if_neg (not_not_intro hfront), hmarshal]
      show Except.ok (b.take f.size ++ b.drop f.size) = _
      rw [take_append_drop]

theorem dvd_of_unmarshal {xs : List α} (h : f.unmarshalUpTo fuel b = .ok xs) :
    f.size ∣ b.length := by
  fun_induction unmarshalUpTo f fuel b generalizing xs with
  | case1 => exact Nat.dvd_zero _
  | case2 => cases h
  | case3 => cases h
  | case4 => cases h
  | case5 fuel s rest hlong x _ ih =>
    cases hrest : f.unmarshalUpTo fuel ((s :: rest).drop f.size) with
    | error e =>
      rw [hrest] at h
      cases h
    | ok ys => grind [Nat.dvd_sub_iff_left, Nat.dvd_refl]

/-- An error of a record is one for a piece of its size. -/
theorem exists_of_record_error {e : ε} (h : f.unmarshalUpTo fuel b = .error (.record e)) :
    ∃ piece, piece.length = f.size ∧ f.read piece = .error e := by
  fun_induction unmarshalUpTo f fuel b with
  | case1 => cases h
  | case2 => cases h
  | case3 => cases h
  | case4 fuel s rest hlong e' hread =>
    cases h
    exact ⟨_, length_take_of_le (Nat.le_of_not_lt hlong), hread⟩
  | case5 fuel s rest hlong x _ ih =>
    cases hrest : f.unmarshalUpTo fuel ((s :: rest).drop f.size) with
    | error e' =>
      rw [hrest] at h
      cases h
      exact ih hrest
    | ok ys =>
      rw [hrest] at h
      cases h

/-- **Lists of faithful records are faithful.** -/
theorem RecordFaithful.faithful (h : f.RecordFaithful dom norm) : f.Faithful dom norm where
  roundtrip _ hxs := marshal_unmarshal h hxs
  reencode b hdvd := by
    obtain ⟨n, hn⟩ := hdvd
    exact unmarshal_marshal h n b hn
  refused b hdvd := by
    cases hread : f.unmarshal b with
    | error e => exact ⟨e, rfl⟩
    | ok xs => exact absurd (dvd_of_unmarshal hread) hdvd

end Format

end BitAgent.Lib.Records
