/-
# Lib.BitString — bit strings as numbers, the xor metric, and the order of a target's path

Bit strings are `List Bool`, most significant bit first. `value` is the number that one denotes; `xor` moves a
comparison to the first difference (`value_xor_lt_iff`); `Before t` is the order in which a prefix tree is walked
towards `t` when only the target's own branch is followed by its bits: longest common prefix first, then the numeric
order.
-/
import Mathlib

namespace BitAgent.Lib.BitString

open List

/-! ## The number a bit string denotes -/

/-- The number denoted by a bit string, most significant bit first. -/
def value : List Bool → Nat
  | [] => 0
  | b :: bs => b.toNat * 2 ^ bs.length + value bs

@[simp] theorem value_nil : value [] = 0 := rfl

theorem value_cons (b : Bool) (bs : List Bool) : value (b :: bs) = b.toNat * 2 ^ bs.length + value bs := rfl

theorem value_lt (bs : List Bool) : value bs < 2 ^ bs.length := by
  induction bs with
  | nil => simp
  | cons b bs ih =>
    have hb : b.toNat ≤ 1 := by cases b <;> simp
    have hmul : b.toNat * 2 ^ bs.length ≤ 1 * 2 ^ bs.length := Nat.mul_le_mul_right _ hb
    rw [value_cons, length_cons, Nat.pow_succ]
    omega

variable {x y : List Bool} {c : Bool}

theorem value_cons_lt_iff {b : Bool} (hlen : x.length = y.length) :
    value (b :: x) < value (c :: y) ↔ (b = false ∧ c = true) ∨ (b = c ∧ value x < value y) := by
  have hx := value_lt x
  have hy := value_lt y
  rw [value_cons, value_cons]
  rw [hlen] at hx ⊢
  cases b <;> cases c <;> simp <;> omega

theorem value_injective (hlen : x.length = y.length) (h : value x = value y) : x = y := by
  induction x generalizing y with
  | nil => exact (length_eq_zero_iff.mp hlen.symm).symm
  | cons b x ih =>
    cases y with
    | nil => simp at hlen
    | cons c y =>
      have hlen' : x.length = y.length := by simpa using hlen
      have h1 := (value_cons_lt_iff (b := b) (c := c) hlen').not.mp (by omega)
      have h2 := (value_cons_lt_iff (b := c) (c := b) hlen'.symm).not.mp (by omega)
      grind

theorem value_lt_below {path : List Bool} (hlen : x.length = y.length) (hx : path ++ [false] <+: x)
    (hy : path ++ [true] <+: y) : value x < value y := by
  obtain ⟨x', rfl⟩ := hx
  obtain ⟨y', rfl⟩ := hy
  induction path with
  | nil =>
    rw [nil_append, singleton_append, nil_append, singleton_append, value_cons_lt_iff (by simpa using hlen)]
    exact Or.inl ⟨rfl, rfl⟩
  | cons b path ih =>
    have hlen' : (path ++ [false] ++ x').length = (path ++ [true] ++ y').length := by simpa using hlen
    simp only [cons_append] at ih hlen' ⊢
    rw [value_cons_lt_iff hlen']
    exact Or.inr ⟨rfl, ih hlen'⟩

theorem value_drop_lt_iff {path : List Bool} (hlen : x.length = y.length) (hx : path <+: x) (hy : path <+: y) :
    value (x.drop path.length) < value (y.drop path.length) ↔ value x < value y := by
  obtain ⟨x', rfl⟩ := hx
  obtain ⟨y', rfl⟩ := hy
  rw [drop_left, drop_left]
  induction path with
  | nil => rfl
  | cons b path ih =>
    have hlen' : (path ++ x').length = (path ++ y').length := by simpa using hlen
    rw [ih hlen', cons_append, cons_append, value_cons_lt_iff hlen']
    simp

/-! ## Xor -/

def xor (x y : List Bool) : List Bool := List.zipWith Bool.xor x y

@[simp] theorem xor_cons (b c : Bool) (x y : List Bool) : xor (b :: x) (c :: y) = Bool.xor b c :: xor x y := rfl

@[simp] theorem xor_nil : xor [] [] = [] := rfl

theorem length_xor (hlen : x.length = y.length) : (xor x y).length = x.length := by simp [xor, hlen]

variable {t : List Bool}

theorem xor_xor_xor (hxt : x.length = t.length) (hyt : y.length = t.length) :
    xor (xor x t) (xor y t) = xor x y := by
  induction t generalizing x y with
  | nil =>
    rw [length_eq_zero_iff.mp hxt, length_eq_zero_iff.mp hyt]
    rfl
  | cons s t ih =>
    cases x with
    | nil => simp at hxt
    | cons b x =>
      cases y with
      | nil => simp at hyt
      | cons c y =>
        rw [xor_cons, xor_cons, xor_cons, xor_cons, ih (by simpa using hxt) (by simpa using hyt)]
        cases b <;> cases c <;> cases s <;> rfl

/-- The length of the prefix two strings share: the number of leading zeros of their xor. -/
def shared (x y : List Bool) : Nat := (xor x y).findIdx id

@[simp] theorem shared_cons_self (b : Bool) (x y : List Bool) : shared (b :: x) (b :: y) = shared x y + 1 := by
  simp [shared, findIdx_cons]

theorem shared_cons_of_ne {b : Bool} (h : b ≠ c) (x y : List Bool) : shared (b :: x) (c :: y) = 0 := by
  cases b <;> cases c <;> simp_all [shared, findIdx_cons]

theorem shared_lt_length (hxy : x.length = y.length) (hlt : value x < value y) :
    shared x y < x.length := by
  induction x generalizing y with
  | nil => grind
  | cons b x ih =>
    cases y with
    | nil => simp at hxy
    | cons c y => grind [value_cons_lt_iff, shared_cons_of_ne, shared_cons_self]

theorem value_xor_cons_lt_iff {b c s : Bool} (hxy : x.length = y.length) (hxt : x.length = t.length) :
    value (xor (b :: x) (s :: t)) < value (xor (c :: y) (s :: t)) ↔
      (b = s ∧ c ≠ s) ∨ (b = c ∧ value (xor x t) < value (xor y t)) := by
  have hlen : (xor x t).length = (xor y t).length := by rw [length_xor hxt, length_xor (hxy ▸ hxt), hxy]
  rw [xor_cons, xor_cons, value_cons_lt_iff hlen]
  cases b <;> cases c <;> cases s <;> simp

/-- **A comparison under a mask** is the one without it exactly when `t` has a zero at the first difference. -/
theorem value_xor_lt_iff (hxy : x.length = y.length) (hxt : x.length = t.length) (hlt : value x < value y) :
    value (xor x t) < value (xor y t) ↔ t[shared x y]? = some false := by
  induction x generalizing y t with
  | nil => grind
  | cons b x ih =>
    cases y with
    | nil => simp at hxy
    | cons c y =>
      cases t with
      | nil => simp at hxt
      | cons s t =>
        rw [List.length_cons, List.length_cons, Nat.add_right_cancel_iff] at hxy hxt
        rw [value_xor_cons_lt_iff hxy hxt]
        rcases (value_cons_lt_iff hxy).mp hlt with ⟨rfl, rfl⟩ | ⟨rfl, hlt'⟩
        · rw [shared_cons_of_ne (by simp)]
          cases s <;> simp
        · rw [shared_cons_self, List.getElem?_cons_succ, ← ih hxy hxt hlt']
          cases b <;> cases s <;> simp

/-! ## The order of a target's path -/

/-- `x` shares a longer prefix with `t` than `y`, or they leave `t` at the same position and `x` is the smaller
number. -/
def Before (t x y : List Bool) : Prop := shared y t < shared x t ∨ (shared x t = shared y t ∧ value x < value y)

instance (t x y : List Bool) : Decidable (Before t x y) := inferInstanceAs (Decidable (_ ∨ _))

theorem Before.asymm (h : Before t x y) : ¬ Before t y x := by
  rcases h with h | ⟨he, h⟩ <;> rintro (h' | ⟨he', h'⟩) <;> omega

variable {s : Bool}

theorem before_cons_self (hlen : x.length = y.length) :
    Before (s :: t) (s :: x) (s :: y) ↔ Before t x y := by
  simp [Before, value_cons_lt_iff hlen]

theorem before_cons_of_ne (h : c ≠ s) (t x y : List Bool) : Before (s :: t) (s :: x) (c :: y) := by
  left
  rw [shared_cons_of_ne h, shared_cons_self]
  exact Nat.succ_pos _

theorem before_cons_off (h : c ≠ s) (hlen : x.length = y.length) :
    Before (s :: t) (c :: x) (c :: y) ↔ value x < value y := by
  simp [Before, shared_cons_of_ne h, value_cons_lt_iff hlen]

theorem value_xor_lt_of_shared_lt (hxy : x.length = y.length) (hxt : x.length = t.length)
    (h : shared y t < shared x t) :
    value (xor x t) < value (xor y t) := by
  induction x generalizing y t with
  | nil => grind
  | cons b x ih =>
    cases y with
    | nil => simp at hxy
    | cons c y =>
      cases t with
      | nil => simp at hxt
      | cons s t =>
        rw [List.length_cons, List.length_cons, Nat.add_right_cancel_iff] at hxy hxt
        rw [value_xor_cons_lt_iff hxy hxt]
        by_cases hb : b = s
        · subst hb
          by_cases hc : c = b
          · subst hc
            exact .inr ⟨rfl, ih hxy hxt (by simpa using h)⟩
          · exact .inl ⟨rfl, hc⟩
        · grind [shared_cons_of_ne]

end BitAgent.Lib.BitString
