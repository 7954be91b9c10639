/-
# Lib.Fields — the words of a text

`fields sep` splits at every run of separators (`strings.FieldsFunc`); `cut sep` splits around the first occurrence of
a text (`strings.Cut`); `cutAt` moves a cut forward to an index that was found. Cutting a list at the first item of a
kind keeps what stands before any such item (`take_cutAt_findIdx?`).
-/
import Mathlib.Data.List.Basic

namespace BitAgent.Lib

open List

variable {α : Type}

/-! ## Words between separators -/

def fields (sep : α → Bool) (text : List α) : List (List α) := (text.splitOnP sep).filter fun w => !w.isEmpty

/-- Something that `fields` can find. -/
def IsWord (sep : α → Bool) (w : List α) : Prop := w ≠ [] ∧ ∀ c ∈ w, sep c = false

section
variable {sep : α → Bool}

theorem mem_part {text part : List α} (hpart : part ∈ text.splitOnP sep) : ∀ c ∈ part, sep c = false ∧ c ∈ text := by
  induction text generalizing part with
  | nil => grind [splitOnP_nil]
  | cons d text ih =>
    rw [splitOnP_cons_eq_if_modifyHead] at hpart
    split at hpart
    · grind
    · rename_i hd
      rcases hsplit : text.splitOnP sep with _ | ⟨first, rest⟩
      · exact absurd hsplit (splitOnP_ne_nil _ _)
      · rw [hsplit, modifyHead_cons] at hpart
        grind

theorem isWord_of_mem_fields {text w : List α} (h : w ∈ fields sep text) : IsWord sep w := by
  obtain ⟨hpart, hne⟩ := mem_filter.mp h
  refine ⟨?_, fun c hc => (mem_part hpart c hc).1⟩
  rintro rfl
  cases hne

theorem mem_of_mem_fields {text w : List α} (h : w ∈ fields sep text) {c : α} (hc : c ∈ w) : c ∈ text :=
  (mem_part (mem_filter.mp h).1 c hc).2

theorem fields_append_sep (a b : List α) {c : α} (hc : sep c = true) :
    fields sep (a ++ c :: b) = fields sep a ++ fields sep b := by
  grind [fields, splitOnP_append_cons]

theorem fields_word {w : List α} (hw : IsWord sep w) : fields sep w = [w] := by
  unfold fields
  rw [splitOnP_eq_singleton hw.2]
  cases w with
  | nil => exact absurd rfl hw.1
  | cons c w => rfl

theorem fields_of_all_sep {text : List α} (h : ∀ c ∈ text, sep c = true) : fields sep text = [] := by
  induction text with
  | nil => rfl
  | cons c text ih =>
    have hrest := ih fun d hd => h d (mem_cons_of_mem c hd)
    rw [← nil_append (c :: text), fields_append_sep [] text (h c mem_cons_self), hrest]
    rfl

theorem fields_pad {a b : List α} (h : ∀ c ∈ a ++ b, sep c = true) (text : List α) :
    fields sep (a ++ (text ++ b)) = fields sep text := by
  induction a with
  | cons c a ih =>
    have hrest := ih fun d hd => h d (mem_cons_of_mem c hd)
    rw [cons_append, ← nil_append (c :: (a ++ (text ++ b))), fields_append_sep [] _ (h c mem_cons_self), hrest]
    rfl
  | nil =>
    cases b with
    | nil => rw [append_nil, nil_append]
    | cons c b => grind [fields_append_sep, fields_of_all_sep]

theorem fields_intercalate {ws : List (List α)} (hws : ∀ w ∈ ws, IsWord sep w) {c : α} (hc : sep c = true) :
    fields sep ([c].intercalate ws) = ws := by
  induction ws with
  | nil => rfl
  | cons w ws ih =>
    have hw := fields_word (hws w mem_cons_self)
    cases ws with
    | nil => rw [intercalate_singleton, hw]
    | cons next ws => grind [intercalate_cons_cons, fields_append_sep]

theorem fields_map {sep' : α → Bool} {f : α → α} (hsep : ∀ c, sep (f c) = sep' c)
    (hkeep : ∀ c, sep' c = false → f c = c) (text : List α) :
    fields sep (text.map f) = fields sep' text := by
  have hsplit : (text.map f).splitOnP sep = text.splitOnP sep' := by
    induction text with
    | nil => rfl
    | cons c text ih => grind [splitOnP_cons_eq_if_modifyHead]
  unfold fields
  rw [hsplit]

end

/-! ## Around the first occurrence -/

variable [DecidableEq α]

/-- The text before and after the first occurrence of `sep`. -/
def cut (sep : List α) : List α → Option (List α × List α)
  | [] => if sep = [] then some ([], []) else none
  | c :: text =>
    if sep.isPrefixOf (c :: text) then some ([], (c :: text).drop sep.length)
    else (cut sep text).map fun parts => (c :: parts.1, parts.2)

theorem cut_eq_some {sep text l r : List α} (h : cut sep text = some (l, r)) : text = l ++ (sep ++ r) := by
  induction text generalizing l with
  | nil => grind [cut]
  | cons c text ih =>
    unfold cut at h
    split at h
    · rename_i hpre
      obtain ⟨rest, hrest⟩ := isPrefixOf_iff_prefix.mp hpre
      grind
    · grind [Option.map_eq_some_iff]

theorem eq_of_append_cons_eq {x y s t : List α} {c : α} (hx : c ∉ x) (hy : c ∉ y) (h : x ++ c :: s = y ++ c :: t) :
    x = y := by
  have hbefore : ∀ z r : List α, c ∉ z → (z ++ c :: r).takeWhile (fun d => decide (d ≠ c)) = z := by
    grind [takeWhile_append_of_pos, takeWhile_cons_of_neg]
  rw [← hbefore x s hx, h, hbefore y t hy]

theorem cut_isSome_append (a : List α) (sep b : List α) : (cut sep (a ++ (sep ++ b))).isSome = true := by
  induction a with
  | nil =>
    cases sep with
    | nil => cases b <;> rfl
    | cons c sep =>
      unfold cut
      simp [List.isPrefixOf_iff_prefix]
  | cons c a ih => grind [cut]

/-! ## Cuts in a list of words -/

omit [DecidableEq α]

/-- `if 0 <= idx && idx < cut { cut = idx }`. -/
def cutAt (idx : Option Nat) (cut : Nat) : Nat :=
  match idx with
  | some i => if i < cut then i else cut
  | none => cut

theorem take_cutAt_findIdx? (p : α → Bool) (l : List α) (n : Nat) :
    l.take (cutAt (l.findIdx? p) n) = (l.take n).takeWhile fun x => !p x := by
  induction l generalizing n with
  | nil => simp
  | cons x l ih =>
    cases n with
    | zero =>
      have hzero : cutAt ((x :: l).findIdx? p) 0 = 0 := by
        unfold cutAt
        split
        · simp
        · rfl
      rw [hzero, take_zero, takeWhile_nil]
    | succ n =>
      rw [List.findIdx?_cons, take_succ_cons, takeWhile_cons]
      cases hx : p x with
      | true => rfl
      | false =>
        have hnext : cutAt ((l.findIdx? p).map (· + 1)) (n + 1) = cutAt (l.findIdx? p) n + 1 := by
          cases l.findIdx? p with
          | none => rfl
          | some i => grind [cutAt]
        simp [hnext, ih]

end BitAgent.Lib
