/-
# Lib.Ordered — ORDER BY, DISTINCT ON and pages

Rows are compared by a comparator `cmp`. Where it is `Strict`, sorting is a function of the set of rows and commutes
with selecting rows (`orderBy_filter`). A reader that asks for the rows above the last one it saw gets the rest
(`above_getLast_take`). `DISTINCT ON` keeps the best of each group (`distinctOn_orderBy_perm`).
-/
import Mathlib.Data.List.Sort

namespace BitAgent.Lib.Ordered

open Std List

variable {α β κ : Type}

/-! ## Comparators -/

def comap (cmp : β → β → Ordering) (f : α → β) (a b : α) : Ordering := cmp (f a) (f b)

instance (cmp : β → β → Ordering) [TransCmp cmp] (f : α → β) : TransCmp (comap cmp f) where
  eq_swap := by
    intro a b
    exact @OrientedCmp.eq_swap β cmp _ (f a) (f b)
  isLE_trans := by
    intro a b c hab hbc
    exact @TransCmp.isLE_trans β cmp _ (f a) (f b) (f c) hab hbc

/-- Compare in the direction that `DESC` asks for. -/
def directed (cmp : α → α → Ordering) (desc : Bool) (a b : α) : Ordering := if desc then cmp b a else cmp a b

instance (cmp : α → α → Ordering) [TransCmp cmp] (desc : Bool) : TransCmp (directed cmp desc) := by
  cases desc with
  | false => exact inferInstanceAs (TransCmp cmp)
  | true => exact inferInstanceAs (TransCmp fun a b => cmp b a)

/-- Values of which some are NULL: NULL comes after every value. -/
def nullsLast (cmp : α → α → Ordering) : Option α → Option α → Ordering
  | none, none => .eq
  | none, some _ => .gt
  | some _, none => .lt
  | some a, some b => cmp a b

instance (cmp : α → α → Ordering) [TransCmp cmp] : TransCmp (nullsLast cmp) where
  eq_swap := by
    rintro (_ | a) (_ | b)
    · rfl
    · rfl
    · rfl
    · exact @OrientedCmp.eq_swap α cmp _ a b
  isLE_trans := by
    rintro (_ | a) (_ | b) (_ | c) hab hbc
    · rfl
    · exact hbc
    · rfl
    · exact hab
    · rfl
    · exact absurd hbc Bool.false_ne_true
    · rfl
    · exact @TransCmp.isLE_trans α cmp _ a b c hab hbc

instance (cmp : α → α → Ordering) [LawfulEqCmp cmp] : LawfulEqCmp (nullsLast cmp) where
  compare_self := by
    rintro (_ | a)
    · rfl
    · exact @ReflCmp.compare_self α cmp _ a
  eq_of_compare := by
    rintro (_ | a) (_ | b) h
    · rfl
    · exact nomatch h
    · exact nomatch h
    · exact congrArg some (@LawfulEqCmp.eq_of_compare α cmp _ a b h)

/-! ## ORDER BY -/

/-- `ORDER BY`. -/
def orderBy (cmp : α → α → Ordering) (l : List α) : List α := l.insertionSort fun a b => (cmp a b).isLE = true
def Strict (cmp : α → α → Ordering) (l : List α) : Prop := ∀ a ∈ l, ∀ b ∈ l, cmp a b = .eq → a = b

theorem Strict.subset {cmp : α → α → Ordering} {l l' : List α} (h : Strict cmp l) (hsub : l' ⊆ l) :
    Strict cmp l' := fun a ha b hb => h a (hsub ha) b (hsub hb)

section orderBy

variable {cmp : α → α → Ordering}

theorem orderBy_perm (l : List α) : (orderBy cmp l).Perm l := perm_insertionSort _ l

@[simp] theorem mem_orderBy {l : List α} {a : α} : a ∈ orderBy cmp l ↔ a ∈ l := (orderBy_perm l).mem_iff

variable [TransCmp cmp]

theorem eq_of_isLE {a b : α} (hab : (cmp a b).isLE = true) (hba : (cmp b a).isLE = true) : cmp a b = .eq := by
  rw [@OrientedCmp.eq_swap α cmp _ b a] at hba
  cases h : cmp a b with
  | eq => rfl
  | lt => rw [h] at hba; exact absurd hba Bool.false_ne_true
  | gt => rw [h] at hab; exact absurd hab Bool.false_ne_true

theorem isLE_self (a : α) : (cmp a a).isLE = true := by
  rw [@ReflCmp.compare_self α cmp _ a]
  rfl

theorem isLE_total (a b : α) : (cmp a b).isLE = true ∨ (cmp b a).isLE = true := by
  rw [@OrientedCmp.eq_swap α cmp _ b a]
  cases cmp a b <;> simp

theorem pairwise_orderBy (l : List α) : (orderBy cmp l).Pairwise fun a b => (cmp a b).isLE = true := by
  have : Std.Total fun a b => (cmp a b).isLE = true := ⟨isLE_total⟩
  have : IsTrans α fun a b => (cmp a b).isLE = true := ⟨fun _ _ _ => TransCmp.isLE_trans⟩
  exact pairwise_insertionSort _ l

theorem orderBy_eq_of_perm {l l' : List α} (hstrict : Strict cmp l) (hperm : l.Perm l')
    (hsorted : l'.Pairwise fun a b => (cmp a b).isLE = true) : orderBy cmp l = l' := by
  refine List.Perm.eq_of_pairwise ?_ (pairwise_orderBy l) hsorted ((orderBy_perm l).trans hperm)
  intro a b ha hb hab hba
  exact hstrict a (mem_orderBy.mp ha) b (hperm.mem_iff.mpr hb) (eq_of_isLE hab hba)

theorem orderBy_congr {l l' : List α} (hstrict : Strict cmp l) (hperm : l.Perm l') : orderBy cmp l = orderBy cmp l' :=
  orderBy_eq_of_perm hstrict (hperm.trans (orderBy_perm l').symm) (pairwise_orderBy l')

theorem orderBy_filter {l : List α} (hstrict : Strict cmp l) (p : α → Bool) :
    orderBy cmp (l.filter p) = (orderBy cmp l).filter p :=
  orderBy_eq_of_perm (hstrict.subset (filter_subset_self l)) ((orderBy_perm l).symm.filter p)
    ((pairwise_orderBy l).filter p)

theorem mem_take_one_orderBy {l : List α} (hstrict : Strict cmp l) {a : α} :
    a ∈ (orderBy cmp l).take 1 ↔ a ∈ l ∧ ∀ b ∈ l, (cmp a b).isLE = true := by
  have hsorted : (orderBy cmp l).Pairwise fun a b => (cmp a b).isLE = true := pairwise_orderBy l
  have hmem : ∀ b, b ∈ orderBy cmp l ↔ b ∈ l := fun b => mem_orderBy
  cases hl : orderBy cmp l with
  | nil => grind
  | cons x xs =>
    rw [hl] at hmem hsorted
    have hleast : ∀ b ∈ l, (cmp x b).isLE = true := by
      intro b hb
      rcases mem_cons.mp ((hmem b).mpr hb) with rfl | hb
      · exact isLE_self b
      · exact (pairwise_cons.mp hsorted).1 b hb
    have hx : x ∈ l := (hmem x).mp mem_cons_self
    rw [take_succ_cons, take_zero, mem_singleton]
    constructor
    · rintro rfl
      exact ⟨hx, hleast⟩
    · rintro ⟨ha, hle⟩
      exact hstrict a ha x hx (eq_of_isLE (hle x hx) (hleast a ha))

end orderBy

/-! ## Pages -/

/-- `LIMIT … OFFSET …`. -/
def page (offset limit : Nat) (l : List α) : List α := (l.drop offset).take limit

theorem page_eq_of_prefix {l₁ l₂ : List α} {offset limit : Nat} (h : l₁ <+: l₂)
    (hfull : limit ≤ (page offset limit l₁).length) : page offset limit l₁ = page offset limit l₂ := by
  obtain ⟨rest, rfl⟩ := h
  have hlen : limit ≤ (l₁.drop offset).length := by grind [page]
  rw [page, page]
  by_cases hoff : offset ≤ l₁.length
  · grind
  · -- past the end of the prefix only an empty page is full
    grind [drop_eq_nil_of_le]

/-! ## Rows above a cursor -/

section above

variable {cmp : α → α → Ordering}

/-- The rows above `k`. -/
def above (cmp : α → α → Ordering) (k : α) (l : List α) : List α := l.filter fun a => cmp k a == .lt

theorem mem_above {k a : α} {l : List α} : a ∈ above cmp k l ↔ a ∈ l ∧ cmp k a = .lt := by
  rw [above, mem_filter, beq_iff_eq]

variable [TransCmp cmp]

theorem pairwise_lt_orderBy {l : List α} (hnodup : l.Nodup) (hstrict : Strict cmp l) :
    (orderBy cmp l).Pairwise fun a b => cmp a b = .lt := by
  have hboth := (@pairwise_orderBy α cmp _ l).and ((orderBy_perm l).nodup_iff.mpr hnodup)
  refine hboth.imp_of_mem fun {a b} ha hb h => ?_
  cases hcmp : cmp a b with
  | lt => rfl
  | eq => exact absurd (hstrict a (mem_orderBy.mp ha) b (mem_orderBy.mp hb) hcmp) h.2
  | gt => rw [hcmp] at h; exact absurd h.1 Bool.false_ne_true

theorem nodup_of_pairwise_lt {l : List α} (hsorted : l.Pairwise fun a b => cmp a b = .lt) : l.Nodup := by
  refine hsorted.imp fun {a b} hlt heq => ?_
  rw [heq, @ReflCmp.compare_self α cmp _ b] at hlt
  exact nomatch hlt

theorem eq_of_pairwise_lt {l l' : List α} (hsorted : l.Pairwise fun a b => cmp a b = .lt)
    (hsorted' : l'.Pairwise fun a b => cmp a b = .lt) (hmem : ∀ a, a ∈ l ↔ a ∈ l') : l = l' := by
  refine List.Perm.eq_of_pairwise ?_ hsorted hsorted' ((perm_ext_iff_of_nodup
    (nodup_of_pairwise_lt hsorted) (nodup_of_pairwise_lt hsorted')).mpr hmem)
  intro a b _ _ hab hba
  rw [OrientedCmp.gt_of_lt hab] at hba
  exact nomatch hba

theorem above_getLast_take {l : List α} (hsorted : l.Pairwise fun a b => cmp a b = .lt) {n : Nat}
    (hne : l.take n ≠ []) : above cmp ((l.take n).getLast hne) l = l.drop n := by
  have hsplit := hsorted
  rw [← take_append_drop n l, pairwise_append] at hsplit
  obtain ⟨htake, _, hacross⟩ := hsplit
  have hlow : ∀ a ∈ l.take n, cmp ((l.take n).getLast hne) a ≠ .lt := by
    intro a ha hlt
    rw [← dropLast_append_getLast hne, pairwise_append] at htake
    rw [← dropLast_append_getLast hne, mem_append, mem_singleton] at ha
    rcases ha with ha | rfl
    · have hup := htake.2.2 a ha _ (mem_singleton_self _)
      rw [OrientedCmp.gt_of_lt hup] at hlt
      exact nomatch hlt
    · grind
  have hhigh : ∀ a ∈ l.drop n, cmp ((l.take n).getLast hne) a = .lt := fun a ha => hacross _ (getLast_mem hne) a ha
  have hfilter : above cmp ((l.take n).getLast hne) (l.take n ++ l.drop n) = l.drop n := by
    rw [above, filter_append, filter_eq_nil_iff.mpr fun a ha => by simpa using hlow a ha,
      filter_eq_self.mpr fun a ha => by simpa using hhigh a ha, nil_append]
  rwa [take_append_drop] at hfilter

end above

/-! ## DISTINCT ON -/

section distinctOn

variable [DecidableEq κ] (key : α → κ)

/-- `DISTINCT ON (key)` over sorted rows, after a row with the key `last`. -/
def distinctOnAfter (last : Option κ) : List α → List α
  | [] => []
  | a :: l => if last = some (key a) then distinctOnAfter last l else a :: distinctOnAfter (some (key a)) l

/-- `DISTINCT ON (key)` over sorted rows: the first row of each run of equal keys. -/
def distinctOn (l : List α) : List α := distinctOnAfter key none l

/-- The order that `DISTINCT ON` needs: by key, and by preference within a group. -/
def groupOrder (cmpKey : κ → κ → Ordering) (prefer : α → α → Ordering) : α → α → Ordering :=
  compareLex (comap cmpKey key) prefer

/-- A row is the preferred one of its group. -/
def Best (prefer : α → α → Ordering) (l : List α) (a : α) : Prop := ∀ b ∈ l, key b = key a → (prefer a b).isLE = true

instance (prefer : α → α → Ordering) (l : List α) (a : α) : Decidable (Best key prefer l a) :=
  inferInstanceAs (Decidable (∀ b ∈ l, key b = key a → (prefer a b).isLE = true))

variable {key}

theorem distinctOnAfter_sublist (last : Option κ) (l : List α) : (distinctOnAfter key last l).Sublist l := by
  induction l generalizing last with
  | nil => exact List.Sublist.slnil
  | cons a l ih => grind [distinctOnAfter]

variable {cmpKey : κ → κ → Ordering} [TransCmp cmpKey] [LawfulEqCmp cmpKey]
  {prefer : α → α → Ordering} [TransCmp prefer]

omit [TransCmp cmpKey] [DecidableEq κ] [TransCmp prefer] in
theorem isLE_groupOrder_iff {a b : α} : (groupOrder key cmpKey prefer a b).isLE = true ↔
    cmpKey (key a) (key b) = .lt ∨ key a = key b ∧ (prefer a b).isLE = true := by
  rw [groupOrder, compareLex, comap]
  cases h : cmpKey (key a) (key b) with
  | lt => simp
  | gt =>
    have hne : key a ≠ key b := by
      intro heq
      rw [heq, @ReflCmp.compare_self κ cmpKey _ (key b)] at h
      exact nomatch h
    simp [hne]
  | eq => simp [LawfulEqCmp.eq_of_compare h]

omit [DecidableEq κ] [TransCmp cmpKey] [LawfulEqCmp cmpKey] [TransCmp prefer] in
theorem isLE_key_of_isLE_groupOrder {a b : α} (h : (groupOrder key cmpKey prefer a b).isLE = true) :
    (cmpKey (key a) (key b)).isLE = true := by
  rw [groupOrder, compareLex, comap] at h
  cases hk : cmpKey (key a) (key b) with
  | gt => rw [hk] at h; exact absurd h Bool.false_ne_true
  | _ => rfl

omit [DecidableEq κ] [TransCmp prefer] in
theorem best_cons_of_ne {l : List α} {x a : α} (hne : key x ≠ key a) :
    Best key prefer (x :: l) a ↔ Best key prefer l a := by
  constructor
  · intro hbest b hb
    exact hbest b (mem_cons_of_mem x hb)
  · intro hbest b hb hkey
    rcases mem_cons.mp hb with rfl | hb
    · exact absurd hkey hne
    · exact hbest b hb hkey

omit [DecidableEq κ] [TransCmp cmpKey] in
theorem best_head {l : List α} {x : α} (hx : ∀ b ∈ l, (groupOrder key cmpKey prefer x b).isLE = true) :
    Best key prefer (x :: l) x := by
  intro b hb hkey
  rcases mem_cons.mp hb with rfl | hb
  · exact isLE_self b
  · grind [isLE_groupOrder_iff]

omit [DecidableEq κ] in
theorem eq_head_of_best {l : List α} {x a : α} (hx : ∀ b ∈ l, (groupOrder key cmpKey prefer x b).isLE = true)
    (hstrict : Strict (groupOrder key cmpKey prefer) (x :: l)) (ha : a ∈ l) (hkey : key x = key a)
    (hbest : Best key prefer (x :: l) a) : a = x := by
  have hle := hbest x mem_cons_self hkey
  have hge : (groupOrder key cmpKey prefer a x).isLE = true := isLE_groupOrder_iff.mpr (.inr ⟨hkey.symm, hle⟩)
  have : TransCmp (groupOrder key cmpKey prefer) := inferInstanceAs (TransCmp (compareLex _ _))
  exact hstrict a (mem_cons_of_mem x ha) x mem_cons_self (eq_of_isLE hge (hx a ha))

theorem mem_distinctOnAfter_iff {l : List α}
    (hsorted : l.Pairwise fun a b => (groupOrder key cmpKey prefer a b).isLE = true)
    (hstrict : Strict (groupOrder key cmpKey prefer) l) {last : Option κ}
    (hlast : ∀ k ∈ last, ∀ b ∈ l, (cmpKey k (key b)).isLE = true) {a : α} :
    a ∈ distinctOnAfter key last l ↔ a ∈ l ∧ last ≠ some (key a) ∧ Best key prefer l a := by
  induction l generalizing last with
  | nil => simp [distinctOnAfter]
  | cons x l ih =>
    obtain ⟨hx, hrest⟩ := pairwise_cons.mp hsorted
    have hstrict' : Strict (groupOrder key cmpKey prefer) l := hstrict.subset (subset_cons_self x l)
    rw [distinctOnAfter]
    split_ifs with h
    · -- `x` belongs to the group that is already served
      have hother : last ≠ some (key a) → key x ≠ key a := fun hne hkey => hne (h.trans (congrArg some hkey))
      grind [best_cons_of_ne]
    · have hafter : ∀ k ∈ some (key x), ∀ b ∈ l, (cmpKey k (key b)).isLE = true := by
        grind [isLE_key_of_isLE_groupOrder]
      rw [mem_cons, ih hrest hstrict' hafter, Ne, Option.some.injEq]
      constructor
      · rintro (rfl | ⟨ha, hne, hbest⟩)
        · exact ⟨mem_cons_self, h, best_head hx⟩
        · refine ⟨mem_cons_of_mem x ha, ?_, (best_cons_of_ne hne).mpr hbest⟩
          -- the key of `a` is above that of `x`, which is not below `last`
          intro hlasta
          have hle := hlast _ hlasta x mem_cons_self
          have hge := isLE_key_of_isLE_groupOrder (hx a ha)
          exact hne (LawfulEqCmp.eq_of_compare (eq_of_isLE hge hle))
      · grind [eq_head_of_best, best_cons_of_ne]

/-- **DISTINCT ON.** Over rows sorted by key and preference it keeps the best row of each group. -/
theorem distinctOn_orderBy_perm {l : List α} (hnodup : l.Nodup) (hstrict : Strict (groupOrder key cmpKey prefer) l) :
    (distinctOn key (orderBy (groupOrder key cmpKey prefer) l)).Perm
      (l.filter fun a => decide (Best key prefer l a)) := by
  have : TransCmp (groupOrder key cmpKey prefer) := inferInstanceAs (TransCmp (compareLex _ _))
  set sorted := orderBy (groupOrder key cmpKey prefer) l
  have hmem : ∀ a, a ∈ sorted ↔ a ∈ l := fun a => mem_orderBy
  have hsortedStrict : Strict (groupOrder key cmpKey prefer) sorted := hstrict.subset fun a ha => (hmem a).mp ha
  have hsortedNodup : sorted.Nodup := (orderBy_perm l).nodup_iff.mpr hnodup
  refine (perm_ext_iff_of_nodup ((distinctOnAfter_sublist none sorted).nodup hsortedNodup)
    (hnodup.filter _)).mpr fun a => ?_
  have hnone : ∀ k ∈ (none : Option κ), ∀ b ∈ sorted, (cmpKey k (key b)).isLE = true := nofun
  rw [mem_distinctOnAfter_iff (pairwise_orderBy l) hsortedStrict hnone, mem_filter, decide_eq_true_iff, hmem]
  constructor
  · rintro ⟨ha, _, hbest⟩
    exact ⟨ha, fun b hb => hbest b ((hmem b).mpr hb)⟩
  · rintro ⟨ha, hbest⟩
    exact ⟨ha, nofun, fun b hb => hbest b ((hmem b).mp hb)⟩

end distinctOn

end BitAgent.Lib.Ordered
