/-
# Namepolicy.AllowsSql — the name policy as a SQL condition

`internal/namepolicy/sql.go`: `AllowsSQL` is true of a row iff `Evaluate` calls its hash and name eligible
(`allowsSQL_iff_eligible`). The patterns are shared; the script tables become a bracket expression and the count of
terms a sum; the order of the tests does not matter.
-/
import BitAgent.Lib.SqlExpr
import BitAgent.Namepolicy.Policy

namespace BitAgent.Namepolicy

open Lib Lib.Regex Lib.SqlExpr List
open Catalogueguard (tagWhitespace trimSpace trimBy)

/-! ## The condition -/

/-- `sqlColumn.MatchString`. -/
def sqlColumn (column : String) : Bool :=
  match compile .go "^[a-z_][a-z0-9_]*\\.[a-z_][a-z0-9_]*$".toList with
  | none => false
  | some r => r.search column.toList

/-- `WriteRune`, which writes U+FFFD for what is no character. -/
def writeRune (r : Nat) : Char := if r.isValidChar then Char.ofNat r else '\ufffd'

def runeClass (ranges : List RuneRange) : List Char :=
  '[' :: ranges.flatMap (fun span =>
    if span.hi ≠ span.lo then [writeRune span.lo, '-', writeRune span.hi] else [writeRune span.lo]) ++ [']']

def patternOf (terms : List Term) (name : String) : List Char :=
  ((terms.reverse.find? fun t => decide (t.name = name)).map Term.pattern).getD []

/-- `name ~ ?`; the collation of the name is that of code points. -/
def nameMatches (nameColumn : String) : SqlExpr := op .regex (column nameColumn) param

section Tables

variable (han cyrillic : RangeTable)

def nameSQL (nameColumn : String) : SqlExpr × List SqlValue :=
  let spec := specification han cyrillic
  let strongTerms := spec.adultTerms.filter Term.strong
  let pairs := spec.explicitAdultPairs.map fun _ => op .and (nameMatches nameColumn) (nameMatches nameColumn)
  let strong := strongTerms.map fun _ => nameMatches nameColumn
  let counts := spec.adultTerms.map fun _ =>
    caseWhen (nameMatches nameColumn) (value (.int 1)) (value (.int 0))
  let counted := caseWhen (join .or strong)
    (op .lt (join .add counts) (value (.int spec.minimumDistinctAdultTerms))) (value (.bool true))
  let paired := if pairs = [] then counted else caseWhen (join .or pairs) (value (.bool false)) counted
  let blank := op .eq (coalesce (op .btrim (column nameColumn) param) (value (.text []))) (value (.text []))
  (caseWhen blank (value (.bool false)) (caseWhen (nameMatches nameColumn) (value (.bool false)) paired),
    [.text spec.whitespace, .text (runeClass (spec.han ++ spec.cyrillic))] ++
      (spec.explicitAdultPairs.flatMap fun pair =>
        [.text (patternOf spec.adultTerms pair.1), .text (patternOf spec.adultTerms pair.2)]) ++
      (strongTerms.map fun t => .text t.pattern) ++ (spec.adultTerms.map fun t => .text t.pattern))

/-- `AllowsSQL`; `none` is its panic. -/
def Policy.allowsSQL (p : Policy) (nameColumn hashColumn : String) : Option (SqlExpr × List SqlValue) :=
  if !p.enabled then some (value (.bool true), [])
  else if !sqlColumn nameColumn || !sqlColumn hashColumn then none
  else
    let (sql, args) := nameSQL han cyrillic nameColumn
    if p.excludedHashes = [] then some (sql, args)
    else some (op .and sql (notIn (column hashColumn) (p.excludedHashes.map fun _ => decodeHex param)),
      args ++ p.excludedHashes.map fun h => .text h.string)

end Tables

/-! ## The script class -/

theorem Range.isValidChar (g : Range) {n : Nat} (hlo : g.lo ≤ n) (hhi : n ≤ g.hi) : n.isValidChar := by
  rcases g.scalar with h | h
  · exact .inl (by omega)
  · exact .inr ⟨by omega, by omega⟩

theorem toNat_writeRune {n : Nat} (h : n.isValidChar) : (writeRune n).toNat = n := by
  rw [writeRune, if_pos h, Char.ofNat, dif_pos h]
  rfl

theorem of_mem_scriptRanges {t : RangeTable} {r : RuneRange} (h : r ∈ scriptRanges t) :
    0x80 ≤ r.lo ∧ r.lo ≤ r.hi ∧ r.lo.isValidChar ∧ r.hi.isValidChar := by
  obtain ⟨g, _, hr⟩ := mem_flatMap.mp h
  have hordered := g.ordered
  have hbeyond := g.beyondAscii
  split_ifs at hr
  · rw [mem_singleton.mp hr]
    exact ⟨hbeyond, hordered, g.isValidChar (Nat.le_refl _) hordered, g.isValidChar hordered (Nat.le_refl _)⟩
  · obtain ⟨i, hi, rfl⟩ := mem_map.mp hr
    have hle : i * g.stride ≤ g.hi - g.lo := by
      have hmul := Nat.mul_le_mul_right g.stride (Nat.lt_succ_iff.mp (mem_range.mp hi))
      exact hmul.trans (Nat.div_mul_le_self _ _)
    have hvalid := g.isValidChar (n := g.lo + i * g.stride) (by omega) (by omega)
    grind

theorem contains_iff_mem_steps (g : Range) (n : Nat) :
    g.contains n = true ↔ ∃ i ≤ (g.hi - g.lo) / g.stride, n = g.lo + i * g.stride := by
  have hstep := g.step
  have hordered := g.ordered
  simp only [Range.contains, Bool.and_eq_true, decide_eq_true_eq]
  constructor
  · rintro ⟨⟨hlo, hhi⟩, hmod⟩
    refine ⟨(n - g.lo) / g.stride, Nat.div_le_div_right (by omega), ?_⟩
    rw [Nat.div_mul_cancel (Nat.dvd_of_mod_eq_zero hmod)]
    omega
  · rintro ⟨i, hi, rfl⟩
    have hle : i * g.stride ≤ g.hi - g.lo := (Nat.mul_le_mul_right g.stride hi).trans (Nat.div_mul_le_self _ _)
    grind [Nat.mul_mod_left]

theorem any_scriptRanges (t : RangeTable) (c : Char) :
    ((scriptRanges t).any fun r => decide (r.lo ≤ c.toNat) && decide (c.toNat ≤ r.hi)) = unicodeIs t c := by
  rw [scriptRanges, unicodeIs, any_flatMap]
  refine congrArg (List.any t.ranges) (funext fun g => ?_)
  split_ifs with hone
  · simp [Range.contains, hone, Nat.mod_one]
  · rw [Bool.eq_iff_iff, contains_iff_mem_steps, any_eq_true]
    constructor
    · rintro ⟨r, hr, hin⟩
      obtain ⟨i, hi, rfl⟩ := mem_map.mp hr
      simp only [Bool.and_eq_true, decide_eq_true_eq] at hin
      exact ⟨i, Nat.lt_succ_iff.mp (mem_range.mp hi), by omega⟩
    · rintro ⟨i, hi, heq⟩
      refine ⟨_, mem_map_of_mem (mem_range.mpr (Nat.lt_succ_of_le hi)), ?_⟩
      simp [heq]

theorem scriptRanges_ne_nil (t : RangeTable) : scriptRanges t ≠ [] := by
  intro hnil
  obtain ⟨g, rest, hranges⟩ := exists_cons_of_ne_nil t.nonempty
  have hg := flatMap_eq_nil_iff.mp hnil g (by grind [RangeTable.ranges])
  grind [map_eq_nil_iff]

def RuneRange.item (r : RuneRange) : Item :=
  if r.hi ≠ r.lo then .range (writeRune r.lo) (writeRune r.hi) else .plain (writeRune r.lo)

theorem ordinary_of_beyondAscii {c : Char} (h : 0x80 ≤ c.toNat) : ordinary c = true := by
  have hne : ∀ e : Char, e.toNat < 0x80 → c ≠ e := by
    rintro e he rfl
    omega
  simp only [ordinary, Bool.and_eq_true, decide_eq_true_eq]
  exact ⟨⟨⟨⟨hne _ (by decide), hne _ (by decide)⟩, hne _ (by decide)⟩, hne _ (by decide)⟩, hne _ (by decide)⟩

theorem compile_runeClass (d : Dialect) (ranges : List RuneRange) (hne : ranges ≠ [])
    (hranges : ∀ r ∈ ranges, 0x80 ≤ r.lo ∧ r.lo ≤ r.hi ∧ r.lo.isValidChar ∧ r.hi.isValidChar) :
    compile d (runeClass ranges) = some (seq [.cls (ranges.map fun r => r.item.span)]) := by
  have hitems : ∀ item ∈ ranges.map RuneRange.item, item.Written := by
    intro item hitem
    obtain ⟨r, hr, rfl⟩ := mem_map.mp hitem
    obtain ⟨hbeyond, hle, hlo, hhi⟩ := hranges r hr
    have hordinary : ∀ {n : Nat}, 0x80 ≤ n → n.isValidChar → ordinary (writeRune n) = true := by
      grind [ordinary_of_beyondAscii, toNat_writeRune]
    rw [RuneRange.item]
    split_ifs
    · exact ⟨hordinary hbeyond hlo, hordinary (hbeyond.trans hle) hhi, by grind [toNat_writeRune]⟩
    · exact hordinary hbeyond hlo
  have h := shared_bracket (ranges.map RuneRange.item) (fun hnil => hne (map_eq_nil_iff.mp hnil)) hitems
  have htext : (ranges.map RuneRange.item).flatMap Item.text = ranges.flatMap (fun span =>
    if span.hi ≠ span.lo then [writeRune span.lo, '-', writeRune span.hi] else [writeRune span.lo]) := by
    rw [flatMap_map]
    refine congrArg (List.flatMap · ranges) (funext fun r => ?_)
    rw [RuneRange.item]
    split_ifs <;> rfl
  rw [htext, map_map] at h
  exact h.compile d

theorem contains_scripts (t u : RangeTable) (c : Char) :
    CharClass.contains ((scriptRanges t ++ scriptRanges u).map fun r => r.item.span) c =
      (unicodeIs t c || unicodeIs u c) := by
  have hspan : ∀ r ∈ scriptRanges t ++ scriptRanges u,
      (decide (r.item.span.1.toNat ≤ c.toNat) && decide (c.toNat ≤ r.item.span.2.toNat)) =
        (decide (r.lo ≤ c.toNat) && decide (c.toNat ≤ r.hi)) := by
    intro r hr
    obtain ⟨_, _, hlo, hhi⟩ := (mem_append.mp hr).elim of_mem_scriptRanges of_mem_scriptRanges
    rw [RuneRange.item]
    split_ifs with hone
    · show (decide ((writeRune r.lo).toNat ≤ _) && decide (_ ≤ (writeRune r.hi).toNat)) = _
      rw [toNat_writeRune hlo, toNat_writeRune hhi]
    · show (decide ((writeRune r.lo).toNat ≤ _) && decide (_ ≤ (writeRune r.lo).toNat)) = _
      rw [toNat_writeRune hlo, not_not.mp hone]
  rw [CharClass.contains, any_map, ← any_scriptRanges t, ← any_scriptRanges u, ← any_append]
  grind

/-! ## The terms -/

def hit (text : List Char) (t : String × List String × Bool) : Bool := (termRegex t.2.1).search text
def named (text : List Char) (name : String) : Bool := adultWords.any fun t => decide (t.1 = name) && hit text t

theorem words_ne_nil : ∀ t ∈ adultWords, t.2.1 ≠ [] := by decide

theorem adultTerms_eq (han cyrillic : RangeTable) : (specification han cyrillic).adultTerms =
    adultWords.map fun t => ⟨t.1, termPattern t.2.1, t.2.2⟩ := rfl

variable {t : String × List String × Bool}

theorem eq_of_name_eq {u : String × List String × Bool} (ht : t ∈ adultWords) (hu : u ∈ adultWords) (h : t.1 = u.1) :
    t = u := by
  have hnodup : (adultWords.map Prod.fst).Nodup := by decide
  exact inj_on_of_nodup_map hnodup ht hu h

theorem named_eq_hit {text : List Char} (ht : t ∈ adultWords) :
    named text t.1 = hit text t := by grind [named, eq_of_name_eq]

theorem patternOf_name (han cyrillic : RangeTable) (ht : t ∈ adultWords) :
    patternOf (specification han cyrillic).adultTerms t.1 = termPattern t.2.1 := by
  rw [patternOf, adultTerms_eq, ← map_reverse, find?_map]
  cases hfind : adultWords.reverse.find? ((fun u => decide (u.name = t.1)) ∘
      fun t : String × List String × Bool => Term.mk t.1 (termPattern t.2.1) t.2.2) with
  | none => grind
  | some u => grind [eq_of_name_eq]

theorem foldl_tally (text : List Char) (terms : List (Regex × Bool × String)) (t : Tally) :
    (terms.foldl (Tally.add text) t).count = t.count + terms.countP (fun x => x.1.search text) ∧
      (terms.foldl (Tally.add text) t).strong = (t.strong || terms.any fun x => x.1.search text && x.2.1) ∧
      ∀ name, name ∈ (terms.foldl (Tally.add text) t).matched ↔
        name ∈ t.matched ∨ (terms.any fun x => decide (x.2.2 = name) && x.1.search text) = true := by
  induction terms generalizing t with
  | nil => simp
  | cons x terms ih =>
    rw [foldl_cons]
    obtain ⟨hcount, hstrong, hmatched⟩ := ih (t.add text x)
    cases hx : x.1.search text with
    | true =>
      have hadd : t.add text x = ⟨t.count + 1, t.strong || x.2.1, x.2.2 :: t.matched⟩ := if_pos hx
      rw [hadd] at hcount hstrong hmatched
      refine ⟨?_, ?_, fun name => ?_⟩
      · grind
      · rw [hadd, hstrong, any_cons, hx, Bool.true_and, Bool.or_assoc]
      · rw [hadd, hmatched, any_cons, hx, Bool.and_true, Bool.or_eq_true, decide_eq_true_eq, mem_cons]
        grind
    | false =>
      have hadd : t.add text x = t := if_neg (by rw [hx]; exact Bool.false_ne_true)
      rw [hadd] at hcount hstrong hmatched
      refine ⟨?_, ?_, fun name => ?_⟩
      · grind
      · grind
      · rw [hadd, hmatched, any_cons, hx, Bool.and_false, Bool.false_or]

variable {α : Type}

theorem mapM_eq_some {β : Type} {f : α → Option β} {g : α → β} {l : List α} (h : ∀ x ∈ l, f x = some (g x)) :
    l.mapM f = some (l.map g) := by
  induction l with
  | nil => rfl
  | cons x l ih => grind

theorem any_or_any (p q : α → Bool) (l : List α) : (l.any fun x => p x || q x) = (l.any p || l.any q) := by grind

theorem sum_eq_countP (p : α → Bool) (l : List α) :
    (l.map fun x => if p x then (1 : Int) else 0).sum = l.countP p := by
  induction l with
  | nil => rfl
  | cons x l ih => grind

section Decision

variable {han cyrillic : RangeTable} {c : Config} {p : Policy}

theorem compile_adultTerms (han cyrillic : RangeTable) :
    ((specification han cyrillic).adultTerms.mapM fun t => compile .go t.pattern) =
      some (adultWords.map fun t => termRegex t.2.1) := by
  rw [adultTerms_eq, mapM_map]
  refine mapM_eq_some fun t ht => ?_
  grind [compile_termPattern, words_ne_nil]

def policyOf (c : Config) : Policy where
  enabled := c.enabled
  excluded := (c.excludedInfoHashes.filterMap parseID).dedup
  excludedHashes := (c.excludedInfoHashes.filterMap parseID).dedup.mergeSort
    fun i j => decide (String.ofList i.string ≤ String.ofList j.string)
  terms := adultWords.map fun t => termRegex t.2.1
  strong := adultWords.map fun t => t.2.2
  termNames := adultWords.map fun t => t.1
  explicitPairs := [("porn", "xxx"), ("porno", "xxx")]

theorem new_eq_ok_iff : new han cyrillic c = .ok p ↔ c.validate = .ok () ∧ p = policyOf c := by
  rw [new, checked_bind_iff]
  refine and_congr_right fun _ => ?_
  dsimp only
  rw [compile_adultTerms, adultTerms_eq, map_map, map_map]
  exact ⟨fun h => (Except.ok.inj h).symm, fun h => congrArg Except.ok h.symm⟩

theorem mem_excludedHashes (c : Config) (h : ID) : h ∈ (policyOf c).excludedHashes ↔ h ∈ (policyOf c).excluded :=
  (mergeSort_perm _ _).mem_iff

theorem of_tally (c : Config) (name : String) : ((policyOf c).tally name).count = adultWords.countP (hit name.toList) ∧
      ((policyOf c).tally name).strong = (adultWords.any fun t => hit name.toList t && t.2.2) ∧
      ∀ n, decide (n ∈ ((policyOf c).tally name).matched) = named name.toList n := by
  have hterms : (policyOf c).terms.zip ((policyOf c).strong.zip (policyOf c).termNames) =
      adultWords.map fun t => (termRegex t.2.1, t.2.2, t.1) := by
    rw [policyOf, zip_map', zip_map']
  obtain ⟨hcount, hstrong, hmatched⟩ := foldl_tally name.toList
    (adultWords.map fun t => (termRegex t.2.1, t.2.2, t.1)) {}
  rw [Policy.tally, hterms]
  refine ⟨?_, ?_, fun n => ?_⟩
  · rw [hcount, countP_map, Nat.zero_add]
    rfl
  · rw [hstrong, any_map, Bool.false_or]
    rfl
  · rw [Bool.eq_iff_iff, decide_eq_true_eq, hmatched, any_map]
    exact or_iff_right not_mem_nil

/-! ## The condition and the decision -/

variable {row : String → SqlValue} {nameColumn hashColumn : String} {name : String}

theorem yields_nameMatches (hname : row nameColumn = .text name.toList) {pattern : List Char} {r : Regex}
    (h : compile .postgres pattern = some r) :
    Yields row (nameMatches nameColumn) [.text pattern] (.bool (r.search name.toList)) := by
  refine (yields_column nameColumn).op (yields_param _) ?_
  rw [hname]
  show (compile .postgres pattern).map _ = _
  rw [h]
  rfl

theorem yields_term (hname : row nameColumn = .text name.toList) (ht : t ∈ adultWords) :
    Yields row (nameMatches nameColumn) [.text (termPattern t.2.1)] (.bool (hit name.toList t)) :=
  yields_nameMatches hname (compile_termPattern .postgres (words_ne_nil t ht))

theorem yields_blank (hname : row nameColumn = .text name.toList) : Yields row
      (op .eq (coalesce (op .btrim (column nameColumn) param) (value (.text []))) (value (.text [])))
      [.text tagWhitespace] (.bool (decide (trimSpace name = []))) := by
  have htrim : Yields row (op .btrim (column nameColumn) param) [.text tagWhitespace] (.text (trimSpace name)) := by
    refine (yields_column nameColumn).op (yields_param _) ?_
    rw [hname]
    rfl
  have hempty : Yields row (value (.text [])) [] (.text []) := yields_value _
  exact (htrim.coalesce nofun hempty.filled).op hempty rfl

theorem yields_script (han cyrillic : RangeTable) (hname : row nameColumn = .text name.toList) :
    Yields row (nameMatches nameColumn) [.text (runeClass (scriptRanges han ++ scriptRanges cyrillic))]
      (.bool (name.toList.any (unicodeIs han) || name.toList.any (unicodeIs cyrillic))) := by
  have hcompile := compile_runeClass .postgres (scriptRanges han ++ scriptRanges cyrillic)
    (fun hnil => scriptRanges_ne_nil han (append_eq_nil_iff.mp hnil).1)
    (fun r hr => (mem_append.mp hr).elim of_mem_scriptRanges of_mem_scriptRanges)
  have h := yields_nameMatches hname hcompile
  rw [search_cls, show CharClass.contains _ = fun c => unicodeIs han c || unicodeIs cyrillic c from
    funext (contains_scripts han cyrillic)] at h
  rw [← any_or_any]
  exact h

/-- The name is not blank, has no character of the scripts, and no combination of terms. -/
def nameAllowed (han cyrillic : RangeTable) (name : String) : Bool :=
  if trimSpace name = [] then false
  else if name.toList.any (unicodeIs han) || name.toList.any (unicodeIs cyrillic) then false
  else if (specification han cyrillic).explicitAdultPairs.any fun pair =>
    named name.toList pair.1 && named name.toList pair.2 then false
  else if adultWords.any fun t => hit name.toList t && t.2.2 then decide (adultWords.countP (hit name.toList) < 2)
  else true

theorem yields_named (han cyrillic : RangeTable) (hname : row nameColumn = .text name.toList) {n : String}
    (hn : n ∈ adultWords.map Prod.fst) :
    Yields row (nameMatches nameColumn) [.text (patternOf (specification han cyrillic).adultTerms n)]
      (.bool (named name.toList n)) := by
  obtain ⟨t, ht, rfl⟩ := mem_map.mp hn
  grind [patternOf_name, named_eq_hit, yields_term]

theorem yields_pairs (han cyrillic : RangeTable) (hname : row nameColumn = .text name.toList) : Yields row
      (join .or ((specification han cyrillic).explicitAdultPairs.map fun _ =>
        op .and (nameMatches nameColumn) (nameMatches nameColumn)))
      ((specification han cyrillic).explicitAdultPairs.flatMap fun pair =>
        [.text (patternOf (specification han cyrillic).adultTerms pair.1),
          .text (patternOf (specification han cyrillic).adultTerms pair.2)])
      (.bool ((specification han cyrillic).explicitAdultPairs.any fun pair =>
        named name.toList pair.1 && named name.toList pair.2)) := by
  have hknown : ∀ pair ∈ (specification han cyrillic).explicitAdultPairs,
      pair.1 ∈ adultWords.map Prod.fst ∧ pair.2 ∈ adultWords.map Prod.fst := by
    show ∀ pair ∈ [("porn", "xxx"), ("porno", "xxx")], _
    decide
  have h := yields_or ((specification han cyrillic).explicitAdultPairs.map fun pair =>
    (op .and (nameMatches nameColumn) (nameMatches nameColumn),
      [.text (patternOf (specification han cyrillic).adultTerms pair.1)] ++
        [.text (patternOf (specification han cyrillic).adultTerms pair.2)],
      named name.toList pair.1 && named name.toList pair.2))
    (by exact cons_ne_nil _ _) (by
      intro p hp
      obtain ⟨pair, hpair, rfl⟩ := mem_map.mp hp
      refine (yields_named han cyrillic hname (hknown pair hpair).1).op
        (yields_named han cyrillic hname (hknown pair hpair).2) ?_
      cases named name.toList pair.1 <;> rfl)
  rw [map_map, flatMap_map, any_map] at h
  exact h

theorem yields_strong (han cyrillic : RangeTable) (hname : row nameColumn = .text name.toList) : Yields row
      (join .or (((specification han cyrillic).adultTerms.filter Term.strong).map fun _ => nameMatches nameColumn))
      (((specification han cyrillic).adultTerms.filter Term.strong).map fun t => .text t.pattern)
      (.bool (adultWords.any fun t => hit name.toList t && t.2.2)) := by
  have h := yields_or ((adultWords.filter fun t => t.2.2).map fun t =>
    (nameMatches nameColumn, [.text (termPattern t.2.1)], hit name.toList t))
    (fun hnil => absurd (map_eq_nil_iff.mp hnil) (by decide)) (by
      intro p hp
      obtain ⟨t, ht, rfl⟩ := mem_map.mp hp
      exact yields_term hname (mem_filter.mp ht).1)
  rw [map_map, flatMap_map, any_map, any_filter] at h
  have hexprs : ((specification han cyrillic).adultTerms.filter Term.strong).map (fun _ => nameMatches nameColumn) =
      (adultWords.filter fun t => t.2.2).map fun _ => nameMatches nameColumn := by
    rw [adultTerms_eq, filter_map, map_map]
    rfl
  have hargs : ((specification han cyrillic).adultTerms.filter Term.strong).map (fun t => SqlValue.text t.pattern) =
      (adultWords.filter fun t => t.2.2).flatMap fun t => [.text (termPattern t.2.1)] := by
    rw [adultTerms_eq, filter_map, map_map, map_eq_flatMap]
    rfl
  have hany : (adultWords.any fun t => hit name.toList t && t.2.2) =
      adultWords.any fun t => t.2.2 && hit name.toList t := by
    simp only [Bool.and_comm]
  rw [hexprs, hargs, hany]
  exact h

theorem yields_counts (han cyrillic : RangeTable) (hname : row nameColumn = .text name.toList) : Yields row
      (join .add ((specification han cyrillic).adultTerms.map fun _ =>
        caseWhen (nameMatches nameColumn) (value (.int 1)) (value (.int 0))))
      ((specification han cyrillic).adultTerms.map fun t => .text t.pattern)
      (.int (adultWords.countP (hit name.toList))) := by
  have h := yields_add (adultWords.map fun t =>
    (caseWhen (nameMatches nameColumn) (value (.int 1)) (value (.int 0)), [.text (termPattern t.2.1)],
      if hit name.toList t then 1 else 0))
    (fun hnil => absurd (map_eq_nil_iff.mp hnil) (by decide)) (by
      intro p hp
      obtain ⟨t, ht, rfl⟩ := mem_map.mp hp
      have hcase := (yields_term hname ht).caseWhen (yields_value (.int 1)) (yields_value (.int 0))
      dsimp only
      rw [apply_ite SqlValue.int]
      exact hcase)
  rw [map_map, flatMap_map, map_map] at h
  have hexprs : ((specification han cyrillic).adultTerms.map fun _ =>
    caseWhen (nameMatches nameColumn) (value (.int 1)) (value (.int 0))) =
    adultWords.map fun _ => caseWhen (nameMatches nameColumn) (value (.int 1)) (value (.int 0)) := by
    rw [adultTerms_eq, map_map]
    rfl
  grind [adultTerms_eq, map_eq_flatMap, sum_eq_countP]

theorem yields_nameSQL (han cyrillic : RangeTable) (hname : row nameColumn = .text name.toList) :
    Yields row (nameSQL han cyrillic nameColumn).1 (nameSQL han cyrillic nameColumn).2
      (.bool (nameAllowed han cyrillic name)) := by
  have hcounted := (yields_strong han cyrillic hname).caseWhen
    ((yields_counts han cyrillic hname).op (o := .lt) (yields_value (.int 2)) rfl) (yields_value (.bool true))
  have hpaired := (yields_pairs han cyrillic hname).caseWhen (yields_value (.bool false)) hcounted
  have hall := (yields_blank hname).caseWhen (yields_value (.bool false))
    ((yields_script han cyrillic hname).caseWhen (yields_value (.bool false)) hpaired)
  have hvalue : SqlValue.bool (nameAllowed han cyrillic name) =
      if decide (trimSpace name = []) = true then .bool false
      else if (name.toList.any (unicodeIs han) || name.toList.any (unicodeIs cyrillic)) = true then .bool false
      else if ((specification han cyrillic).explicitAdultPairs.any fun pair =>
        named name.toList pair.1 && named name.toList pair.2) = true then .bool false
      else if (adultWords.any fun t => hit name.toList t && t.2.2) = true then
        .bool (decide ((adultWords.countP (hit name.toList) : Int) < 2))
      else .bool true := by
    rw [nameAllowed]
    simp only [decide_eq_true_eq]
    split_ifs with h1 h2 h3 h4
    · rfl
    · rfl
    · rfl
    · congr 1
      exact decide_eq_decide.mpr (by omega)
    · rfl
  have hpairs : ((specification han cyrillic).explicitAdultPairs.map fun _ =>
    op .and (nameMatches nameColumn) (nameMatches nameColumn)) ≠ [] := cons_ne_nil _ _
  rw [hvalue, nameSQL]
  dsimp only
  rw [if_neg hpairs]
  refine Eq.mp (congrArg (Yields row _ · _) ?_) hall
  simp only [append_assoc, append_nil, nil_append, cons_append]
  rfl

theorem eligible_eq (hp : new han cyrillic c = .ok p) (hon : p.enabled = true) (h : ID) (name : String) :
    (p.evaluate han cyrillic h name).eligible = (nameAllowed han cyrillic name && !decide (h ∈ p.excludedHashes)) := by
  obtain ⟨_, rfl⟩ := new_eq_ok_iff.mp hp
  obtain ⟨hcount, hstrong, hmatched⟩ := of_tally c name
  have hpairs : (policyOf c).explicitPairs = (specification han cyrillic).explicitAdultPairs := rfl
  rw [Policy.evaluate, nameAllowed, hon, Policy.excludesHash, hon]
  dsimp only
  rw [hcount, hstrong, hpairs]
  simp only [hmatched, mem_excludedHashes]
  cases decide (h ∈ (policyOf c).excluded) with
  | true => simp
  | false =>
    simp only [Bool.not_true, Bool.false_eq_true, if_false, Bool.and_false, Bool.not_false, Bool.and_true]
    generalize adultWords.countP (hit name.toList) = count
    -- a count that is not below two is one that is at least two, and only the order of the tests differs
    grind

theorem yields_notIn (hashes : List ID) (hne : hashes ≠ []) {h : ID} (hhash : row hashColumn = .bytea h.bytes) :
    Yields row (notIn (column hashColumn) (hashes.map fun _ => decodeHex param))
      (hashes.map fun id => .text id.string) (.bool !decide (h ∈ hashes)) := by
  have heq : ∀ id : ID, Yields row (op .eq (column hashColumn) (decodeHex param)) [.text id.string]
      (.bool (decide (h = id))) := by
    intro id
    have hdecode : Yields row (decodeHex param) [.text id.string] (.bytea id.bytes) :=
      (yields_param _).decodeHex (GoString.hexDecode_hexEncode id.bytes)
    refine (yields_column hashColumn).op hdecode ?_
    rw [hhash]
    show some (SqlValue.bool (decide (h.bytes = id.bytes))) = _
    congr 2
    refine decide_eq_decide.mpr ⟨fun hbytes => ?_, fun hid => by rw [hid]⟩
    obtain ⟨bytes, hlength⟩ := h
    obtain ⟨bytes', hlength'⟩ := id
    obtain rfl : bytes = bytes' := hbytes
    rfl
  have hor := yields_or (hashes.map fun id =>
    (op .eq (column hashColumn) (decodeHex param), [.text id.string], decide (h = id)))
    (fun hnil => hne (map_eq_nil_iff.mp hnil)) (by
      intro q hq
      obtain ⟨id, _, rfl⟩ := mem_map.mp hq
      exact heq id)
  rw [map_map, flatMap_map, any_map] at hor
  have hany : (hashes.any fun id => decide (h = id)) = decide (h ∈ hashes) := by grind
  have hargs : hashes.map (fun id => SqlValue.text id.string) = hashes.flatMap fun id => [.text id.string] :=
    map_eq_flatMap
  have hnot := hor.not
  rw [notIn, map_map, ← hany, hargs]
  exact hnot

theorem yields_allowsSQL (hon : p.enabled = true) (hnameColumn : sqlColumn nameColumn = true)
    (hhashColumn : sqlColumn hashColumn = true) (hname : row nameColumn = .text name.toList) {h : ID}
    (hhash : row hashColumn = .bytea h.bytes) :
    ∃ sql args, p.allowsSQL han cyrillic nameColumn hashColumn = some (sql, args) ∧
      Yields row sql args (.bool (nameAllowed han cyrillic name && !decide (h ∈ p.excludedHashes))) := by
  have hyields := yields_nameSQL han cyrillic hname
  rw [Policy.allowsSQL, hon, hnameColumn, hhashColumn]
  simp only [Bool.not_true, Bool.or_false, Bool.false_eq_true, if_false]
  split_ifs with hnone
  · grind
  · refine ⟨_, _, rfl, hyields.op (yields_notIn _ hnone hhash) ?_⟩
    cases nameAllowed han cyrillic name <;> rfl

/-- **The condition is the decision**: `AllowsSQL` is true of a row exactly if `Evaluate` calls its name and hash
eligible. -/
theorem allowsSQL_iff_eligible (hp : new han cyrillic c = .ok p) (hnameColumn : sqlColumn nameColumn = true)
    (hhashColumn : sqlColumn hashColumn = true) (hname : row nameColumn = .text name.toList) {h : ID}
    (hhash : row hashColumn = .bytea h.bytes) :
    ∃ sql args, p.allowsSQL han cyrillic nameColumn hashColumn = some (sql, args) ∧
      (sql.eval row args = some (.bool true) ↔ (p.evaluate han cyrillic h name).eligible = true) := by
  cases hon : p.enabled with
  | false =>
    refine ⟨value (.bool true), [], by rw [Policy.allowsSQL, hon]; rfl, ?_⟩
    rw [Policy.evaluate, hon]
    exact ⟨fun _ => rfl, fun _ => rfl⟩
  | true =>
    obtain ⟨sql, args, hsql, hyields⟩ := yields_allowsSQL hon hnameColumn hhashColumn hname hhash
    refine ⟨sql, args, hsql, ?_⟩
    have heval := hyields.eval []
    grind [eligible_eq]

end Decision

def oneRange (lo hi : Nat) (h : lo ≤ hi ∧ 0x80 ≤ lo ∧ hi < 0xD800) : RangeTable :=
  ⟨[⟨lo, hi, 1, h.1, Nat.one_pos, h.2.1, .inl h.2.2⟩], [], cons_ne_nil _ _⟩

def catalogueRow (name : String) (h : ID) (column : String) : SqlValue :=
  if column = "t.name" then .text name.toList else .bytea h.bytes

/-- A name with the letters of two terms spaced out is not offered; a title with one is. -/
theorem spaced_terms_rejected :
    ∃ p, new (oneRange 0x4E00 0x9FFF (by decide)) (oneRange 0x400 0x484 (by decide)) ⟨true, [], ""⟩ = .ok p ∧
      (∃ sql args, p.allowsSQL (oneRange 0x4E00 0x9FFF (by decide)) (oneRange 0x400 0x484 (by decide))
          "t.name" "t.info_hash" = some (sql, args) ∧
        sql.eval (catalogueRow "f.E_tish.X-x-X" ⟨List.replicate 20 0, rfl⟩) args ≠ some (.bool true)) ∧
      ∃ sql args, p.allowsSQL (oneRange 0x4E00 0x9FFF (by decide)) (oneRange 0x400 0x484 (by decide))
          "t.name" "t.info_hash" = some (sql, args) ∧
        sql.eval (catalogueRow "xXx 2002" ⟨List.replicate 20 0, rfl⟩) args = some (.bool true) := by
  have hp : new (oneRange 0x4E00 0x9FFF (by decide)) (oneRange 0x400 0x484 (by decide)) ⟨true, [], ""⟩ =
      .ok (policyOf ⟨true, [], ""⟩) := new_eq_ok_iff.mpr ⟨rfl, rfl⟩
  have hcolumns : sqlColumn "t.name" = true ∧ sqlColumn "t.info_hash" = true := by decide +kernel
  have hnone : ∀ h, decide (h ∈ (policyOf ⟨true, [], ""⟩).excludedHashes) = false := by
    intro h
    refine decide_eq_false ?_
    rw [mem_excludedHashes]
    exact not_mem_nil
  refine ⟨_, hp, ?_, ?_⟩
  · obtain ⟨sql, args, hsql, hiff⟩ := allowsSQL_iff_eligible hp hcolumns.1 hcolumns.2
      (show catalogueRow "f.E_tish.X-x-X" ⟨List.replicate 20 0, rfl⟩ "t.name" = _ from rfl) rfl
    refine ⟨sql, args, hsql, fun htrue => ?_⟩
    have hallowed := hiff.mp htrue
    rw [eligible_eq hp rfl, hnone] at hallowed
    revert hallowed
    decide +kernel
  · obtain ⟨sql, args, hsql, hiff⟩ := allowsSQL_iff_eligible hp hcolumns.1 hcolumns.2
      (show catalogueRow "xXx 2002" ⟨List.replicate 20 0, rfl⟩ "t.name" = _ from rfl) rfl
    refine ⟨sql, args, hsql, hiff.mpr ?_⟩
    rw [eligible_eq hp rfl, hnone]
    decide +kernel

end BitAgent.Namepolicy
