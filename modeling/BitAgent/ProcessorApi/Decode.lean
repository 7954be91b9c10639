/-
# ProcessorApi.Decode — strict decoding of contract messages

`Decode` of `processorapi/v1/validate.go` reads a message twice. `scan` refuses deep nesting and two members of one
name, byte for byte; then the standard decoder, which also takes a name that is the same up to case, fills the value.
`decodeBounded` has the limit as a parameter. On a text that the decoder can read, the walk over tokens is a walk
over the value (`readers_agree`).
-/
import Mathlib
import BitAgent.Lib.JsonOrder

namespace BitAgent.ProcessorApi

open Lib Lib.JsonText List

attribute [local instance] decidableMem

/-! ## The source functions -/

/-- The errors of `Decode`; `steps`: the walk has more steps than allowed for. -/
inductive DecodeFailure where
  | bodyTooLarge
  | jsonDepth
  | duplicateKey
  | invalidJson
  | trailingJson
  | token (e : TokenError)
  | value (e : DecodeError)
  | steps

def maxBody : Nat := 262144

/-- `Token`, as the source calls it. -/
def nextToken (d : Decoder) : Except DecodeFailure (Token × Decoder) :=
  match d.token with
  | .ok out => .ok out
  | .error e => .error (.token e)

/-- `_, err := d.Token(); err == io.EOF`. -/
def ended (d : Decoder) : Bool :=
  match d.token with
  | .error .eof => true
  | _ => false

mutual

def scan : Nat → Decoder → Nat → Except DecodeFailure Decoder
  | 0, _, _ => .error .steps
  | n + 1, d, depth => do
      reject (decide (depth > 32)) .jsonDepth
      let (t, d) ← nextToken d
      match t with
      | .delim c =>
        if c = openBrace then do
          let d ← scanMembers n [] d depth
          let (_, d) ← nextToken d
          return d
        else if c = openBracket then do
          let d ← scanItems n d depth
          let (_, d) ← nextToken d
          return d
        else .error .invalidJson
      | _ => .ok d

/-- The loop of `scan` over the members of an object. -/
def scanMembers : Nat → List GoString → Decoder → Nat → Except DecodeFailure Decoder
  | 0, _, _, _ => .error .steps
  | n + 1, seen, d, depth =>
    if d.more then do
      let (t, d) ← nextToken d
      match t with
      | .string k => do
          reject (decide (k ∈ seen)) .duplicateKey
          let d ← scan n d (depth + 1)
          scanMembers n (k :: seen) d depth
      | _ => .error .duplicateKey
    else .ok d

/-- The loop of `scan` over the items of an array. -/
def scanItems : Nat → Decoder → Nat → Except DecodeFailure Decoder
  | 0, _, _ => .error .steps
  | n + 1, d, depth =>
    if d.more then do
      let d ← scan n d (depth + 1)
      scanItems n d depth
    else .ok d

end

section
variable (parseFloat : GoString → Option Float64)

/-- `decodeBounded`: the value that `into` holds after a successful call. -/
def decodeBounded (raw : GoString) (t : GoType) (into : t.Value) (limit : Nat) :
    Except DecodeFailure t.Value := do
  reject (decide (raw.length > limit)) .bodyTooLarge
  let d ← scan (3 * raw.length + 1) (Decoder.new raw) 0
  reject (!ended d) .trailingJson
  match parseText raw with
  | none => .error (.token .malformed)
  | some (v, _) =>
    match decodeValue parseFloat t into v with
    | .ok x => .ok x
    | .error e => .error (.value e)

def decode (raw : GoString) (t : GoType) (into : t.Value) : Except DecodeFailure t.Value :=
  decodeBounded parseFloat raw t into maxBody

end

/-! ## The walk over a value -/

mutual

/-- What `scan` does to the tokens of a value. -/
def walk (depth : Nat) : Json → Except DecodeFailure Unit
  | .array _ items => do
      reject (decide (depth > 32)) .jsonDepth
      walkItems depth items
  | .object _ members => do
      reject (decide (depth > 32)) .jsonDepth
      walkMembers depth [] members
  | _ => reject (decide (depth > 32)) .jsonDepth

def walkItems (depth : Nat) : List Json → Except DecodeFailure Unit
  | [] => .ok ()
  | v :: vs => do
      walk (depth + 1) v
      walkItems depth vs

def walkMembers (depth : Nat) (seen : List GoString) : List (GoString × Json) → Except DecodeFailure Unit
  | [] => .ok ()
  | (k, v) :: ms => do
      reject (decide (k ∈ seen)) .duplicateKey
      walk (depth + 1) v
      walkMembers depth (k :: seen) ms

end

section
variable {depth : Nat}

theorem walkItems_ok_iff {items : List Json} :
    walkItems depth items = .ok () ↔ ∀ x ∈ items, walk (depth + 1) x = .ok () := by
  induction items with
  | nil => simp [walkItems]
  | cons v vs ih => rw [walkItems, checked_bind_iff, ih, forall_mem_cons]

variable {members : List (GoString × Json)}

theorem walkMembers_ok_iff {seen : List GoString} :
    walkMembers depth seen members = .ok () ↔ (∀ m ∈ members, m.1 ∉ seen) ∧ (members.map Prod.fst).Nodup ∧
        ∀ m ∈ members, walk (depth + 1) m.2 = .ok () := by
  induction members generalizing seen with
  | nil => simp [walkMembers]
  | cons m ms ih =>
    obtain ⟨k, v⟩ := m
    rw [walkMembers, reject_bind_eq_ok, checked_bind_iff, ih, decide_eq_false_iff_not,
      forall_mem_cons, forall_mem_cons, map_cons, nodup_cons]
    constructor
    · grind
    · grind

variable {text : GoString}

theorem walk_array_ok_iff {items : List Json} : walk depth (.array text items) = .ok () ↔
      depth ≤ 32 ∧ ∀ x ∈ items, walk (depth + 1) x = .ok () := by
  simp [walk, reject_bind_eq_ok, walkItems_ok_iff]

theorem walk_object_ok_iff :
    walk depth (.object text members) = .ok () ↔ depth ≤ 32 ∧ (members.map Prod.fst).Nodup ∧
        ∀ m ∈ members, walk (depth + 1) m.2 = .ok () := by
  simp [walk, reject_bind_eq_ok, walkMembers_ok_iff]

variable {v : Json}

theorem walk_namesDistinct (h : walk depth v = .ok ()) : v.NamesDistinct := by
  induction v using Json.induct generalizing depth with
  | hnull => exact .null
  | hbool b => exact .bool b
  | hnumber text => exact .number text
  | hstring text value => exact .string text value
  | harray text items ih =>
    obtain ⟨-, hitems⟩ := walk_array_ok_iff.mp h
    exact .array fun x hx => ih x hx (hitems x hx)
  | hobject text members ih =>
    obtain ⟨-, hnodup, hmembers⟩ := walk_object_ok_iff.mp h
    exact .object hnodup fun m hm => ih m hm (hmembers m hm)

theorem walk_object_reordered {R : GoString → Json → Json → Prop} {text' : GoString} {ms ms' : List (GoString × Json)}
    (hmembers : MembersReordered R ms ms')
    (hR : ∀ m ∈ ms, ∀ v', R m.1 m.2 v' → walk (depth + 1) m.2 = .ok () → walk (depth + 1) v' = .ok ())
    (h : walk depth (.object text ms) = .ok ()) : walk depth (.object text' ms') = .ok () := by
  obtain ⟨hdepth, hnodup, hwalk⟩ := walk_object_ok_iff.mp h
  refine walk_object_ok_iff.mpr ⟨hdepth, hmembers.names.nodup_iff.mp hnodup, fun m' hm' => ?_⟩
  obtain ⟨v, hmem, hv⟩ := hmembers.back hm'
  exact hR _ hmem m'.2 hv (hwalk _ hmem)

theorem walk_array_related {R : Json → Json → Prop} {text' : GoString} {xs ys : List Json}
    (hitems : List.Forall₂ R xs ys)
    (hR : ∀ x ∈ xs, ∀ y, R x y → walk (depth + 1) x = .ok () → walk (depth + 1) y = .ok ())
    (h : walk depth (.array text xs) = .ok ()) : walk depth (.array text' ys) = .ok () := by
  obtain ⟨hdepth, hwalk⟩ := walk_array_ok_iff.mp h
  refine walk_array_ok_iff.mpr ⟨hdepth, fun y hy => ?_⟩
  obtain ⟨x, hx, hxy⟩ := forall₂_exists_mem hitems.flip hy
  exact hR x hx y hxy (hwalk x hx)

theorem walk_shuffled {v' : Json} (hvv : Shuffled v v') (h : walk depth v = .ok ()) : walk depth v' = .ok () := by
  induction v using Json.induct generalizing depth v' with
  | harray text items ih =>
    cases hvv with
    | refl => exact h
    | array hitems => grind [walk_array_related]
  | hobject text members ih =>
    cases hvv with
    | refl => exact h
    | object names values perm =>
      exact walk_object_reordered (Shuffled.membersReordered names values perm) (fun m hm v' hv hw => ih m hm hv hw) h
  | _ =>
    cases hvv
    exact h

theorem walk_reordered (t : GoType) {v' : Json} (hvv : Reordered t v v') (h : walk depth v = .ok ()) :
    walk depth v' = .ok () := by
  induction t generalizing depth v v' with
  | any => exact walk_shuffled hvv h
  | pointer elem ih => exact ih hvv h
  | slice elem ih =>
    rcases hvv.slice_cases with rfl | ⟨text, text', xs, ys, rfl, rfl, hitems⟩
    · exact h
    · grind [walk_array_related]
  | map elem ih =>
    rcases hvv.map_cases with rfl | ⟨text, text', ms, ms', rfl, rfl, hmembers⟩
    · exact h
    · grind [walk_object_reordered]
  | struct fields types ih =>
    rcases hvv.struct_cases with rfl | ⟨text, text', ms, ms', rfl, rfl, hmembers⟩
    · exact h
    · grind [walk_object_reordered, MemberReordered]
  | _ =>
    cases hvv
    exact h

end

/-! ## The walk over tokens is the walk over the value -/

section
variable {n m : Nat} {d : Decoder} {s rest : GoString} {state : TokenState} {stack : List TokenState}

/-- The reader of whole values reads a value with `n` steps: then `scan` walks over it. -/
def ValueAgrees (n : Nat) : Prop :=
  ∀ ⦃s rest v⦄, parseValue n s = some (v, rest) → ∀ ⦃m⦄, n ≤ m → ∀ ⦃d state stack⦄,
    d.At s state stack → state.valueAllowed = true → ∀ depth,
      scan m d depth = (walk depth v).map fun _ => ⟨rest, state.valueEnd, stack⟩

/-- The same for the rest of an object, with its closing brace. -/
def ObjectAgrees (n : Nat) : Prop :=
  ∀ ⦃s rest ms⦄, parseObject n (skipSpace s) = some (ms, rest) → ∀ ⦃m⦄, n ≤ m → ∀ ⦃state stack⦄ depth,
      (scanMembers m [] ⟨s, .objectStart, state :: stack⟩ depth >>= nextToken).map Prod.snd =
        (walkMembers depth [] ms).map fun _ => ⟨rest, state.valueEnd, stack⟩

/-- The same for the members of an object, up to its closing brace. -/
def MembersAgree (n : Nat) : Prop :=
  ∀ ⦃s rest ms⦄, parseMembers n s = some (ms, rest) → ∀ ⦃m⦄, n ≤ m → ∀ ⦃d state stack⦄,
    d.At s state stack → state = .objectStart ∨ state = .objectKey → d.more = true →
      ∃ r, skipSpace r = closeBrace :: rest ∧ ∀ depth seen, scanMembers m seen d depth =
          (walkMembers depth seen ms).map fun _ => ⟨r, .objectComma, stack⟩

/-- The same for the rest of an array, with its closing bracket. -/
def ArrayAgrees (n : Nat) : Prop :=
  ∀ ⦃s rest items⦄, parseArray n (skipSpace s) = some (items, rest) → ∀ ⦃m⦄, n ≤ m → ∀ ⦃state stack⦄ depth,
      (scanItems m ⟨s, .arrayStart, state :: stack⟩ depth >>= nextToken).map Prod.snd =
        (walkItems depth items).map fun _ => ⟨rest, state.valueEnd, stack⟩

/-- The same for the items of an array, up to its closing bracket. -/
def ItemsAgree (n : Nat) : Prop :=
  ∀ ⦃s rest items⦄, parseItems n s = some (items, rest) → ∀ ⦃m⦄, n ≤ m → ∀ ⦃d state stack⦄,
    d.At s state stack → state = .arrayStart ∨ state = .arrayValue → d.more = true →
      ∃ r, skipSpace r = closeBracket :: rest ∧ ∀ depth,
        scanItems m d depth = (walkItems depth items).map fun _ => ⟨r, .arrayComma, stack⟩

theorem nextToken_of_token {out : Token × Decoder} (h : d.token = .ok out) : nextToken d = .ok out := by
  unfold nextToken
  rw [h]

theorem closing_token {w : Except DecodeFailure Unit} {t : Token} {d' : Decoder} (h : d.token = .ok (t, d')) :
    ((w.map fun _ => d) >>= nextToken).map Prod.snd = w.map fun _ => d' := by
  cases w with
  | error e => rfl
  | ok _ =>
    show (nextToken d).map Prod.snd = _
    rw [nextToken_of_token h]
    rfl

theorem scan_open {b : UInt8} {d' : Decoder} (h : d.token = .ok (.delim b, d')) (depth : Nat)
    (hb : b = openBrace ∨ b = openBracket) :
    scan (m + 1) d depth = reject (decide (depth > 32)) .jsonDepth >>= fun _ =>
      ((if b = openBrace then scanMembers m [] d' depth else scanItems m d' depth) >>=
        nextToken).map Prod.snd := by
  unfold scan
  rw [nextToken_of_token h]
  have hclose : ∀ loop : Except DecodeFailure Decoder,
      (do let d ← loop; let (_, d) ← nextToken d; return d) =
        (loop >>= nextToken).map Prod.snd := by
    intro loop
    cases loop with
    | error e => rfl
    | ok d =>
      show (nextToken d >>= _) = (nextToken d).map Prod.snd
      cases nextToken d <;> rfl
  rcases hb with rfl | rfl
  · rw [if_pos rfl, ← hclose]
    rfl
  · have hne : openBracket ≠ openBrace := by decide
    rw [if_neg hne, ← hclose]
    rfl

theorem value_step (hobject : ObjectAgrees n) (harray : ArrayAgrees n) : ValueAgrees (n + 1) := by
  intro s rest v hparse m hm d state stack hat hallowed depth
  obtain ⟨m, rfl⟩ : ∃ k, m = k + 1 := ⟨m - 1, by omega⟩
  have hm : n ≤ m := by omega
  have hchecked : ∀ (w : Except DecodeFailure Unit) (x : Decoder),
      (reject (decide (depth > 32)) .jsonDepth >>= fun _ => w.map fun _ => x) =
        (reject (decide (depth > 32)) .jsonDepth >>= fun _ => w).map fun _ => x := by
    intro w x
    cases hdepth : decide (depth > 32) <;> rfl
  cases s with
  | nil => simp [parseValue] at hparse
  | cons c s =>
    unfold parseValue at hparse
    split_ifs at hparse with hbrace hbracket
    · obtain ⟨⟨ms, after⟩, hms, hv⟩ := Option.map_eq_some_iff.mp hparse
      cases hv
      subst hbrace
      rw [scan_open (hat.token_openBrace hallowed) depth (.inl rfl), if_pos rfl, hobject hms hm depth, walk, hchecked]
    · obtain ⟨⟨items, after⟩, hitems, hv⟩ := Option.map_eq_some_iff.mp hparse
      cases hv
      subst hbracket
      rw [scan_open (hat.token_openBracket hallowed) depth (.inr rfl), if_neg hbrace,
        harray hitems hm depth, walk, hchecked]
    · obtain ⟨t, htoken, hdelim⟩ := hat.token_scalar hallowed hbracket hbrace hparse
      have hwalk : walk depth v = reject (decide (depth > 32)) .jsonDepth := by
        have hleaf := Decoder.lexScalar_isLeaf hparse
        cases v with
        | array text items => cases hleaf
        | object text members => cases hleaf
        | _ => rfl
      unfold scan
      rw [nextToken_of_token htoken, hwalk]
      cases t with
      | delim b => exact absurd rfl (hdelim b)
      | string s => cases hdepth : decide (depth > 32) <;> rfl
      | value v => cases hdepth : decide (depth > 32) <;> rfl

theorem object_step (hmembers : MembersAgree n) : ObjectAgrees (n + 1) := by
  intro s rest ms hparse m hm state stack depth
  obtain ⟨m, rfl⟩ : ∃ k, m = k + 1 := ⟨m - 1, by omega⟩
  have hat : Decoder.At ⟨s, .objectStart, state :: stack⟩ (skipSpace s) .objectStart
      (state :: stack) := Decoder.at_of_value (by decide)
  unfold parseObject at hparse
  cases hs : skipSpace s with
  | nil => simp [hs] at hparse
  | cons c after =>
    rw [hs] at hparse hat
    dsimp only at hparse
    have hmore := Decoder.more_of_head (d := ⟨s, .objectStart, state :: stack⟩) hs
    split_ifs at hparse with hclose
    · -- an empty object
      cases hparse
      subst hclose
      unfold scanMembers
      rw [hmore, walkMembers]
      exact closing_token (w := .ok ()) (hat.token_close (.inr ⟨rfl, .inl rfl⟩))
    · obtain rfl := Decoder.parseMembers_head hparse
      have hm : n ≤ m + 1 := by omega
      obtain ⟨r, hr, hscan⟩ := hmembers hparse hm hat (.inl rfl) hmore
      have hend : Decoder.At ⟨r, .objectComma, state :: stack⟩ (closeBrace :: rest) .objectComma
          (state :: stack) := Decoder.at_of_head hr (by decide) (by decide)
      rw [hscan]
      exact closing_token (hend.token_close (.inr ⟨rfl, .inr rfl⟩))

theorem array_step (hitems : ItemsAgree n) : ArrayAgrees (n + 1) := by
  intro s rest items hparse m hm state stack depth
  obtain ⟨m, rfl⟩ : ∃ k, m = k + 1 := ⟨m - 1, by omega⟩
  have hat : Decoder.At ⟨s, .arrayStart, state :: stack⟩ (skipSpace s) .arrayStart
      (state :: stack) := Decoder.at_of_value (by decide)
  unfold parseArray at hparse
  cases hs : skipSpace s with
  | nil => simp [hs] at hparse
  | cons c after =>
    rw [hs] at hparse hat
    dsimp only at hparse
    have hmore := Decoder.more_of_head (d := ⟨s, .arrayStart, state :: stack⟩) hs
    split_ifs at hparse with hclose
    · -- an empty array
      cases hparse
      subst hclose
      unfold scanItems
      rw [hmore, walkItems]
      exact closing_token (w := .ok ()) (hat.token_close (.inl ⟨rfl, .inl rfl⟩))
    · obtain ⟨hbracket, hbrace⟩ := Decoder.parseItems_head hparse
      rw [decide_eq_true hbracket, decide_eq_true hbrace] at hmore
      have hm : n ≤ m + 1 := by omega
      obtain ⟨r, hr, hscan⟩ := hitems hparse hm hat (.inl rfl) hmore
      have hend : Decoder.At ⟨r, .arrayComma, state :: stack⟩ (closeBracket :: rest) .arrayComma
          (state :: stack) := Decoder.at_of_head hr (by decide) (by decide)
      rw [hscan]
      exact closing_token (hend.token_close (.inl ⟨rfl, .inr rfl⟩))

theorem items_step (hvalue : ValueAgrees n) (hitems : ItemsAgree n) : ItemsAgree (n + 1) := by
  intro s rest items hparse m hm d state stack hat hstate hmore
  obtain ⟨m, rfl⟩ : ∃ k, m = k + 1 := ⟨m - 1, by omega⟩
  have hm : n ≤ m := by omega
  have hallowed : state.valueAllowed = true ∧ state.valueEnd = .arrayComma := by
    rcases hstate with rfl | rfl <;> exact ⟨rfl, rfl⟩
  unfold parseItems at hparse
  obtain ⟨⟨v, after⟩, hv, hparse⟩ := Option.bind_eq_some_iff.mp hparse
  have hscan := hvalue hv hm hat hallowed.1
  rw [hallowed.2] at hscan
  dsimp only at hparse
  cases hafter : skipSpace after with
  | nil => simp [hafter] at hparse
  | cons c next =>
    simp only [hafter] at hparse
    have hmore' := Decoder.more_of_head (d := ⟨after, .arrayComma, stack⟩) hafter
    split_ifs at hparse with hcomma hclose
    · -- another item follows
      obtain ⟨⟨items', last⟩, hrest, hout⟩ := Option.map_eq_some_iff.mp hparse
      cases hout
      subst hcomma
      have hat' := Decoder.at_of_separator stack hafter (.inr (.inl ⟨rfl, rfl, rfl⟩))
      obtain ⟨r, hr, hloop⟩ := hitems hrest hm hat' (.inr rfl) hmore'
      refine ⟨r, hr, fun depth => ?_⟩
      unfold scanItems
      rw [hmore, if_pos rfl, hscan, walkItems]
      cases walk (depth + 1) v with
      | error e => rfl
      | ok _ => exact hloop depth
    · -- the last item
      cases hparse
      subst hclose
      refine ⟨after, hafter, fun depth => ?_⟩
      unfold scanItems
      rw [hmore, if_pos rfl, hscan, walkItems, walkItems]
      cases walk (depth + 1) v with
      | error e => rfl
      | ok _ =>
        have hpos := Decoder.parseValue_pos hv
        obtain ⟨m, rfl⟩ : ∃ k, m = k + 1 := ⟨m - 1, by omega⟩
        show scanItems (m + 1) ⟨after, .arrayComma, stack⟩ depth = .ok _
        unfold scanItems
        rw [hmore']
        rfl

theorem members_step (hvalue : ValueAgrees n) (hmembers : MembersAgree n) : MembersAgree (n + 1) := by
  intro s rest ms hparse m hm d state stack hat hstate hmore
  obtain ⟨m, rfl⟩ : ∃ k, m = k + 1 := ⟨m - 1, by omega⟩
  have hm : n ≤ m := by omega
  cases s with
  | nil => simp [parseMembers] at hparse
  | cons c s =>
    unfold parseMembers at hparse
    split_ifs at hparse with hquote
    subst hquote
    obtain ⟨⟨name, colonAt⟩, hname, hparse⟩ := Option.bind_eq_some_iff.mp hparse
    obtain ⟨valueAt, hcolon, hparse⟩ := Option.bind_eq_some_iff.mp hparse
    obtain ⟨⟨v, after⟩, hv, hparse⟩ := Option.bind_eq_some_iff.mp hparse
    have htoken := nextToken_of_token (hat.token_name hstate hname)
    have hcolonAt : skipSpace colonAt = colon :: valueAt := expect_eq_some hcolon
    have hscan := hvalue hv hm (Decoder.at_of_separator stack hcolonAt (.inl ⟨rfl, rfl, rfl⟩)) rfl
    dsimp only at hparse
    cases hafter : skipSpace after with
    | nil => simp [hafter] at hparse
    | cons c next =>
      simp only [hafter] at hparse
      have hmore' := Decoder.more_of_head (d := ⟨after, .objectComma, stack⟩) hafter
      -- one round of the loop: the name, the value, and the rest
      have hround : ∀ depth seen, scanMembers (m + 1) seen d depth =
          reject (decide (name ∈ seen)) .duplicateKey >>= fun _ =>
            walk (depth + 1) v >>= fun _ =>
              scanMembers m (name :: seen) ⟨after, .objectComma, stack⟩ depth := by
        intro depth seen
        rw [scanMembers, hmore, if_pos rfl, htoken]
        show (reject _ _ >>= fun _ => scan m ⟨colonAt, .objectColon, stack⟩ (depth + 1) >>= _) = _
        rw [hscan]
        cases walk (depth + 1) v <;> rfl
      split_ifs at hparse with hcomma hclose
      · -- another member follows
        obtain ⟨⟨ms', last⟩, hrest, hout⟩ := Option.map_eq_some_iff.mp hparse
        cases hout
        subst hcomma
        have hat' := Decoder.at_of_separator stack hafter (.inr (.inr ⟨rfl, rfl, rfl⟩))
        obtain ⟨r, hr, hloop⟩ := hmembers hrest hm hat' (.inr rfl) hmore'
        refine ⟨r, hr, fun depth seen => ?_⟩
        rw [hround, walkMembers, hloop]
        cases hseen : decide (name ∈ seen) with
        | true => rfl
        | false => cases walk (depth + 1) v <;> rfl
      · -- the last member
        cases hparse
        subst hclose
        refine ⟨after, hafter, fun depth seen => ?_⟩
        have hpos := Decoder.parseValue_pos hv
        obtain ⟨m, rfl⟩ : ∃ k, m = k + 1 := ⟨m - 1, by omega⟩
        have hlast : scanMembers (m + 1) (name :: seen) ⟨after, .objectComma, stack⟩ depth =
            .ok ⟨after, .objectComma, stack⟩ := by
          unfold scanMembers
          rw [hmore']
          rfl
        rw [hround, walkMembers, walkMembers, hlast]
        cases hseen : decide (name ∈ seen) with
        | true => rfl
        | false => cases walk (depth + 1) v <;> rfl

/-- **The two walks agree.** By induction on the steps, with one case for each function of the
reader. -/
theorem readers_agree (n : Nat) : ValueAgrees n ∧ ObjectAgrees n ∧ MembersAgree n ∧ ArrayAgrees n ∧ ItemsAgree n := by
  induction n with
  | zero =>
    refine ⟨?_, ?_, ?_, ?_, ?_⟩
    · intro s rest v h
      simp [parseValue] at h
    · intro s rest ms h
      simp [parseObject] at h
    · intro s rest ms h
      simp [parseMembers] at h
    · intro s rest items h
      simp [parseArray] at h
    · intro s rest items h
      simp [parseItems] at h
  | succ n ih => grind [value_step, object_step, members_step, array_step, items_step]

end

/-! ## Accepted messages -/

theorem ended_iff (rest : GoString) : ended ⟨rest, .topValue, []⟩ = true ↔ skipSpace rest = [] := by
  grind [Decoder.At, Decoder.at_of_value, Decoder.tokenHere_eof_iff, ended, Decoder.token]

section
variable {parseFloat : GoString → Option Float64} {raw : GoString} {t : GoType} {into x : t.Value} {limit : Nat}

def document (raw : GoString) : Option Json :=
  match parseText raw with
  | some (v, rest) => if skipSpace rest = [] then some v else none
  | none => none

/-- **What is accepted**: within the limit one JSON value that the walk passes and that is decoded. -/
theorem decodeBounded_ok_iff : decodeBounded parseFloat raw t into limit = .ok x ↔
      raw.length ≤ limit ∧ ∃ v, document raw = some v ∧ walk 0 v = .ok () ∧
        decodeValue parseFloat t into v = .ok x := by
  unfold decodeBounded document
  rw [reject_bind_eq_ok, decide_eq_false_iff_not, Nat.not_lt]
  refine and_congr_right fun _ => ?_
  cases hparse : parseText raw with
  | none => grind [accepted_bind_iff]
  | some out =>
    obtain ⟨v, rest⟩ := out
    have hat : Decoder.At (Decoder.new raw) (skipSpace raw) .topValue [] := Decoder.at_of_value (by decide)
    have hscan := (readers_agree (3 * raw.length)).1 hparse (Nat.le_succ _) hat rfl 0
    rw [hscan]
    dsimp only
    cases hwalk : walk 0 v with
    | error e => simp [Except.map, bind, Except.bind, hwalk]
    | ok _ =>
      show (reject (!ended ⟨rest, .topValue, []⟩) _ >>= _) = _ ↔ _
      grind [reject_bind_eq_ok, ended_iff]

end

end BitAgent.ProcessorApi
