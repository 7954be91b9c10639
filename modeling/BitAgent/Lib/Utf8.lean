/-
# Lib.Utf8 — the runes of any Go string, and back

A program that reads a Go string rune by rune sees U+FFFD for each byte that starts no well-formed sequence. `decode`
is that reading, `encode` is `string(r)` for each rune. `decode` undoes `encode`; a byte below 0x80 is a rune of its
own wherever it stands (`decode_append_ascii`); writing what was read gives valid UTF-8 back (`encode_decode_iff`).
-/
import BitAgent.Lib.GoString

namespace BitAgent.Lib.GoString

open List

/-! ## One rune -/

-- From here on bytes are numbers, so that `omega` settles the sequences.

variable {b : UInt8}

theorem between_iff {lo hi : UInt8} : between lo hi b = true ↔ lo.toNat ≤ b.toNat ∧ b.toNat ≤ hi.toNat := by
  unfold between
  rw [Bool.and_eq_true, decide_eq_true_eq, decide_eq_true_eq]
  rfl

theorem toNat_secondMin (a : UInt8) : (secondMin a).toNat =
    if a.toNat = 0xE0 then 0xA0 else if a.toNat = 0xF0 then 0x90 else 0x80 := by
  unfold secondMin
  simp only [← UInt8.toNat_inj, UInt8.reduceToNat]
  split_ifs <;> rfl

theorem toNat_secondMax (a : UInt8) : (secondMax a).toNat =
    if a.toNat = 0xED then 0x9F else if a.toNat = 0xF4 then 0x8F else 0xBF := by
  unfold secondMax
  simp only [← UInt8.toNat_inj, UInt8.reduceToNat]
  split_ifs <;> rfl

variable (c : Char)

theorem toNat_range : c.toNat < 0xD800 ∨ 0xDFFF < c.toNat ∧ c.toNat < 0x110000 := c.valid

variable {r : Nat}

theorem toNat_ofNat_of_range (h : r < 0xD800 ∨ 0xDFFF < r ∧ r < 0x110000) : (Char.ofNat r).toNat = r := by
  rw [Char.ofNat, dif_pos h]
  exact UInt32.toNat_ofNatLT

variable {a : UInt8}

theorem not_low (h : 0x80 ≤ a.toNat) : ¬ a < 0x80 := UInt8.not_lt.mpr h

theorem decodeRune_ascii (hb : b < 0x80) (s : GoString) : decodeRune (b :: s) = some (b.toNat, s) := by
  unfold decodeRune
  exact if_pos hb

-- The bytes are variables here: with the sums in their place unification does not end.

variable {v : Nat}

theorem decodeRune_two (ha : a.toNat = v / 64 % 32 + 192) (hb : b.toNat = v % 64 + 128) (hlo : 127 < v)
    (hhi : v ≤ 2047) (s : GoString) : decodeRune (a :: b :: s) = some (v, s) := by
  have hv : (a.toNat - 0xC0) * 64 + tail b = v := by
    unfold tail
    omega
  grind [decodeRune, not_low, between_iff]

theorem decodeRune_three {c : UInt8} (ha : a.toNat = v / 4096 % 16 + 224) (hb : b.toNat = v / 64 % 64 + 128)
    (hc : c.toNat = v % 64 + 128) (hlo : 2047 < v) (hhi : v ≤ 65535) (hrange : v < 0xD800 ∨ 0xDFFF < v) (s : GoString) :
    decodeRune (a :: b :: c :: s) = some (v, s) := by
  have hv : ((a.toNat - 0xE0) * 64 + tail b) * 64 + tail c = v := by
    unfold tail
    omega
  unfold decodeRune
  simp only [if_neg (not_low (a := a) (by omega)), between_iff, UInt8.reduceToNat, Bool.and_eq_true,
    toNat_secondMin, toNat_secondMax, hv]
  rw [if_neg (by omega), if_pos (by omega), if_pos (by split_ifs <;> omega)]

theorem decodeRune_four {c d : UInt8} (ha : a.toNat = v / 262144 % 8 + 240) (hb : b.toNat = v / 4096 % 64 + 128)
    (hc : c.toNat = v / 64 % 64 + 128) (hd : d.toNat = v % 64 + 128) (hlo : 65535 < v) (hhi : v < 0x110000)
    (s : GoString) : decodeRune (a :: b :: c :: d :: s) = some (v, s) := by
  have hv : (((a.toNat - 0xF0) * 64 + tail b) * 64 + tail c) * 64 + tail d = v := by
    unfold tail
    omega
  unfold decodeRune
  simp only [if_neg (not_low (a := a) (by omega)), between_iff, UInt8.reduceToNat, Bool.and_eq_true,
    toNat_secondMin, toNat_secondMax, hv]
  rw [if_neg (by omega), if_neg (by omega), if_pos (by omega), if_pos (by split_ifs <;> omega)]

theorem decodeRune_encodeChar (s : GoString) :
    decodeRune (String.utf8EncodeChar c ++ s) = some (c.toNat, s) := by
  have hrange := toNat_range c
  have hval : c.val.toNat = c.toNat := rfl
  have hbyte : ∀ n < 256, (UInt8.ofNat n).toNat = n := by
    intro n hn
    rw [UInt8.toNat_ofNat', Nat.mod_eq_of_lt hn]
  unfold String.utf8EncodeChar
  simp only [hval]
  generalize c.toNat = v at hrange ⊢
  split_ifs with h1 h2 h3
  · grind [UInt8.lt_iff_toNat_lt, decodeRune_ascii]
  · grind [decodeRune_two]
  · grind [decodeRune_three]
  · grind [decodeRune_four]

theorem encodeChar_ofNat (h : r < 0xD800 ∨ 0xDFFF < r ∧ r < 0x110000) : String.utf8EncodeChar (Char.ofNat r) =
      if r ≤ 127 then [UInt8.ofNat r]
      else if r ≤ 2047 then [UInt8.ofNat (r / 64 % 32 + 192), UInt8.ofNat (r % 64 + 128)]
      else if r ≤ 65535 then
        [UInt8.ofNat (r / 4096 % 16 + 224), UInt8.ofNat (r / 64 % 64 + 128), UInt8.ofNat (r % 64 + 128)]
      else
        [UInt8.ofNat (r / 262144 % 8 + 240), UInt8.ofNat (r / 4096 % 64 + 128),
          UInt8.ofNat (r / 64 % 64 + 128), UInt8.ofNat (r % 64 + 128)] := by
  have hval : (Char.ofNat r).val.toNat = r := toNat_ofNat_of_range h
  unfold String.utf8EncodeChar
  simp only [hval]

theorem ofNat_eq_of_toNat {n : Nat} (h : n = a.toNat) : UInt8.ofNat n = a := by rw [h, UInt8.ofNat_toNat]

variable {s rest : GoString}

theorem eq_encodeChar (h : decodeRune s = some (r, rest)) :
    (Char.ofNat r).toNat = r ∧ s = String.utf8EncodeChar (Char.ofNat r) ++ rest := by
  revert h
  fun_cases decodeRune s with
  | case1 => rintro ⟨⟩
  | case2 a s ha =>
    rintro ⟨⟩
    have hlt : a.toNat < 128 := ha
    grind [toNat_ofNat_of_range, encodeChar_ofNat, UInt8.ofNat_toNat]
  | case3 a _ ha b s hb =>
    intro h
    obtain ⟨rfl, rfl⟩ := Prod.mk.inj (Option.some.inj h)
    simp only [between_iff, UInt8.reduceToNat] at ha hb
    unfold tail
    refine ⟨toNat_ofNat_of_range (by omega), ?_⟩
    rw [encodeChar_ofNat (by omega), if_neg (by omega), if_pos (by omega),
      ofNat_eq_of_toNat (a := a) (by omega), ofNat_eq_of_toNat (a := b) (by omega)]
    rfl
  | case6 a _ _ ha b c s hbc =>
    intro h
    obtain ⟨rfl, rfl⟩ := Prod.mk.inj (Option.some.inj h)
    simp only [between_iff, Bool.and_eq_true, toNat_secondMin, toNat_secondMax, UInt8.reduceToNat] at ha hbc
    obtain ⟨⟨hlo, hhi⟩, hc⟩ := hbc
    unfold tail
    generalize hv : ((a.toNat - 0xE0) * 64 + (b.toNat - 0x80)) * 64 + (c.toNat - 0x80) = v
    have hrange : v < 0xD800 ∨ 0xDFFF < v ∧ v < 0x110000 := by split_ifs at hlo hhi <;> omega
    refine ⟨toNat_ofNat_of_range hrange, ?_⟩
    rw [encodeChar_ofNat hrange, if_neg (by split_ifs at hlo <;> omega), if_neg (by split_ifs at hlo <;> omega),
      if_pos (by split_ifs at hhi <;> omega), ofNat_eq_of_toNat (a := a) (by split_ifs at hlo hhi <;> omega),
      ofNat_eq_of_toNat (a := b) (by split_ifs at hlo hhi <;> omega), ofNat_eq_of_toNat (a := c) (by omega)]
    rfl
  | case9 a _ _ _ ha b c d s hbcd =>
    intro h
    obtain ⟨rfl, rfl⟩ := Prod.mk.inj (Option.some.inj h)
    simp only [between_iff, Bool.and_eq_true, toNat_secondMin, toNat_secondMax, UInt8.reduceToNat] at ha hbcd
    obtain ⟨⟨⟨hlo, hhi⟩, hc⟩, hd⟩ := hbcd
    unfold tail
    generalize hv : (((a.toNat - 0xF0) * 64 + (b.toNat - 0x80)) * 64 + (c.toNat - 0x80)) * 64 + (d.toNat - 0x80) = v
    have hrange : v < 0xD800 ∨ 0xDFFF < v ∧ v < 0x110000 := by split_ifs at hlo hhi <;> omega
    refine ⟨toNat_ofNat_of_range hrange, ?_⟩
    rw [encodeChar_ofNat hrange, if_neg (by split_ifs at hlo <;> omega), if_neg (by split_ifs at hlo <;> omega),
      if_neg (by split_ifs at hlo <;> omega), ofNat_eq_of_toNat (a := a) (by split_ifs at hlo hhi <;> omega),
      ofNat_eq_of_toNat (a := b) (by split_ifs at hlo hhi <;> omega), ofNat_eq_of_toNat (a := c) (by omega),
      ofNat_eq_of_toNat (a := d) (by omega)]
    rfl
  | _ => rintro ⟨⟩

theorem encodeChar_bytes : (∃ b : UInt8, b < 0x80 ∧ String.utf8EncodeChar c = [b]) ∨
      (String.utf8EncodeChar c ≠ [] ∧ ∀ b ∈ String.utf8EncodeChar c, (0x80 : UInt8) ≤ b) := by
  have hhigh : ∀ n : Nat, 128 ≤ n % 256 → (0x80 : UInt8) ≤ UInt8.ofNat n := by
    grind [UInt8.le_iff_toNat_le, UInt8.toNat_ofNat']
  unfold String.utf8EncodeChar
  generalize c.val.toNat = v
  simp only
  grind

theorem decodeRune_append_ascii {t : GoString} (hs : s ≠ []) (hb : b < 0x80) :
    decodeRune (s ++ b :: t) = (decodeRune s).map fun x => (x.1, x.2 ++ b :: t) := by
  cases hread : decodeRune s with
  | some x =>
    obtain ⟨hr, hs⟩ := eq_encodeChar (show decodeRune s = some (x.1, x.2) from hread)
    grind [decodeRune_encodeChar]
  | none =>
    cases hlong : decodeRune (s ++ b :: t) with
    | none => rfl
    | some x =>
      -- the rune would end in `s`, or take in the byte `b`
      obtain ⟨hr, heq⟩ := eq_encodeChar (show decodeRune (s ++ b :: t) = some (x.1, x.2) from hlong)
      rcases append_eq_append_iff.mp heq with ⟨u, henc, hrest⟩ | ⟨u, hin, -⟩
      · cases u with
        | nil => grind [decodeRune_encodeChar]
        | cons b' u =>
          obtain ⟨rfl, -⟩ := List.cons.inj hrest
          rcases encodeChar_bytes (Char.ofNat x.1) with ⟨a, -, hone⟩ | ⟨-, hhigh⟩
          · rw [hone] at henc
            obtain ⟨a', s', rfl⟩ := exists_cons_of_ne_nil hs
            have hlen := congrArg List.length henc
            simp at hlen
          · grind [UInt8.not_lt]
      · grind [decodeRune_encodeChar]

theorem rest_length_lt (h : decodeRune s = some (r, rest)) : rest.length < s.length := by
  obtain ⟨-, hs⟩ := eq_encodeChar h
  grind [encodeChar_bytes, length_pos_iff]

/-! ## Texts -/

/-- `string(r)` of each rune. -/
def encode (cs : List Char) : GoString := cs.flatMap String.utf8EncodeChar
def runeError : Char := '�'

/-- The runes of a string of at most `n` bytes. -/
def decodeUpTo : Nat → GoString → List Char
  | _, [] => []
  | 0, _ :: _ => []
  | n + 1, a :: s =>
    match decodeRune (a :: s) with
    | some (r, rest) => Char.ofNat r :: decodeUpTo n rest
    | none => runeError :: decodeUpTo n s

def decode (s : GoString) : List Char := decodeUpTo s.length s

theorem decodeUpTo_eq {n : Nat} (h : s.length ≤ n) : decodeUpTo n s = decode s := by
  -- on the length, for any two numbers of steps that are enough
  have hall : ∀ k n m (s : GoString), s.length ≤ k → s.length ≤ n → s.length ≤ m → decodeUpTo n s = decodeUpTo m s := by
    intro k
    induction k with
    | zero =>
      intro n m s hk _ _
      rw [length_eq_zero_iff.mp (Nat.le_zero.mp hk)]
      cases n <;> cases m <;> rfl
    | succ k ih =>
      intro n m s hk hn hm
      match n, m, s with
      | n, m, [] => cases n <;> cases m <;> rfl
      | n + 1, m + 1, a :: s =>
        rw [length_cons] at hk hn hm
        rw [decodeUpTo, decodeUpTo]
        cases hread : decodeRune (a :: s) with
        | none => simp only [ih n m s (by omega) (by omega) (by omega)]
        | some x =>
          have hlen := rest_length_lt (show decodeRune (a :: s) = some (x.1, x.2) from hread)
          grind
  exact hall s.length n s.length s (Nat.le_refl _) h (Nat.le_refl _)

@[simp] theorem decode_nil : decode [] = [] := rfl

@[simp] theorem encode_nil : encode [] = [] := rfl

variable (cs : List Char)

theorem encode_cons : encode (c :: cs) = String.utf8EncodeChar c ++ encode cs := rfl

theorem decode_of_some (h : decodeRune s = some (r, rest)) :
    decode s = Char.ofNat r :: decode rest := by
  have hlen := rest_length_lt h
  cases s with
  | nil => cases h
  | cons a s => grind [decode, decodeUpTo, decodeUpTo_eq]

theorem decode_of_none (h : decodeRune (a :: s) = none) :
    decode (a :: s) = runeError :: decode s := by
  rw [decode, length_cons, decodeUpTo, h]
  rfl

theorem decode_ne_nil (h : s ≠ []) : decode s ≠ [] := by
  obtain ⟨a, s, rfl⟩ := exists_cons_of_ne_nil h
  cases hread : decodeRune (a :: s) with
  | none =>
    rw [decode_of_none hread]
    exact cons_ne_nil _ _
  | some x =>
    rw [decode_of_some (show decodeRune (a :: s) = some (x.1, x.2) from hread)]
    exact cons_ne_nil _ _

theorem decode_cons_ascii (hb : b < 0x80) (s : GoString) :
    decode (b :: s) = Char.ofNat b.toNat :: decode s :=
  decode_of_some (decodeRune_ascii hb s)

theorem decode_encodeChar_append (s : GoString) : decode (String.utf8EncodeChar c ++ s) = c :: decode s := by
  rw [decode_of_some (decodeRune_encodeChar c s), Char.ofNat_toNat]

theorem decode_encode_append (s : GoString) : decode (encode cs ++ s) = cs ++ decode s := by
  induction cs with
  | nil => rfl
  | cons c cs ih => grind [encode_cons, decode_encodeChar_append]

@[simp] theorem decode_encode : decode (encode cs) = cs := by
  have h := decode_encode_append cs []
  rwa [append_nil, decode_nil, append_nil] at h

theorem encode_injective : Function.Injective encode := Function.LeftInverse.injective decode_encode

theorem decode_append_ascii (s : GoString) (hb : b < 0x80) (t : GoString) :
    decode (s ++ b :: t) = decode s ++ Char.ofNat b.toNat :: decode t := by
  -- on the length: a rune of `s` is read in the longer text as well
  induction hn : s.length using Nat.strongRecOn generalizing s with
  | ind n ih =>
    cases s with
    | nil => exact decode_cons_ascii hb t
    | cons a s =>
      have hlong := decodeRune_append_ascii (cons_ne_nil a s) hb (t := t)
      cases hread : decodeRune (a :: s) with
      | none => grind [decode_of_none]
      | some x =>
        rw [hread] at hlong
        have hlen := rest_length_lt (show decodeRune (a :: s) = some (x.1, x.2) from hread)
        rw [decode_of_some (show decodeRune (a :: s) = some (x.1, x.2) from hread), decode_of_some hlong,
          cons_append, ih x.2.length (by omega) x.2 rfl]

theorem encode_decode_iff (s : GoString) : encode (decode s) = s ↔ validString s = true := by
  unfold validString runes
  -- `runesUpTo` and `decode` take the same steps, until one fails
  have hall : ∀ n (s : GoString), s.length ≤ n → (encode (decode s) = s ↔ (runesUpTo n s).isSome = true) := by
    intro n
    induction n with
    | zero =>
      intro s hlen
      rw [length_eq_zero_iff.mp (Nat.le_zero.mp hlen)]
      exact ⟨fun _ => rfl, fun _ => rfl⟩
    | succ n ih =>
      intro s hlen
      cases s with
      | nil => exact ⟨fun _ => rfl, fun _ => rfl⟩
      | cons a s =>
        rw [runesUpTo]
        cases hread : decodeRune (a :: s) with
        | none => grind [decode_of_none, encode_cons, decodeRune_encodeChar]
        | some x =>
          have hx : decodeRune (a :: s) = some (x.1, x.2) := hread
          have hshort := rest_length_lt hx
          rw [length_cons] at hshort hlen
          simp only [Option.isSome_map]
          rw [← ih x.2 (by omega), decode_of_some hx, encode_cons]
          have hs := (eq_encodeChar hx).2
          grind [append_cancel_left]
  exact hall s.length s (Nat.le_refl _)

theorem mem_of_ascii_mem_encode (hb : b < 0x80) {cs : List Char} (h : b ∈ encode cs) :
    Char.ofNat b.toNat ∈ cs := by
  obtain ⟨c, hc, hmem⟩ := mem_flatMap.mp h
  rcases encodeChar_bytes c with ⟨a, ha, hone⟩ | ⟨-, hhigh⟩
  · rw [hone, mem_singleton] at hmem
    subst hmem
    have hread := decodeRune_encodeChar c []
    grind [decodeRune_ascii, Char.ofNat_toNat]
  · exact absurd hb (UInt8.not_lt.mpr (hhigh b hmem))

theorem mem_of_ascii_mem_decode (hb : b < 0x80) (h : Char.ofNat b.toNat ∈ decode s) :
    b ∈ s := by
  have hnat : (Char.ofNat b.toNat).toNat = b.toNat := by
    have hlt : b.toNat < 128 := hb
    exact toNat_ofNat_of_range (by omega)
  induction hn : s.length using Nat.strongRecOn generalizing s with
  | ind n ih =>
    cases s with
    | nil => cases h
    | cons a s =>
      cases hread : decodeRune (a :: s) with
      | none =>
        rw [decode_of_none hread] at h
        rcases mem_cons.mp h with herr | hrest
        · have hlt : b.toNat < 128 := hb
          rw [herr] at hnat
          have hval : runeError.toNat = 0xFFFD := rfl
          omega
        · grind
      | some x =>
        have hx : decodeRune (a :: s) = some (x.1, x.2) := hread
        obtain ⟨hr, hs⟩ := eq_encodeChar hx
        have hlen := rest_length_lt hx
        rw [decode_of_some hx] at h
        rw [hs]
        rcases mem_cons.mp h with hfirst | hrest
        · -- the rune of one byte
          have hone := decode_cons_ascii hb []
          have henc : encode [Char.ofNat b.toNat] = [b] := by
            rw [← decode_nil, ← hone]
            refine (encode_decode_iff [b]).mpr ?_
            rw [validString, runes, length_singleton, runesUpTo, decodeRune_ascii hb]
            rfl
          grind [encode_cons]
        · grind

theorem decode_intercalate_ascii (hb : b < 0x80) (parts : List GoString) :
    decode ([b].intercalate parts) = [Char.ofNat b.toNat].intercalate (parts.map decode) := by
  induction parts with
  | nil => rfl
  | cons part parts ih =>
    cases parts with
    | nil => simp
    | cons next parts => grind [intercalate_cons_cons, decode_append_ascii]

variable {α : Type}

theorem replaceAll_append [DecidableEq α] (old : α) (new s t : List α) :
    replaceAll old new (s ++ t) = replaceAll old new s ++ replaceAll old new t := flatMap_append

theorem replaceAll_cons_self [DecidableEq α] (old : α) (new s : List α) :
    replaceAll old new (old :: s) = new ++ replaceAll old new s := by simp [replaceAll]

theorem replaceAll_of_not_mem [DecidableEq α] {old : α} {new s : List α} (h : old ∉ s) :
    replaceAll old new s = s := by
  induction s with
  | nil => rfl
  | cons x s ih => grind [replaceAll]

theorem decode_double_ascii (hb : b < 0x80) (s : GoString) : decode (replaceAll b [b, b] s) =
      replaceAll (Char.ofNat b.toNat) [Char.ofNat b.toNat, Char.ofNat b.toNat] (decode s) := by
  -- on the length, with the text parted at one of the bytes
  induction hn : s.length using Nat.strongRecOn generalizing s with
  | ind n ih =>
    by_cases hmem : b ∈ s
    · obtain ⟨x, y, rfl⟩ := append_of_mem hmem
      rw [length_append, length_cons] at hn
      have hleft := ih x.length (by omega) x rfl
      have hright := ih y.length (by omega) y rfl
      rw [replaceAll_append, replaceAll_cons_self, cons_append, singleton_append,
        decode_append_ascii _ hb, decode_cons_ascii hb, hleft, hright, decode_append_ascii _ hb, replaceAll_append,
        replaceAll_cons_self, cons_append, singleton_append]
    · grind [replaceAll_of_not_mem, mem_of_ascii_mem_decode]

theorem mem_decode_of_ascii (h : ∀ c ∈ decode s, c.toNat < 0x80) (hb : b ∈ s) :
    b < 0x80 ∧ Char.ofNat b.toNat ∈ decode s := by
  induction hn : s.length using Nat.strongRecOn generalizing s with
  | ind n ih =>
    cases s with
    | nil => cases hb
    | cons a s =>
      cases hread : decodeRune (a :: s) with
      | none =>
        rw [decode_of_none hread] at h
        exact absurd (h runeError mem_cons_self) (by decide)
      | some x =>
        have hx : decodeRune (a :: s) = some (x.1, x.2) := hread
        obtain ⟨hr, hs⟩ := eq_encodeChar hx
        have hlen := rest_length_lt hx
        rw [decode_of_some hx] at h ⊢
        have hlow : x.1 < 0x80 := by grind
        rw [encodeChar_ofNat (by omega), if_pos (by omega), singleton_append] at hs
        rw [hs] at hb
        rcases mem_cons.mp hb with rfl | hrest
        · grind [UInt8.toNat_ofNat', UInt8.lt_iff_toNat_lt]
        · grind

end BitAgent.Lib.GoString
