/-
# Protocol.SecureID — node ids that are bound to an IP address (BEP 42)

`internal/protocol/secure_id.go`. The 17 random bytes of `SecureNodeID` fill the last byte, the low bits of the
third and fifteen of the sixteen bytes between them; `copy` leaves byte 18 zero. `generated_iff` says which ids
come out of it: those that pass the verification and have this zero.
-/
import BitAgent.Dht.BtreeInvariant
import BitAgent.Dht.Ktable

namespace BitAgent.Protocol

open Dht.Ktable (ID Addr)

/-- `crc32.Checksum` with the Castagnoli table, bit by bit. -/
def crc32c (b : List UInt8) : UInt32 :=
  let shift := fun (c : UInt32) (_ : Nat) => if c &&& 1 = 1 then (c >>> 1) ^^^ 0x82F63B78 else c >>> 1
  ~~~ b.foldl (fun c x => (List.range 8).foldl shift (c ^^^ x.toUInt32)) 0xFFFFFFFF

def v4NodeIDMask : List UInt8 := [0x03, 0x0f, 0x3f, 0xff]
def v6NodeIDMask : List UInt8 := [0x01, 0x03, 0x07, 0x0f, 0x1f, 0x3f, 0x7f, 0xff]

/-- `As4` and `As16`. -/
def addrBytes {w : Nat} (bits : BitVec w) : List UInt8 :=
  (List.range (w / 8)).map fun i => UInt8.ofNat (bits.toNat >>> (w - 8 - 8 * i))

/-- The masked bytes, with `r << 5` in the first. -/
def masked (mask bytes : List UInt8) (r : UInt8) : List UInt8 :=
  (List.zipWith (· &&& ·) bytes mask).modifyHead (· ||| r <<< 5)

def maskIPForBEP42 (ip : Addr) (r : UInt8) : List UInt8 :=
  match ip with
  | .invalid => masked v6NodeIDMask (List.replicate 16 0) r
  | .v4 bits => masked v4NodeIDMask (addrBytes bits) r
  | .v6 bits _ =>
    -- `Is4In6`
    if bits >>> 32 = 0xffff then masked v4NodeIDMask (addrBytes (bits.truncate 32)) r
    else masked v6NodeIDMask (addrBytes bits) r

def secureNodeIDWithEntropy (ip : Addr) (r randLastByte byte2LowBits : UInt8) (interior : List UInt8) : ID :=
  let crc := crc32c (maskIPForBEP42 ip r)
  { bytes := (crc >>> 24).toUInt8 :: (crc >>> 16).toUInt8 ::
      (((crc >>> 8) &&& 0xf8).toUInt8 ||| (byte2LowBits &&& 7)) ::
      ((interior ++ List.replicate 16 0).take 16 ++ [randLastByte])
    length_bytes := by simp }

/-- The random bytes `rng[0]`, `rng[1]` and `rng[2:]`. -/
structure Entropy where
  randLastByte : UInt8
  byte2LowBits : UInt8
  interior : List UInt8
  length_interior : interior.length = 15

/-- `SecureNodeID`; without a valid address it is an error. -/
def secureNodeID (ip : Addr) (rng : Entropy) : Option ID :=
  if ip = .invalid then none
  else some (secureNodeIDWithEntropy ip (rng.randLastByte &&& 7) rng.randLastByte rng.byte2LowBits rng.interior)

def verifySecureNodeID (id : ID) (ip : Addr) : Bool :=
  if ip = .invalid then false
  else
    let crc := crc32c (maskIPForBEP42 ip (id.bytes.getD 19 0 &&& 7))
    id.bytes.getD 0 0 == (crc >>> 24).toUInt8 && id.bytes.getD 1 0 == (crc >>> 16).toUInt8 &&
      id.bytes.getD 2 0 &&& (0xf8 : UInt8) == ((crc >>> 8) &&& 0xf8).toUInt8

theorem high_bits (a b : UInt8) : ((a &&& 0xf8) ||| (b &&& 7)) &&& 0xf8 = a &&& 0xf8 := by
  apply UInt8.toBitVec_inj.mp
  ext i hi
  interval_cases i <;> simp

theorem high_or_low (b : UInt8) : (b &&& 0xf8) ||| (b &&& 7) = b := by
  apply UInt8.toBitVec_inj.mp
  ext i hi
  interval_cases i <;> simp

theorem exists_bytes (id : ID) : ∃ b₀ b₁ b₂ interior b₁₈ b₁₉, interior.length = 15 ∧
    id.bytes = b₀ :: b₁ :: b₂ :: (interior ++ [b₁₈, b₁₉]) := by
  obtain ⟨bytes, hlen⟩ := id
  obtain ⟨b₀, rest0, rfl⟩ := List.exists_cons_of_length_eq_add_one hlen
  obtain ⟨b₁, rest1, rfl⟩ := List.exists_cons_of_length_eq_add_one (Nat.succ.inj hlen)
  obtain ⟨b₂, rest, rfl⟩ := List.exists_cons_of_length_eq_add_one (Nat.succ.inj (Nat.succ.inj hlen))
  simp only [List.length_cons, Nat.reduceEqDiff] at hlen
  obtain ⟨b₁₈, b₁₉, hlast⟩ := List.length_eq_two.mp (show (rest.drop 15).length = 2 by simp [hlen])
  refine ⟨b₀, b₁, b₂, rest.take 15, b₁₈, b₁₉, by simp [hlen], ?_⟩
  rw [← hlast, List.take_append_drop]

/-- **What `SecureNodeID` can return**: exactly the verified ids whose byte 18 is zero. -/
theorem generated_iff (ip : Addr) (id : ID) :
    (∃ rng, secureNodeID ip rng = some id) ↔ verifySecureNodeID id ip = true ∧ id.bytes.getD 18 0 = 0 := by
  unfold secureNodeID verifySecureNodeID
  split_ifs with hip
  · simp
  obtain ⟨b0, b1, b2, interior, b18, b19, hlen, hbytes⟩ := exists_bytes id
  have hlast : id.bytes.getD 19 0 = b19 := by simp [hbytes, hlen]
  have hzero : id.bytes.getD 18 0 = b18 := by simp [hbytes, hlen]
  rw [hlast, hzero, hbytes]
  simp only [List.getD_cons_zero, List.getD_cons_succ, Bool.and_eq_true, beq_iff_eq, Option.some.injEq]
  have hfill : ∀ l : List UInt8, l.length = 15 → (l ++ List.replicate 16 0).take 16 = l ++ [0] := by
    intro l hl
    rw [List.take_append, hl, List.take_of_length_le (by omega)]
    rfl
  constructor
  · rintro ⟨rng, hid⟩
    have hcopy := congrArg (·.bytes) hid
    simp only [secureNodeIDWithEntropy, hbytes, hfill _ rng.length_interior, List.cons.injEq, List.append_assoc,
      List.singleton_append] at hcopy
    obtain ⟨h0, h1, h2, htail⟩ := hcopy
    obtain ⟨-, hends⟩ := List.append_inj htail (by rw [rng.length_interior, hlen])
    simp only [List.cons.injEq, and_true] at hends
    rw [← hends.2]
    refine ⟨⟨⟨h0.symm, h1.symm⟩, ?_⟩, hends.1.symm⟩
    rw [← h2, UInt32.toUInt8_and]
    exact high_bits _ _
  · rintro ⟨⟨⟨h0, h1⟩, h2⟩, rfl⟩
    refine ⟨⟨b19, b2, interior, hlen⟩, Dht.Btree.NodeID.ext_bytes ?_⟩
    rw [hbytes]
    simp only [secureNodeIDWithEntropy, hfill _ hlen, ← h0, ← h1, ← h2, high_or_low, List.append_assoc,
      List.singleton_append]

/-- For 124.31.75.21 the id `5fbfb8…01` with a one in byte 18 passes, and no random bytes lead to it. -/
theorem verified_not_generated :
    let id : ID := ⟨[0x5f, 0xbf, 0xb8, 0, 0, 0, 0, 0, 0, 0, 0, 0, 0, 0, 0, 0, 0, 0, 1, 1], rfl⟩
    verifySecureNodeID id (.v4 0x7c1f4b15) = true ∧ ¬ ∃ rng, secureNodeID (.v4 0x7c1f4b15) rng = some id := by
  refine ⟨by decide +kernel, fun ⟨rng, h⟩ => ?_⟩
  have hlen := rng.length_interior
  have hcopy := congrArg (fun o => o.map fun i : ID => i.bytes.getD 18 0) h
  simp [secureNodeID, secureNodeIDWithEntropy, List.take_append, hlen] at hcopy

end BitAgent.Protocol
