/-
# Dht.Compact — compact lists of node infos and info hashes

`internal/protocol/dht`: `nodeaddr.go`, `nodeinfo.go` and the compact types of `msg.go`, lists of records of 26, 38
and 20 bytes. `unmarshalBinarySlice` gives no list together with an error, since its callers drop it. `net.IP` is a
byte slice of any length, nil the empty one. Left out: the bencode strings around the bytes, and the texts.
-/
import BitAgent.Lib.Records
import BitAgent.Dht.Ktable

namespace BitAgent.Dht

open Lib.Records List
open Ktable (ID)

/-! ## Addresses -/

abbrev IP := List UInt8

/-- The first twelve bytes of an IPv4 address in its 16-byte form. -/
def v4InV6Prefix : List UInt8 := [0, 0, 0, 0, 0, 0, 0, 0, 0, 0, 0xFF, 0xFF]

def to4 (ip : IP) : IP :=
  if ip.length = 4 then ip
  else if ip.length = 16 ∧ ip.take 12 = v4InV6Prefix then ip.drop 12
  else []

/-- `binary.Write` of a `uint16` with `binary.BigEndian`. -/
def putUint16 (n : UInt16) : List UInt8 := [UInt8.ofNat (n.toNat / 256), UInt8.ofNat n.toNat]

/-- `binary.BigEndian.Uint16`; its panic for fewer than two bytes does not occur below. -/
def uint16 : List UInt8 → UInt16
  | [hi, lo] => UInt16.ofNat (256 * hi.toNat + lo.toNat)
  | _ => 0

theorem uint16_putUint16 (n : UInt16) : uint16 (putUint16 n) = n := by
  apply UInt16.toNat_inj.mp
  have hn := n.toNat_lt
  simp only [uint16, putUint16, UInt16.toNat_ofNat', UInt8.toNat_ofNat']
  omega

variable {b : List UInt8}

theorem putUint16_uint16 (h : b.length = 2) : putUint16 (uint16 b) = b := by
  obtain ⟨hi, lo, rfl⟩ := length_eq_two.mp h
  grind [UInt16.toNat_ofNat', UInt8.toNat_ofNat', uint16, putUint16, UInt8.ofNat_toNat]

/-- `NodeAddr`; the port is a Go `int`. -/
structure NodeAddr where
  ip : IP
  port : Int
  deriving DecidableEq

/-- `uint16(port)`. -/
def NodeAddr.uint16Port (a : NodeAddr) : UInt16 := UInt16.ofNat (a.port % 65536).toNat

def NodeAddr.unmarshalBinary (b : List UInt8) : NodeAddr where
  ip := b.take (b.length - 2)
  port := (uint16 (b.drop (b.length - 2))).toNat

/-! ## Records -/

structure NodeInfo where
  id : ID
  addr : NodeAddr
  deriving DecidableEq

/-- `copy` into a zero id. -/
def copyID (b : List UInt8) : ID where
  bytes := (b ++ List.replicate 20 0).take 20
  length_bytes := by
    rw [length_take, length_append, length_replicate]
    omega

def NodeInfo.marshalBinary (ni : NodeInfo) : List UInt8 := ni.id.bytes ++ (ni.addr.ip ++ putUint16 ni.addr.uint16Port)

def NodeInfo.unmarshalBinary (b : List UInt8) : NodeInfo where
  id := copyID b
  addr := .unmarshalBinary (b.drop 20)

/-- The element step of `CompactIPv4NodeInfo.MarshalBinary`. -/
def NodeInfo.to4 (ni : NodeInfo) : NodeInfo := { ni with addr := { ni.addr with ip := Dht.to4 ni.addr.ip } }

inductive IDError where
  | invalidIDLength

/-- `ID.UnmarshalBinary`. -/
def unmarshalID (b : List UInt8) : Except IDError ID :=
  if b.length ≠ 20 then .error .invalidIDLength else .ok (copyID b)

def compactIPv4NodeInfo : Format NodeInfo UInt8 IDError where
  size := 26
  size_pos := by decide
  write ni := ni.to4.marshalBinary
  read b := .ok (.unmarshalBinary b)

def compactIPv6NodeInfo : Format NodeInfo UInt8 IDError where
  size := 38
  size_pos := by decide
  write := NodeInfo.marshalBinary
  read b := .ok (.unmarshalBinary b)

def compactInfohashes : Format ID UInt8 IDError where
  size := 20
  size_pos := by decide
  write id := id.bytes
  read := unmarshalID

/-! ## One record -/

def NodeInfo.PortFits (ni : NodeInfo) : Prop := 0 ≤ ni.addr.port ∧ ni.addr.port ≤ 65535

def NodeInfo.IPv4 (ni : NodeInfo) : Prop :=
  ni.addr.ip.length = 4 ∨ ni.addr.ip.length = 16 ∧ ni.addr.ip.take 12 = v4InV6Prefix

def NodeInfo.IPv6 (ni : NodeInfo) : Prop := ni.addr.ip.length = 16

variable {ni : NodeInfo}

theorem length_to4 (h : ni.IPv4) : (to4 ni.addr.ip).length = 4 := by
  unfold to4
  split_ifs with h4 hmapped
  · exact h4
  · rw [length_drop, hmapped.1]
  · exact absurd h (not_or.mpr ⟨h4, hmapped⟩)

theorem copyID_append (id : ID) (rest : List UInt8) : copyID (id.bytes ++ rest) = id := by
  unfold copyID
  congr
  rw [append_assoc, take_left' id.length_bytes]

theorem bytes_copyID (h : 20 ≤ b.length) : (copyID b).bytes = b.take 20 := by
  show (b ++ List.replicate 20 0).take 20 = b.take 20
  rw [take_append_of_le_length h]

theorem toNat_uint16Port (h : ni.PortFits) : (ni.addr.uint16Port.toNat : Int) = ni.addr.port := by
  obtain ⟨hlo, hhi⟩ := h
  unfold NodeAddr.uint16Port
  rw [UInt16.toNat_ofNat']
  omega

theorem unmarshalBinary_marshalBinary (h : ni.PortFits) :
    NodeInfo.unmarshalBinary ni.marshalBinary = ni := by
  have hport : (putUint16 ni.addr.uint16Port).length = 2 := rfl
  have haddr : NodeAddr.unmarshalBinary (ni.addr.ip ++ putUint16 ni.addr.uint16Port) = ni.addr := by
    unfold NodeAddr.unmarshalBinary
    rw [length_append, hport, Nat.add_sub_cancel, take_left, drop_left, uint16_putUint16, toNat_uint16Port h]
  unfold NodeInfo.unmarshalBinary NodeInfo.marshalBinary
  rw [copyID_append, drop_left' ni.id.length_bytes, haddr]

theorem marshalBinary_unmarshalBinary (h : 22 ≤ b.length) :
    (NodeInfo.unmarshalBinary b).marshalBinary = b := by
  have hport : uint16 ((b.drop 20).drop ((b.drop 20).length - 2)) = (NodeInfo.unmarshalBinary b).addr.uint16Port := by
    show _ = UInt16.ofNat ((((uint16 ((b.drop 20).drop ((b.drop 20).length - 2))).toNat : Int) % 65536).toNat)
    generalize uint16 ((b.drop 20).drop ((b.drop 20).length - 2)) = n
    apply UInt16.toNat_inj.mp
    have hn := n.toNat_lt
    rw [UInt16.toNat_ofNat']
    omega
  have hlast : ((b.drop 20).drop ((b.drop 20).length - 2)).length = 2 := by
    rw [length_drop, length_drop]
    omega
  unfold NodeInfo.marshalBinary
  rw [← hport, putUint16_uint16 hlast]
  show (copyID b).bytes ++ ((b.drop 20).take ((b.drop 20).length - 2) ++ _) = b
  grind [bytes_copyID, take_append_drop]

theorem compactIPv4NodeInfo_record :
    compactIPv4NodeInfo.RecordFaithful (fun ni => ni.IPv4 ∧ ni.PortFits) NodeInfo.to4 where
  length_write ni h := by
    show (ni.id.bytes ++ (to4 ni.addr.ip ++ putUint16 _)).length = 26
    rw [length_append, length_append, ni.id.length_bytes, length_to4 h.1]
    rfl
  read_write ni h := by
    show Except.ok (NodeInfo.unmarshalBinary ni.to4.marshalBinary) = _
    rw [@unmarshalBinary_marshalBinary ni.to4 h.2]
  write_read b hb := by
    replace hb : b.length = 26 := hb
    refine ⟨_, rfl, ?_⟩
    -- a decoded address has four bytes already
    have hfour : (NodeInfo.unmarshalBinary b).to4 = NodeInfo.unmarshalBinary b := by
      have hlen : (NodeInfo.unmarshalBinary b).addr.ip.length = 4 := by
        show ((b.drop 20).take ((b.drop 20).length - 2)).length = 4
        rw [length_take, length_drop]
        omega
      unfold NodeInfo.to4 to4
      rw [if_pos hlen]
    show (NodeInfo.unmarshalBinary b).to4.marshalBinary = b
    rw [hfour]
    exact marshalBinary_unmarshalBinary (by omega)

theorem compactIPv6NodeInfo_record :
    compactIPv6NodeInfo.RecordFaithful (fun ni => ni.IPv6 ∧ ni.PortFits) id where
  length_write ni h := by
    show (ni.id.bytes ++ (ni.addr.ip ++ putUint16 _)).length = 38
    rw [length_append, length_append, ni.id.length_bytes, h.1]
    rfl
  read_write ni h := by
    show Except.ok (NodeInfo.unmarshalBinary ni.marshalBinary) = _
    rw [unmarshalBinary_marshalBinary h.2]
    rfl
  write_read b hb := by
    replace hb : b.length = 38 := hb
    exact ⟨_, rfl, marshalBinary_unmarshalBinary (by omega)⟩

theorem compactInfohashes_record : compactInfohashes.RecordFaithful (fun _ => True) id where
  length_write i _ := i.length_bytes
  read_write i _ := by
    show unmarshalID i.bytes = .ok i
    unfold unmarshalID
    rw [if_neg (not_not_intro i.length_bytes)]
    have hcopy := copyID_append i []
    rw [append_nil] at hcopy
    rw [hcopy]
  write_read b hb := by
    replace hb : b.length = 20 := hb
    refine ⟨copyID b, ?_, ?_⟩
    · show unmarshalID b = _
      unfold unmarshalID
      rw [if_neg (not_not_intro hb)]
    · show (copyID b).bytes = b
      rw [bytes_copyID (by omega), ← hb, take_length]

/-! ## Lists -/

/-- **The compact encodings are faithful**: IPv4 addresses come back in 4-byte form, whole records byte by byte. -/
theorem compact_faithful : compactIPv4NodeInfo.Faithful (fun ni => ni.IPv4 ∧ ni.PortFits) NodeInfo.to4 ∧
      compactIPv6NodeInfo.Faithful (fun ni => ni.IPv6 ∧ ni.PortFits) id ∧
      compactInfohashes.Faithful (fun _ => True) id :=
  ⟨compactIPv4NodeInfo_record.faithful, compactIPv6NodeInfo_record.faithful, compactInfohashes_record.faithful⟩

/-! ## Reading with the checks of the run time -/

inductive Fault where
  | makeslice
  | sliceBounds
  | index

/-- `make([]byte, n)`. -/
def makeBytes (n : Int) : Except Fault (List UInt8) :=
  if n < 0 then .error .makeslice else .ok (List.replicate n.toNat 0)

/-- `b[lo:hi]`. -/
def slice (b : List UInt8) (lo hi : Int) : Except Fault (List UInt8) :=
  if 0 ≤ lo ∧ lo ≤ hi ∧ hi ≤ b.length then .ok ((b.take hi.toNat).drop lo.toNat) else .error .sliceBounds

/-- `NodeAddr.UnmarshalBinary` with its allocation, its slices and the index of `Uint16`. -/
def NodeAddr.decode (b : List UInt8) : Except Fault NodeAddr := do
  let zeros ← makeBytes (b.length - 2)
  let host ← slice b 0 (b.length - 2)
  let last ← slice b (b.length - 2) b.length
  if last.length < 2 then .error .index
  else .ok ⟨host.take zeros.length ++ zeros.drop host.length, (uint16 last).toNat⟩

def NodeInfo.decode (b : List UInt8) : Except Fault NodeInfo := do
  let rest ← slice b 20 b.length
  let addr ← NodeAddr.decode rest
  .ok ⟨copyID b, addr⟩

variable {b : List UInt8}

theorem slice_eq {lo hi : Nat} (hlo : lo ≤ hi) (hhi : hi ≤ b.length) : slice b lo hi = .ok ((b.take hi).drop lo) :=
  if_pos ⟨by omega, by omega, by omega⟩

theorem NodeAddr.decode_eq (h : 2 ≤ b.length) : decode b = .ok (unmarshalBinary b) := by
  have hlen : (b.length : Int) - 2 = (b.length - 2 : Nat) := by omega
  have hmake : makeBytes (b.length - 2 : Nat) = .ok (List.replicate (b.length - 2) 0) := if_neg (by omega)
  have hhost : slice b 0 (b.length - 2 : Nat) = .ok (b.take (b.length - 2)) := slice_eq (Nat.zero_le _) (by omega)
  have hlast : ¬ (b.drop (b.length - 2)).length < 2 := by
    rw [length_drop]
    omega
  simp only [decode, hlen, hmake, hhost, slice_eq (Nat.sub_le b.length 2) (Nat.le_refl _), bind, Except.bind,
    take_length, if_neg hlast]
  simp [unmarshalBinary, take_take]

theorem NodeAddr.decode_short (h : b.length < 2) : decode b = .error .makeslice := by
  have hmake : makeBytes (b.length - 2) = .error .makeslice := if_pos (by omega)
  rw [decode, hmake]
  rfl

theorem NodeInfo.decode_eq (h : 22 ≤ b.length) : decode b = .ok (unmarshalBinary b) := by
  have hrest : slice b 20 b.length = .ok (b.drop 20) := by
    have hslice := @slice_eq b 20 b.length (by omega) (Nat.le_refl _)
    rwa [take_length] at hslice
  have haddr : 2 ≤ (b.drop 20).length := by
    rw [length_drop]
    omega
  rw [decode, hrest]
  show (NodeAddr.decode (b.drop 20)).bind _ = _
  rw [NodeAddr.decode_eq haddr]
  rfl

inductive RecordError where
  | fault (f : Fault)
  | id (e : IDError)

/-- A list whose records are read with these checks. -/
def checked {α : Type} (f : Format α UInt8 IDError) (read : List UInt8 → Except RecordError α) :
    Format α UInt8 RecordError where
  size := f.size
  size_pos := f.size_pos
  write := f.write
  read := read

/-- The strings of a message that hold compact addresses; of `values`, one of its strings. -/
inductive CompactField where
  | ip
  | values
  | nodes
  | nodes6
  | samples

inductive CompactValue where
  | addr (a : NodeAddr)
  | infos (l : List NodeInfo)
  | hashes (l : List ID)

def CompactField.decode : CompactField → List UInt8 → Except (ReadError RecordError) CompactValue
  | .ip, b | .values, b => ((NodeAddr.decode b).mapError fun f => .record (.fault f)).map .addr
  | .nodes, b => ((checked compactIPv4NodeInfo fun b => (NodeInfo.decode b).mapError .fault).unmarshal b).map .infos
  | .nodes6, b => ((checked compactIPv6NodeInfo fun b => (NodeInfo.decode b).mapError .fault).unmarshal b).map .infos
  | .samples, b => ((checked compactInfohashes fun b => (unmarshalID b).mapError .id).unmarshal b).map .hashes

theorem checked_ne_fault {α : Type} {f : Format α UInt8 IDError} {read : List UInt8 → Except RecordError α}
    (hread : ∀ piece e, piece.length = f.size → read piece ≠ .error (.fault e)) (g : List α → CompactValue) :
    ¬ ∃ e, ((checked f read).unmarshal b).map g = .error (.record (.fault e)) := by
  rintro ⟨e, h⟩
  cases hlist : (checked f read).unmarshal b with
  | ok l => simp [hlist, Except.map] at h
  | error e' =>
    rw [hlist] at h
    cases h
    obtain ⟨piece, hlen, hpiece⟩ := Format.exists_of_record_error hlist
    exact hread piece e hlen hpiece

theorem NodeInfo.decode_ne_fault {piece : List UInt8} (h : 22 ≤ piece.length) (e : Fault) :
    (decode piece).mapError RecordError.fault ≠ .error (.fault e) := by
  rw [decode_eq h]
  nofun

/-- A string makes the decoder panic exactly if it is the address of an `ip` or `values` field and shorter than a
port. -/
theorem decode_faults_iff (field : CompactField) (b : List UInt8) :
    (∃ f, field.decode b = .error (.record (.fault f))) ↔ (field = .ip ∨ field = .values) ∧ b.length < 2 := by
  have haddr : (∃ f, ((NodeAddr.decode b).mapError fun f => ReadError.record (.fault f)).map CompactValue.addr =
      .error (.record (RecordError.fault f))) ↔ b.length < 2 := by
    by_cases h : b.length < 2
    · exact iff_of_true ⟨.makeslice, by rw [NodeAddr.decode_short h]; rfl⟩ h
    · refine iff_of_false (fun ⟨f, hf⟩ => ?_) h
      rw [NodeAddr.decode_eq (by omega)] at hf
      cases hf
  cases field with
  | ip => simpa [CompactField.decode] using haddr
  | values => simpa [CompactField.decode] using haddr
  | nodes =>
    exact iff_of_false (checked_ne_fault (fun _ e hlen => NodeInfo.decode_ne_fault (hlen ▸ by decide) e) _) (by simp)
  | nodes6 =>
    exact iff_of_false (checked_ne_fault (fun _ e hlen => NodeInfo.decode_ne_fault (hlen ▸ by decide) e) _) (by simp)
  | samples =>
    refine iff_of_false (checked_ne_fault (fun piece e _ => ?_) _) (by simp)
    unfold unmarshalID
    split_ifs <;> nofun

/-- An empty `ip` string. -/
theorem decode_empty_ip : CompactField.decode .ip [] = .error (.record (.fault .makeslice)) := rfl

end BitAgent.Dht
