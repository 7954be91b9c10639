/-
# Metainfo.Pieces — the requests for the pieces of the metadata

`requestAllPieces` and the readers of messages of `metainforequester/requester.go`, and the ranges that
`readAllPieces` gives to the pieces. The bencode package is a parameter.
-/
import BitAgent.Lib.Prelude

namespace BitAgent.Metainfo.Requester

open Lib List

structure ExtDict where
  msgType : Int
  piece : Nat
  deriving DecidableEq

structure Bencode where
  marshal : ExtDict → List UInt8
  decode : List UInt8 → Option ExtDict

def metadataPieceSize : Nat := 16 * 1024
def maxMetadataSize : Nat := 10 * 1024 * 1024

def metadataPieceCount (metadataSize : Nat) : Nat :=
  let nPieces := metadataSize / metadataPieceSize
  if metadataSize % metadataPieceSize ≠ 0 then nPieces + 1 else nPieces

/-- The conversion to `uint32` drops the higher bytes. -/
def uintToBigEndian4 (i : Nat) : List UInt8 := [24, 16, 8, 0].map fun shift => UInt8.ofNat (i >>> shift)
def uint32 (b : List UInt8) : Nat := b.foldl (fun n x => n * 256 + x.toNat) 0

variable (b : Bencode) (utMetadata : UInt8)

def request (piece : Nat) : List UInt8 :=
  let extDictDump := b.marshal ⟨0, piece⟩
  uintToBigEndian4 (2 + extDictDump.length) ++ [0x14] ++ [utMetadata] ++ extDictDump

def requestAllPieces (metadataSize : Nat) : List UInt8 :=
  (range (metadataPieceCount metadataSize)).flatMap (request b utMetadata)

inductive ReadError where
  | eof | unexpectedEOF | tooLong

/-- `io.ReadFull`. -/
def readFull (r : List UInt8) (n : Nat) : Except ReadError (List UInt8 × List UInt8) :=
  if n ≤ r.length then .ok (r.splitAt n) else .error (if r = [] then .eof else .unexpectedEOF)

def readMessage (r : List UInt8) : Except ReadError (List UInt8 × List UInt8) := do
  let (lengthBytes, r) ← readFull r 4
  let length := uint32 lengthBytes
  if length > maxMetadataSize then .error .tooLong else readFull r length

theorem readFull_ok {r x rest : List UInt8} {n : Nat} :
    readFull r n = .ok (x, rest) ↔ x.length = n ∧ r = x ++ rest := by
  unfold readFull
  rw [splitAt_eq]
  constructor
  · intro h
    split_ifs at h with hn
    cases h
    exact ⟨length_take_of_le hn, (take_append_drop n r).symm⟩
  · rintro ⟨rfl, rfl⟩
    rw [if_pos (by simp), take_left, drop_left]

theorem readMessage_ok {r m rest : List UInt8} :
    readMessage r = .ok (m, rest) ↔
      ∃ l, l.length = 4 ∧ uint32 l = m.length ∧ m.length ≤ maxMetadataSize ∧ r = l ++ (m ++ rest) := by
  unfold readMessage
  rw [accepted_bind_iff]
  constructor
  · rintro ⟨⟨l, r'⟩, hl, h⟩
    obtain ⟨hlen, rfl⟩ := readFull_ok.mp hl
    dsimp only at h
    split_ifs at h with hmax
    obtain ⟨hm, rfl⟩ := readFull_ok.mp h
    exact ⟨l, hlen, hm.symm, by omega, rfl⟩
  · rintro ⟨l, hlen, hm, hmax, rfl⟩
    refine ⟨(l, m ++ rest), readFull_ok.mpr ⟨hlen, rfl⟩, ?_⟩
    dsimp only
    rw [if_neg (by omega)]
    exact readFull_ok.mpr ⟨hm.symm, rfl⟩

theorem length_of_readMessage {r m rest : List UInt8} (h : readMessage r = .ok (m, rest)) :
    rest.length < r.length := by
  obtain ⟨l, hlen, -, -, rfl⟩ := readMessage_ok.mp h
  simp only [length_append]
  omega

def readExMessage (r : List UInt8) : Except ReadError (List UInt8 × List UInt8) :=
  match _h : readMessage r with
  | .error err => .error err
  | .ok (rMessage, r') =>
    if rMessage.length < 2 then readExMessage r'
    else if rMessage.head? = some 20 then .ok (rMessage, r')
    else readExMessage r'
termination_by r.length
decreasing_by all_goals exact length_of_readMessage _h

/-- The extended messages that a stream holds up to its end. -/
inductive Reads : List UInt8 → List (List UInt8) → Prop where
  | done {r} : readExMessage r = .error .eof → Reads r []
  | message {r rMessage r' messages} : readExMessage r = .ok (rMessage, r') → Reads r' messages →
      Reads r (rMessage :: messages)

/-- What is relied on: the dictionaries of the first pieces are read back, and are short. -/
def Bencode.Fits (n : Nat) : Prop :=
  ∀ piece < n, b.decode (b.marshal ⟨0, piece⟩) = some ⟨0, piece⟩ ∧ (b.marshal ⟨0, piece⟩).length ≤ 64

theorem uint32_uintToBigEndian4 {i : Nat} (h : i < 2 ^ 32) : uint32 (uintToBigEndian4 i) = i := by
  simp [uint32, uintToBigEndian4, Nat.shiftRight_eq_div_pow]
  omega

theorem readExMessage_request {n piece : Nat} (hfits : b.Fits n) (hpiece : piece < n) (rest : List UInt8) :
    readExMessage (request b utMetadata piece ++ rest) = .ok (0x14 :: utMetadata :: b.marshal ⟨0, piece⟩, rest) := by
  have hshort := (hfits piece hpiece).2
  have hread : readMessage (request b utMetadata piece ++ rest) =
      .ok (0x14 :: utMetadata :: b.marshal ⟨0, piece⟩, rest) := by
    refine readMessage_ok.mpr ⟨uintToBigEndian4 (2 + (b.marshal ⟨0, piece⟩).length), rfl, ?_, ?_, ?_⟩
    · rw [uint32_uintToBigEndian4 (by omega), length_cons, length_cons, Nat.add_comm]
    · rw [length_cons, length_cons, maxMetadataSize]
      omega
    · simp [request]
  rw [readExMessage]
  split
  next h => simp [hread] at h
  next m r' h =>
    cases hread.symm.trans h
    simp

theorem reads_requests {n : Nat} (hfits : b.Fits n) {pieces : List Nat} (h : ∀ piece ∈ pieces, piece < n) :
    Reads (pieces.flatMap (request b utMetadata))
      (pieces.map fun piece => 0x14 :: utMetadata :: b.marshal ⟨0, piece⟩) := by
  induction pieces with
  | nil =>
    refine .done ?_
    rw [readExMessage]
    rfl
  | cons piece pieces ih =>
    rw [forall_mem_cons] at h
    exact .message (readExMessage_request b utMetadata hfits h.1 _) (ih h.2)

/-- The bytes of the metadata that `readAllPieces` takes from a piece: from `start` to `end`. -/
def InPiece (metadataSize piece offset : Nat) : Prop :=
  let start := piece * metadataPieceSize
  let expectedLength := if piece = metadataPieceCount metadataSize - 1 then metadataSize - start else metadataPieceSize
  start ≤ offset ∧ offset < start + expectedLength

theorem inPiece_iff {metadataSize piece offset : Nat} :
    piece < metadataPieceCount metadataSize ∧ InPiece metadataSize piece offset ↔
      offset < metadataSize ∧ piece = offset / metadataPieceSize := by
  unfold InPiece metadataPieceCount metadataPieceSize
  dsimp only
  split_ifs <;> omega

/-- **The requests are for all pieces**, one extended message for each, in order, and every byte of the metadata lies
in exactly one of the pieces, which hold no others. -/
theorem requests_all_pieces (metadataSize : Nat) (hfits : b.Fits (metadataPieceCount metadataSize)) :
    (∃ messages, Reads (requestAllPieces b utMetadata metadataSize) messages ∧
      (∀ m ∈ messages, m.take 2 = [0x14, utMetadata]) ∧
      messages.map (fun m => b.decode (m.drop 2)) =
        (range (metadataPieceCount metadataSize)).map fun piece => some ⟨0, piece⟩) ∧
    ∀ offset, (offset < metadataSize ↔ ∃ piece < metadataPieceCount metadataSize, InPiece metadataSize piece offset) ∧
      ∀ piece < metadataPieceCount metadataSize, ∀ piece' < metadataPieceCount metadataSize,
        InPiece metadataSize piece offset → InPiece metadataSize piece' offset → piece = piece' := by
  refine ⟨⟨_, reads_requests b utMetadata hfits fun piece => mem_range.mp, by simp, ?_⟩, fun offset => ⟨?_, ?_⟩⟩
  · rw [map_map]
    exact map_congr_left fun piece hpiece => (hfits piece (mem_range.mp hpiece)).1
  · simp only [inPiece_iff]
    grind
  · intro piece hpiece piece' hpiece' h h'
    exact (inPiece_iff.mp ⟨hpiece, h⟩).2.trans (inPiece_iff.mp ⟨hpiece', h'⟩).2.symm

/-- Bencoding, read for two pieces. -/
def twoPieces : Bencode where
  marshal d := s!"d8:msg_typei{d.msgType}e5:piecei{d.piece}ee".toUTF8.toList
  decode s := if s = "d8:msg_typei0e5:piecei0ee".toUTF8.toList then some ⟨0, 0⟩ else some ⟨0, 1⟩

theorem two_pieces_requested : ∃ messages, Reads (requestAllPieces twoPieces 3 20000) messages ∧
    messages.map (fun m => twoPieces.decode (m.drop 2)) = [some ⟨0, 0⟩, some ⟨0, 1⟩] := by
  have hfits : twoPieces.Fits (metadataPieceCount 20000) := by
    unfold Bencode.Fits
    decide +kernel
  obtain ⟨⟨messages, hreads, -, hpieces⟩, -⟩ := requests_all_pieces twoPieces 3 20000 hfits
  exact ⟨messages, hreads, hpieces⟩

end BitAgent.Metainfo.Requester
