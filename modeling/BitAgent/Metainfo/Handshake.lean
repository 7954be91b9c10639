/-
# Metainfo.Handshake — what is recorded about a peer whose handshake is bad

`btHandshake` of `metainforequester/requester.go`, from the 68 bytes of the reply, and `classifyForPeerRep`, which
finds the class in the text of the error; two of the three errors of the handshake match no pattern
(`classified_iff`).
-/
import BitAgent.Dht.Ktable
import BitAgent.Metainfo.Peerrep

namespace BitAgent.Metainfo

open Peerrep (ErrorClass)

/-- What `errors.Is`, `errors.As` and `Error` say of an error. -/
structure RequestError where
  msg : String
  deadlineExceeded : Bool := false
  canceled : Bool := false
  timeout : Bool := false
  opError : Bool := false
  deriving DecidableEq

def containsAny (s : String) (subs : List String) : Bool :=
  subs.any fun sub => s.toList.tails.any fun rest => sub.toList.isPrefixOf rest

def classifyForPeerRep (err : RequestError) : ErrorClass :=
  if err.deadlineExceeded then .dialTimeout
  else if err.canceled then .unknown
  else if containsAny err.msg ["info hash mismatch", "wrong info hash", "info_hash mismatch"] then .hashMismatch
  else if containsAny err.msg ["connection refused"] then .connectionRefused
  else if containsAny err.msg ["connection reset by peer", "broken pipe", "unexpected EOF",
    "use of closed network connection", "connection closed"] then .peerClosed
  else if containsAny err.msg ["no ut_metadata", "extension not supported", "no extension"] then .noUtMetadata
  else if containsAny err.msg ["no route to host", "network unreachable", "host unreachable"] then .networkError
  else if err.timeout then
    if containsAny err.msg ["metadata", "ut_metadata", "ext", "extended"] then .metadataTimeout else .dialTimeout
  else if err.opError then .networkError
  else if containsAny err.msg ["handshake", "bt handshake"] then .handshakeFail
  else if containsAny err.msg ["metadata", "piece", "ut_metadata"] then .metadataTimeout
  else if containsAny err.msg ["EOF"] then .peerClosed
  else .unknown

/-- `peer_protocol.Protocol`. -/
def protocol : List UInt8 := 19 :: "BitTorrent protocol".toList.map fun c => UInt8.ofNat c.toNat

structure HandshakeInfo where
  peerID : List UInt8
  peerExtensionBits : List UInt8
  deriving DecidableEq

/-- `GetBit`. -/
def getBit (pex : List UInt8) (bit : Nat) : Bool := (pex.getD (7 - bit / 8) 0).toNat.testBit (bit % 8)

def extensionBitLtep : Nat := 20

/-- What `io.ReadFull` has read. -/
abbrev Reply := { bytes : List UInt8 // bytes.length = 68 }

/-- `btHandshake` once the reply is there; a connection that ends before is an error of the network. -/
def btHandshake (infoHash : Dht.Ktable.ID) (reply : Reply) : Except RequestError HandshakeInfo :=
  let peerExBits := (reply.val.drop 20).take 8
  if !protocol.isPrefixOf reply.val then .error { msg := "invalid handshake response received" }
  else if !getBit peerExBits extensionBitLtep then .error { msg := "peer does not support the extension protocol" }
  else if (reply.val.drop 28).take 20 ≠ infoHash.bytes then .error { msg := "infohash mismatch" }
  else .ok ⟨(reply.val.drop 48).take 20, peerExBits⟩

/-- What is wrong with a reply, by the class that stands for it. -/
inductive Wrong (infoHash : Dht.Ktable.ID) (reply : Reply) : ErrorClass → Prop
  | protocol (h : protocol.isPrefixOf reply.val = false) : Wrong infoHash reply .handshakeFail
  | extension (h : getBit ((reply.val.drop 20).take 8) extensionBitLtep = false) : Wrong infoHash reply .noUtMetadata
  | hash (h : (reply.val.drop 28).take 20 ≠ infoHash.bytes) : Wrong infoHash reply .hashMismatch

theorem classify_handshake_errors :
    classifyForPeerRep { msg := "invalid handshake response received" } = .handshakeFail ∧
      classifyForPeerRep { msg := "peer does not support the extension protocol" } = .unknown ∧
      classifyForPeerRep { msg := "infohash mismatch" } = .unknown := by
  decide +kernel

/-- **When the recorded class fits**: exactly if the protocol prefix is wrong or nothing is. A missing extension bit
and another info hash are both recorded as unknown. -/
theorem classified_iff (infoHash : Dht.Ktable.ID) (reply : Reply) :
    (∀ err, btHandshake infoHash reply = .error err → Wrong infoHash reply (classifyForPeerRep err)) ↔
      Wrong infoHash reply .handshakeFail ∨ ∀ cls, ¬ Wrong infoHash reply cls := by
  obtain ⟨hproto, hbit, hhash⟩ := classify_handshake_errors
  cases hp : protocol.isPrefixOf reply.val with
  | false =>
    have hrun : btHandshake infoHash reply = .error { msg := "invalid handshake response received" } := by
      rw [btHandshake, hp]
      rfl
    refine iff_of_true (fun err herr => ?_) (.inl (.protocol hp))
    cases hrun.symm.trans herr
    rw [hproto]
    exact .protocol hp
  | true =>
    have hright : ¬ Wrong infoHash reply .handshakeFail := by
      rintro ⟨hwrong⟩
      exact Bool.false_ne_true (hwrong.symm.trans hp)
    cases hb : getBit ((reply.val.drop 20).take 8) extensionBitLtep with
    | false =>
      have hrun : btHandshake infoHash reply = .error { msg := "peer does not support the extension protocol" } := by
        rw [btHandshake, hp, hb]
        rfl
      refine iff_of_false (fun h => ?_) (not_or_intro hright fun h => h _ (.extension hb))
      have hclass := h _ hrun
      rw [hbit] at hclass
      cases hclass
    | true =>
      by_cases hh : (reply.val.drop 28).take 20 = infoHash.bytes
      · have hrun : btHandshake infoHash reply =
            .ok ⟨(reply.val.drop 48).take 20, (reply.val.drop 20).take 8⟩ := by
          rw [btHandshake, hp, hb, if_neg (by simp), if_neg (by simp), if_neg (not_not_intro hh)]
        refine iff_of_true (by simp [hrun]) (.inr fun cls hwrong => ?_)
        cases hwrong <;> simp_all
      · have hrun : btHandshake infoHash reply = .error { msg := "infohash mismatch" } := by
          rw [btHandshake, hp, hb, if_neg (by simp), if_neg (by simp), if_pos hh]
        refine iff_of_false (fun h => ?_) (not_or_intro hright fun h => h _ (.hash hh))
        have hclass := h _ hrun
        rw [hhash] at hclass
        cases hclass

/-- A reply that is right but for its info hash. -/
theorem other_hash_unknown :
    let reply : Reply := ⟨protocol ++ [0, 0, 0, 0, 0, 0x10, 0, 0] ++ List.replicate 40 1, by decide⟩
    let err : RequestError := { msg := "infohash mismatch" }
    btHandshake Dht.Ktable.zeroID reply = .error err ∧ classifyForPeerRep err = .unknown := by
  decide +kernel

def withBit (pex : List UInt8) (bit : Nat) (on : Bool) : List UInt8 :=
  let mask : UInt8 := 1 <<< UInt8.ofNat (bit % 8)
  pex.modify (7 - bit / 8) fun b => if on then b ||| mask else b &&& ~~~mask

def newPeerExtensionBits (bits : List Nat) : List UInt8 := bits.foldl (withBit · · true) (.replicate 8 0)

def extensionBitDht : Nat := 0

def myExBits : List UInt8 := newPeerExtensionBits [extensionBitDht, extensionBitLtep]

/-- What `btHandshake` sends. -/
def handshakeBytes (infoHash clientID : Dht.Ktable.ID) : List UInt8 :=
  protocol ++ (myExBits ++ (infoHash.bytes ++ clientID.bytes))

/-- The 68 bytes of a handshake of a peer that supports the extension protocol. -/
def IsHandshake (infoHash : Dht.Ktable.ID) (reply : List UInt8) (info : HandshakeInfo) : Prop :=
  info.peerExtensionBits.length = 8 ∧ info.peerID.length = 20 ∧ getBit info.peerExtensionBits extensionBitLtep = true ∧
    reply = protocol ++ (info.peerExtensionBits ++ (infoHash.bytes ++ info.peerID))

variable {infoHash : Dht.Ktable.ID} {info : HandshakeInfo}

theorem isHandshake_of_btHandshake {reply : Reply} (h : btHandshake infoHash reply = .ok info) :
    IsHandshake infoHash reply.val info := by
  obtain ⟨reply, hlen⟩ := reply
  have hproto : protocol.length = 20 := by decide
  unfold btHandshake at h
  dsimp only at h
  split_ifs at h with hprefix hbit hsame
  cases h
  obtain ⟨rest, rfl⟩ : protocol <+: reply := by simpa using hprefix
  have hdrop (n : Nat) : (protocol ++ rest).drop (20 + n) = rest.drop n := by
    rw [← List.drop_drop, List.drop_left' hproto]
  rw [List.length_append, hproto] at hlen
  refine ⟨?_, ?_, by simpa using hbit, ?_⟩
  · simp [hdrop 0]
    omega
  · simp [hdrop 28]
    omega
  · rw [← not_not.mp hsame, hdrop 0, hdrop 8, hdrop 28, List.take_of_length_le (l := rest.drop 28) (by simp; omega)]
    rw [show rest.drop 28 = (rest.drop 8).drop 20 by simp, List.take_append_drop]
    exact (congrArg (protocol ++ ·) (List.take_append_drop 8 rest)).symm

theorem IsHandshake.length {bytes : List UInt8} (h : IsHandshake infoHash bytes info) : bytes.length = 68 := by
  obtain ⟨hbits, hid, -, rfl⟩ := h
  have hproto : protocol.length = 20 := by decide
  simp [hproto, hbits, infoHash.length_bytes, hid]

theorem btHandshake_of_isHandshake {reply : Reply} (h : IsHandshake infoHash reply.val info) :
    btHandshake infoHash reply = .ok info := by
  obtain ⟨peerID, bits⟩ := info
  obtain ⟨reply, hlen⟩ := reply
  obtain ⟨hbits, hid, hbit, rfl⟩ := h
  dsimp only at hbits hid hbit ⊢
  have hproto : protocol.length = 20 := by decide
  have hhash := infoHash.length_bytes
  have h20 : (protocol ++ (bits ++ (infoHash.bytes ++ peerID))).drop 20 = _ := List.drop_left' hproto
  have h28 : (protocol ++ (bits ++ (infoHash.bytes ++ peerID))).drop (20 + 8) = infoHash.bytes ++ peerID := by
    rw [← List.drop_drop, h20, List.drop_left' hbits]
  have h48 : (protocol ++ (bits ++ (infoHash.bytes ++ peerID))).drop (28 + 20) = peerID := by
    rw [← List.drop_drop, h28, List.drop_left' hhash]
  unfold btHandshake
  dsimp only
  rw [h20, h28, h48, List.take_left' hbits, List.take_left' hhash, hbit, List.take_of_length_le hid.le,
    List.isPrefixOf_iff_prefix.mpr (List.prefix_append ..)]
  simp

theorem isHandshake_handshakeBytes (infoHash clientID : Dht.Ktable.ID) :
    IsHandshake infoHash (handshakeBytes infoHash clientID) ⟨clientID.bytes, myExBits⟩ := by
  have hmine : myExBits.length = 8 ∧ getBit myExBits extensionBitLtep = true := by decide +kernel
  exact ⟨hmine.1, clientID.length_bytes, hmine.2, rfl⟩

/-- **What is accepted** is exactly a handshake for the info hash, and peers that run this code accept each other. -/
theorem handshake_accepts_iff (infoHash : Dht.Ktable.ID) :
    (∀ (reply : Reply) info, btHandshake infoHash reply = .ok info ↔ IsHandshake infoHash reply.val info) ∧
    ∀ clientID, ∃ hlen, btHandshake infoHash ⟨handshakeBytes infoHash clientID, hlen⟩ =
      .ok ⟨clientID.bytes, myExBits⟩ := by
  constructor
  · exact fun reply info => ⟨isHandshake_of_btHandshake, btHandshake_of_isHandshake⟩
  · intro clientID
    have hsent := isHandshake_handshakeBytes infoHash clientID
    exact ⟨hsent.length, btHandshake_of_isHandshake hsent⟩

end BitAgent.Metainfo
