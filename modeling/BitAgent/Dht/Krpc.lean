/-
# Dht.Krpc — KRPC messages, their errors, and the responder

`internal/protocol/dht`: the messages of `msg.go` and `dht.go`, the error of `error.go` with its own bencode form,
and `responder/responder.go` behind the limiter. The logging, metrics and discovery layers are left out; so is the
write of `announce_peer`. The routing table (`Lookups`), the limiter's verdict and the announce token are parameters.
The bencode library is faithful, so sending a message changes at most its error (`Msg.transmitted`).
-/
import BitAgent.Lib.GoString
import BitAgent.Dht.Compact

namespace BitAgent.Dht

open Lib
open Ktable (ID AddrPort Addr)

/-! ## Errors -/

/-- `dht.Error`. -/
structure KrpcError where
  code : Int64
  msg : GoString
  deriving DecidableEq

def errorCodeGenericError : Int64 := 201
def errorCodeServerError : Int64 := 202
def errorCodeProtocolError : Int64 := 203
def errorCodeMethodUnknown : Int64 := 204

inductive BValue where
  | int (n : Int64)
  | str (s : GoString)
  | list (vs : List BValue)
  | dict (kvs : List (GoString × BValue))

def KrpcError.marshalBencode (e : KrpcError) : BValue := .list [.int e.code, .str e.msg]

/-- `Error.UnmarshalBencode`; the panics of the list case are recovered and end as an error. -/
def KrpcError.unmarshalBencode : BValue → Option KrpcError
  | .list (.int code :: .str msg :: _) => some ⟨code, msg⟩
  | .list _ => none
  | .str msg => some ⟨0, msg⟩
  | _ => none

/-- A Go `error`. -/
inductive GoError where
  /-- A `dht.Error`. -/
  | krpc (e : KrpcError)
  /-- A `*dht.Error`; the pointer may be nil and the error is not. -/
  | krpcPtr (e : Option KrpcError)
  /-- `errors.New`. -/
  | new (text : GoString)
  /-- `fmt.Errorf` with `%w`. -/
  | wrap (text : GoString) (inner : GoError)
  deriving DecidableEq

/-- `errors.As` with a `*dht.Error` target: the chain's first `dht.Error`, not a pointer to one. -/
def GoError.asKrpc : GoError → Option KrpcError
  | .krpc e => some e
  | .wrap _ inner => inner.asKrpc
  | _ => none

/-- Code and message of an error that is or wraps a `dht.Error` or a pointer to one. -/
def GoError.shown : GoError → Option KrpcError
  | .krpc e => some e
  | .krpcPtr e => e
  | .wrap _ inner => inner.shown
  | .new _ => none

/-! ## Messages -/

/-- `MsgArgs`, what the responder reads of it. -/
structure MsgArgs where
  id : ID
  infoHash : ID := Ktable.zeroID
  target : ID := Ktable.zeroID
  token : GoString := []

/-- `Return`, what the responder fills in. -/
structure Return where
  id : ID
  nodes : List NodeInfo := []
  token : Option GoString := none
  values : List NodeAddr := []
  interval : Option Int64 := none
  num : Option Int64 := none
  samples : Option (List ID) := none
  deriving DecidableEq

/-- `Msg`, less the fields `IP`, `ReadOnly` and `ClientID`, which the server does not read. -/
structure Msg where
  q : GoString := []
  a : Option MsgArgs := none
  t : GoString
  y : GoString
  r : Option Return := none
  e : Option KrpcError := none

def yQuery : GoString := .ofString "q"
def yResponse : GoString := .ofString "r"
def yError : GoString := .ofString "e"

structure RecvMsg where
  msg : Msg
  from_ : AddrPort

/-- A message after `bencode.Marshal` on one side and `bencode.Unmarshal` on the other. -/
def Msg.transmitted (m : Msg) : Option Msg :=
  match m.e with
  | none => some m
  | some e => (KrpcError.unmarshalBencode e.marshalBencode).map fun e' => { m with e := some e' }

theorem Msg.transmitted_eq (m : Msg) : m.transmitted = some m := by
  unfold Msg.transmitted
  cases he : m.e with
  | none => rfl
  | some e =>
    obtain ⟨q, a, t, y, r, e'⟩ := m
    cases he
    rfl

/-! ## The responder -/

def errMissingArguments : KrpcError := ⟨errorCodeProtocolError, .ofString "missing arguments"⟩
def errInvalidToken : KrpcError := ⟨errorCodeProtocolError, .ofString "invalid token"⟩
def errMethodUnknown : KrpcError := ⟨errorCodeMethodUnknown, .ofString "method Unknown"⟩
def errTooManyRequests : KrpcError := ⟨errorCodeGenericError, .ofString "too many requests"⟩

/-- What the responder looks up in the routing table. -/
structure Lookups where
  /-- `GetClosestNodes`. -/
  closestNodes : ID → List NodeInfo
  /-- `GetHashOrClosestNodes`: the peers of a known hash, else the closest nodes. -/
  hashPeers : ID → Option (List NodeAddr)
  /-- `SampleHashesAndNodes`. -/
  sampleHashes : List ID
  sampleNodes : List NodeInfo
  totalHashes : Int64

structure Responder where
  nodeID : ID
  table : Lookups
  announceToken : ID → ID → Addr → GoString
  sampleInfoHashesInterval : Int64

def Responder.respond (r : Responder) (msg : RecvMsg) : Except KrpcError Return :=
  match msg.msg.a with
  | none => .error errMissingArguments
  | some args =>
    let token := r.announceToken args.infoHash args.id msg.from_.addr
    let method := msg.msg.q
    if method = .ofString "ping" then .ok { id := r.nodeID }
    else if method = .ofString "find_node" then
      if Ktable.isZero args.target then .error errMissingArguments
      else .ok { id := r.nodeID, nodes := r.table.closestNodes args.target }
    else if method = .ofString "get_peers" then
      if Ktable.isZero args.infoHash then .error errMissingArguments
      else
        match r.table.hashPeers args.infoHash with
        | some peers => .ok { id := r.nodeID, values := peers, token := some token }
        | none => .ok { id := r.nodeID, nodes := r.table.closestNodes args.infoHash, token := some token }
    else if method = .ofString "announce_peer" then
      if Ktable.isZero args.infoHash then .error errMissingArguments
      else if args.token ≠ token then .error errInvalidToken
      else .ok { id := r.nodeID }
    else if method = .ofString "sample_infohashes" then
      .ok { id := r.nodeID, nodes := r.table.sampleNodes, samples := some r.table.sampleHashes,
            num := some r.table.totalHashes, interval := some r.sampleInfoHashesInterval }
    else .error errMethodUnknown

/-- `responderLimiter.Respond`; `allow` is the limiter's verdict on the sender. -/
def Responder.limited (r : Responder) (allow : Bool) (msg : RecvMsg) : Except KrpcError Return :=
  if !allow then .error errTooManyRequests else r.respond msg

end BitAgent.Dht
