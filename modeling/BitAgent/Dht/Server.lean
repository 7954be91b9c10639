/-
# Dht.Server — the KRPC server: replies to queries, and queries of its own

`internal/protocol/dht/server`: `server.go` and `id_issuer.go`. Two results.

  * `handleQuery` marks every reply as a response, also one with an error, and `Query` looks for an error in messages
    of type `"e"` only: the querier is told that the return data is missing (`responder_error_not_received`).
  * Steps are the points where queries and incoming responses touch the issuer, the pending queries and the channel
    of one query; a handler may send at any time after it looked a channel up. A query returns only a response with
    its own transaction id (`responses_match_queries`).
-/
import Mathlib
import BitAgent.Lib.Run
import BitAgent.Dht.Krpc

namespace BitAgent.Dht

open Lib List
open Ktable (AddrPort)

/-! ## Replies -/

def replyError (err : GoError) : KrpcError :=
  match err.asKrpc with
  | some e => e
  | none => ⟨errorCodeServerError, .ofString "server error"⟩

/-- `handleQuery`: the message that it sends to the querier. -/
def handleQuery (respond : RecvMsg → Except GoError Return) (msg : RecvMsg) : Msg :=
  match respond msg with
  | .error retErr => { t := msg.msg.t, y := yResponse, e := some (replyError retErr) }
  | .ok ret => { t := msg.msg.t, y := yResponse, r := some ret }

/-- The end of `Query`. `res.Msg.E` becomes an `error` before it is compared with nil, so a missing error is an error
with a nil pointer. -/
def queryResult (res : RecvMsg) : RecvMsg × Option GoError :=
  if res.msg.y = yError then (res, some (.krpcPtr res.msg.e))
  else if res.msg.r.isNone then (res, some (.new (.ofString "return data missing from response")))
  else (res, none)

/-- What `Query` gives when the reply arrives as a datagram from `from_`. -/
def repliedResult (respond : RecvMsg → Except GoError Return) (msg : RecvMsg) (from_ : AddrPort) :
    Option (RecvMsg × Option GoError) :=
  (handleQuery respond msg).transmitted.map fun m => queryResult ⟨m, from_⟩

/-- The querier gets the KRPC error `e`: its code and its message. -/
def Gets (result : Option (RecvMsg × Option GoError)) (e : KrpcError) : Prop :=
  ∃ res err, result = some (res, some err) ∧ err.shown = some e

theorem repliedResult_of_error {respond : RecvMsg → Except GoError Return} {msg : RecvMsg} {err : GoError}
    (h : respond msg = .error err) (from_ : AddrPort) :
    repliedResult respond msg from_ = some (⟨{ t := msg.msg.t, y := yResponse, e := some (replyError err) }, from_⟩,
        some (.new (.ofString "return data missing from response"))) := by
  unfold repliedResult handleQuery
  rw [h, Msg.transmitted_eq]
  rfl

/-- **No error of a responder reaches the querier**: neither the returned one, alone or wrapped, nor the server error.
-/
theorem responder_error_not_received (respond : RecvMsg → Except GoError Return) (msg : RecvMsg)
    (from_ : AddrPort) {err : GoError} (hreturns : respond msg = .error err) (e : KrpcError) :
    ¬ Gets (repliedResult respond msg from_) e := by
  rintro ⟨res, err', hresult, hshown⟩
  rw [repliedResult_of_error hreturns] at hresult
  cases hresult
  cases hshown

/-- A `find_node` query without a target. -/
def findNothing : RecvMsg where
  msg := { q := .ofString "find_node", a := some { id := Ktable.zeroID }, t := [0], y := yQuery }
  from_ := ⟨.v4 0x0A000001#32, 6881⟩

def lonelyResponder : Responder where
  nodeID := Ktable.zeroID
  table := ⟨fun _ => [], fun _ => none, [], [], 0⟩
  announceToken := fun _ _ _ => []
  sampleInfoHashesInterval := 10

def Responder.serve (r : Responder) (allow : Bool) (msg : RecvMsg) : Except GoError Return :=
  (r.limited allow msg).mapError .krpc

theorem missing_target_not_received : lonelyResponder.serve true findNothing = .error (.krpc errMissingArguments) ∧
      ¬ Gets (repliedResult (lonelyResponder.serve true) findNothing ⟨.v4 0x0A000002#32, 6881⟩) errMissingArguments :=
  have hreturns : lonelyResponder.serve true findNothing = .error (.krpc errMissingArguments) := by decide
  ⟨hreturns, responder_error_not_received _ _ _ hreturns _⟩

theorem missing_target_reported_as_missing_data :
    lonelyResponder.serve true findNothing = .error (.krpc errMissingArguments) ∧
      (repliedResult (lonelyResponder.serve true) findNothing ⟨.v4 0x0A000002#32, 6881⟩).map
          (fun result => result.2.bind GoError.shown) ≠ some (some errMissingArguments) := by
  decide

/-! ## Transaction ids -/

/-- `binary.PutUvarint`: seven bits a byte, low first, the high bit set on all but the last. -/
def putUvarint : (room : Nat) → Nat → GoString
  | 0, x => [UInt8.ofNat x]
  | room + 1, x =>
    if x < 0x80 then [UInt8.ofNat x]
    else UInt8.ofNat (x % 0x80 + 0x80) :: putUvarint room (x / 0x80)

def maxVarintLen64 : Nat := 10

/-- The id that `Issue` makes of its counter. -/
def transactionID (n : UInt64) : GoString := putUvarint (maxVarintLen64 - 1) n.toNat

theorem putUvarint_injective {room x y : Nat} (hx : x < 0x80 ^ (room + 1)) (hy : y < 0x80 ^ (room + 1))
    (h : putUvarint room x = putUvarint room y) : x = y := by
  have hbyte : ∀ {a b : Nat}, a < 256 → b < 256 → UInt8.ofNat a = UInt8.ofNat b → a = b := by grind [UInt8.toNat_ofNat']
  induction room generalizing x y with
  | zero =>
    rw [Nat.zero_add, Nat.pow_one] at hx hy
    exact hbyte (by omega) (by omega) (head_eq_of_cons_eq h)
  | succ room ih =>
    rw [Nat.pow_succ] at hx hy
    unfold putUvarint at h
    split_ifs at h with hlow hlow' hlow'
    · grind
    · -- the first byte tells one-byte ids from longer ones
      grind
    · grind
    · grind

theorem transactionID_injective {m n : UInt64} (h : transactionID m = transactionID n) : m = n := by
  have hroom : ∀ k : UInt64, k.toNat < 0x80 ^ (maxVarintLen64 - 1 + 1) := by
    intro k
    have hk := k.toNat_lt
    grind [maxVarintLen64]
  exact UInt64.toNat_inj.mp (putUvarint_injective (hroom m) (hroom n) h)

/-! ## Queries -/

/-- How a `Query` ends. -/
inductive Outcome where
  | sendError
  | timeout
  | response (r : RecvMsg) (err : Option GoError)

/-- Where a `Query` is. -/
inductive Phase where
  /-- It has an id and a channel. -/
  | issued
  /-- The channel is in `queries`. -/
  | registered
  /-- The query was sent; the call waits in its `select`. -/
  | waiting
  /-- The outcome is set and the deferred deletion is due. -/
  | leaving (outcome : Outcome)
  | returned (outcome : Outcome)

/-- What a `Query` returns, or is about to return. -/
def Phase.outcome : Phase → Option Outcome
  | .leaving o => some o
  | .returned o => some o
  | _ => none

/-- A call of `Query`: its id, the message in its channel, and where it is. -/
structure QueryCall where
  id : GoString
  channel : Option RecvMsg := none
  phase : Phase := .issued

/-- A goroutine in `handleResponse`: before the lookup, or with a channel that it sends to. -/
inductive Handler where
  | looking (msg : RecvMsg)
  | sending (msg : RecvMsg) (call : Nat)
  | done

/-- The server. A channel is known by the number of its call. -/
structure Server where
  next : UInt64 := 0
  queries : GoString → Option Nat := fun _ => none
  calls : List QueryCall := []
  handlers : List Handler := []

inductive Event where
  /-- A `Query` begins: `Issue`, and the channel is made. -/
  | query
  /-- It enters its channel into `queries`. -/
  | register (call : Nat)
  | send (call : Nat) (ok : Bool)
  /-- Its `select` takes the message that is in the channel. -/
  | take (call : Nat)
  /-- Its `select` takes the deadline, or the end of its context. -/
  | expire (call : Nat)
  | leave (call : Nat)
  /-- A response from the network starts a `handleResponse`. -/
  | receive (msg : RecvMsg)
  /-- A handler looks the id of its message up. -/
  | look (handler : Nat)
  | deliver (handler : Nat)

namespace Server

def move (s : Server) (call : Nat) (c : QueryCall) (phase : Phase) : Server :=
  { s with calls := s.calls.set call { c with phase := phase } }

/-- One step. An event that cannot happen in a state changes nothing. -/
def step (s : Server) : Event → Server
  | .query => { s with next := s.next + 1, calls := s.calls ++ [{ id := transactionID s.next }] }
  | .register i =>
    match s.calls[i]? with
    | some c =>
      match c.phase with
      | .issued => { s.move i c .registered with queries := Function.update s.queries c.id (some i) }
      | _ => s
    | none => s
  | .send i ok =>
    match s.calls[i]? with
    | some c =>
      match c.phase with
      | .registered => s.move i c (if ok then .waiting else .leaving .sendError)
      | _ => s
    | none => s
  | .take i =>
    match s.calls[i]? with
    | some c =>
      match c.phase, c.channel with
      | .waiting, some res =>
        s.move i { c with channel := none } (.leaving (.response (queryResult res).1 (queryResult res).2))
      | _, _ => s
    | none => s
  | .expire i =>
    match s.calls[i]? with
    | some c =>
      match c.phase with
      | .waiting => s.move i c (.leaving .timeout)
      | _ => s
    | none => s
  | .leave i =>
    match s.calls[i]? with
    | some c =>
      match c.phase with
      | .leaving outcome => { s.move i c (.returned outcome) with queries := Function.update s.queries c.id none }
      | _ => s
    | none => s
  | .receive msg =>
    -- `read` hands only these two types of message to `handleResponse`
    if msg.msg.y = yResponse ∨ msg.msg.y = yError then { s with handlers := s.handlers ++ [.looking msg] }
    else s
  | .look h =>
    match s.handlers[h]? with
    | some (.looking msg) =>
      match s.queries msg.msg.t with
      | some i => { s with handlers := s.handlers.set h (.sending msg i) }
      | none => { s with handlers := s.handlers.set h .done }
    | _ => s
  | .deliver h =>
    match s.handlers[h]? with
    | some (.sending msg i) =>
      match s.calls[i]? with
      | some c =>
        match c.channel with
        -- the channel holds one message; a second sender waits
        | some _ => s
        | none =>
          { s with calls := s.calls.set i { c with channel := some msg },
                   handlers := s.handlers.set h .done }
      | none => s
    | _ => s

end Server

def serverAfter (run : List Event) : Server := run.foldl Server.step {}

/-! ## Every interleaving -/

/-- Call `i` has the id issued for it, and what it finds or returns carries that id. -/
structure QueryCall.Sound (i : Nat) (c : QueryCall) : Prop where
  id : c.id = transactionID (.ofNat i)
  channel : ∀ msg, c.channel = some msg → msg.msg.t = c.id
  outcome : ∀ r err, c.phase.outcome = some (.response r err) → r.msg.t = c.id

/-- A handler sends a message to the call with its id. -/
def Handler.Sound : Handler → Prop
  | .sending msg i => msg.msg.t = transactionID (.ofNat i)
  | _ => True

structure Server.Sound (s : Server) : Prop where
  next : s.next = .ofNat s.calls.length
  calls : ∀ (i : Nat) (c : QueryCall), s.calls[i]? = some c → c.Sound i
  queries : ∀ t i, s.queries t = some i → t = transactionID (.ofNat i)
  handlers : ∀ h ∈ s.handlers, h.Sound

namespace Server.Sound

variable {s : Server} (hs : s.Sound)

include hs in
theorem setCall {i : Nat} {c' : QueryCall} (hc' : c'.Sound i) :
    Server.Sound { s with calls := s.calls.set i c' } where
  next := by
    rw [length_set]
    exact hs.next
  calls j c hj := by
    rw [List.getElem?_set] at hj
    split_ifs at hj with hij hlen
    · grind
    · exact hs.calls j c hj
  queries := hs.queries
  handlers := hs.handlers

include hs in
theorem setHandler {h : Nat} {x : Handler} (hx : x.Sound) :
    Server.Sound { s with handlers := s.handlers.set h x } where
  next := hs.next
  calls := hs.calls
  queries := hs.queries
  handlers y hy := by
    rcases mem_or_eq_of_mem_set hy with hold | rfl
    · exact hs.handlers y hold
    · exact hx

include hs in
theorem updateQueries {i : Nat} {c : QueryCall} (hc : s.calls[i]? = some c) {entry : Option Nat}
    (hentry : entry = some i ∨ entry = none) :
    Server.Sound { s with queries := Function.update s.queries c.id entry } where
  next := hs.next
  calls := hs.calls
  queries t j ht := by
    replace ht : Function.update s.queries c.id entry t = some j := ht
    rw [Function.update_apply] at ht
    split_ifs at ht with hid
    · rcases hentry with rfl | rfl
      · cases ht
        rw [hid]
        exact (hs.calls i c hc).id
      · cases ht
    · exact hs.queries t j ht
  handlers := hs.handlers

include hs in
theorem move {i : Nat} {c : QueryCall} (hc : s.calls[i]? = some c) {phase : Phase}
    (hphase : ∀ r err, phase.outcome ≠ some (.response r err)) : (s.move i c phase).Sound := by
  have hsound := hs.calls i c hc
  exact hs.setCall ⟨hsound.id, hsound.channel, fun r err h => absurd h (hphase r err)⟩

include hs in
theorem query : (s.step .query).Sound where
  next := by
    show s.next + 1 = UInt64.ofNat (s.calls ++ [_]).length
    rw [length_append, length_singleton, hs.next, UInt64.ofNat_add]
    rfl
  calls i c hi := by
    replace hi : (s.calls ++ [({ id := transactionID s.next } : QueryCall)])[i]? = some c := hi
    rw [List.getElem?_append] at hi
    split_ifs at hi with hold
    · exact hs.calls i c hi
    · -- the new call stands behind the others
      have hlast : i = s.calls.length := by grind
      subst hlast
      rw [Nat.sub_self] at hi
      cases hi
      refine ⟨?_, fun _ h => (by cases h), fun _ _ h => (by cases h)⟩
      rw [← hs.next]
  queries := hs.queries
  handlers := hs.handlers

include hs in
theorem register (i : Nat) : (s.step (.register i)).Sound := by
  simp only [Server.step]
  split
  next c hc =>
    split
    next =>
      have hmoved : (s.move i c .registered).Sound := hs.move hc (by rintro r err ⟨⟩)
      have hlen : i < s.calls.length := (List.getElem?_eq_some_iff.mp hc).1
      have hget : (s.move i c .registered).calls[i]? = some { c with phase := .registered } := by
        show (s.calls.set i _)[i]? = _
        rw [List.getElem?_set_self hlen]
      exact hmoved.updateQueries hget (.inl rfl)
    next => exact hs
  next => exact hs

include hs in
theorem take (i : Nat) : (s.step (.take i)).Sound := by
  simp only [Server.step]
  split
  next c hc =>
    split
    next res _ hres =>
      have hsound := hs.calls i c hc
      -- the response is the message of the channel
      have hfirst : (queryResult res).1 = res := by
        unfold queryResult
        split_ifs <;> rfl
      refine hs.setCall ⟨hsound.id, fun _ h => (by cases h), fun r err h => ?_⟩
      cases h
      rw [hfirst]
      exact hsound.channel res hres
    next => exact hs
  next => exact hs

include hs in
theorem leave (i : Nat) : (s.step (.leave i)).Sound := by
  simp only [Server.step]
  split
  next c hc =>
    split
    next outcome hphase =>
      have hsound := hs.calls i c hc
      have hmoved : (s.move i c (.returned outcome)).Sound := by
        refine hs.setCall ⟨hsound.id, hsound.channel, fun r err h => hsound.outcome r err ?_⟩
        rw [hphase]
        exact h
      have hlen : i < s.calls.length := (List.getElem?_eq_some_iff.mp hc).1
      have hget : (s.move i c (.returned outcome)).calls[i]? = some { c with phase := .returned outcome } := by
        show (s.calls.set i _)[i]? = _
        rw [List.getElem?_set_self hlen]
      exact hmoved.updateQueries hget (.inr rfl)
    next => exact hs
  next => exact hs

include hs in
theorem look (h : Nat) : (s.step (.look h)).Sound := by
  simp only [Server.step]
  split
  next msg _ =>
    split
    next i hi => exact hs.setHandler (hs.queries msg.msg.t i hi)
    next => exact hs.setHandler trivial
  next => exact hs

include hs in
theorem deliver (h : Nat) : (s.step (.deliver h)).Sound := by
  simp only [Server.step]
  split
  next msg i hh =>
    split
    next c hc =>
      split
      next => exact hs
      next =>
        have hsound := hs.calls i c hc
        have hid : msg.msg.t = transactionID (.ofNat i) := hs.handlers _ (mem_of_getElem? hh)
        have hset : Server.Sound { s with calls := s.calls.set i { c with channel := some msg } } := by
          refine hs.setCall ⟨hsound.id, fun m hm => ?_, hsound.outcome⟩
          cases hm
          rw [hid]
          exact hsound.id.symm
        exact hset.setHandler trivial
    next => exact hs
  next => exact hs

include hs in
/-- **Step lemma.** -/
theorem step (a : Event) : (s.step a).Sound := by
  cases a with
  | query => exact hs.query
  | register i => exact hs.register i
  | send i ok =>
    simp only [Server.step]
    split
    next c hc =>
      split
      next =>
        cases ok with
        | false => exact hs.move hc (by rintro r err ⟨⟩)
        | true => exact hs.move hc (by rintro r err ⟨⟩)
      next => exact hs
    next => exact hs
  | take i => exact hs.take i
  | expire i =>
    simp only [Server.step]
    split
    next c hc =>
      split
      next => exact hs.move hc (by rintro r err ⟨⟩)
      next => exact hs
    next => exact hs
  | leave i => exact hs.leave i
  | receive msg =>
    simp only [Server.step]
    split_ifs
    · refine ⟨hs.next, hs.calls, hs.queries, fun x hx => ?_⟩
      rcases mem_append.mp hx with hold | hnew
      · exact hs.handlers x hold
      · rw [mem_singleton.mp hnew]
        trivial
    · exact hs
  | look h => exact hs.look h
  | deliver h => exact hs.deliver h

end Server.Sound

/-- **Run lemma.** -/
theorem sound_serverAfter (run : List Event) : (serverAfter run).Sound := by
  refine Run.foldl_invariant Server.step ?_ (fun _ a hs => hs.step a) run
  exact ⟨rfl, fun i c h => (by cases h), fun t i h => (by cases h), fun x hx => (by cases hx)⟩

/-- A `Query` begins. -/
def Event.isQuery : Event → Bool
  | .query => true
  | _ => false

theorem length_calls_step (s : Server) (a : Event) :
    (s.step a).calls.length = s.calls.length + if a.isQuery then 1 else 0 := by
  cases a with
  | query => exact length_append
  | _ => grind [Server.step, Server.move, Event.isQuery]

theorem length_calls_serverAfter (run : List Event) : (serverAfter run).calls.length = run.countP Event.isQuery := by
  induction run using List.reverseRecOn with
  | nil => rfl
  | append_singleton run a ih => grind [serverAfter, length_calls_step]

/-- **Responses go to their queries.** After every interleaving with fewer than 2^64 queries begun, a response that a
query returns carries its own transaction id, and no two queries have one id. -/
theorem responses_match_queries (run : List Event) (hissued : run.countP Event.isQuery < 2 ^ 64) :
    (∀ (i : Nat) (c : QueryCall) (r : RecvMsg) (err : Option GoError), (serverAfter run).calls[i]? = some c →
        c.phase.outcome = some (.response r err) → r.msg.t = c.id) ∧
      ∀ (i j : Nat) (c c' : QueryCall), (serverAfter run).calls[i]? = some c →
        (serverAfter run).calls[j]? = some c' → c.id = c'.id → i = j := by
  have hsound := sound_serverAfter run
  refine ⟨fun i c r err hc => (hsound.calls i c hc).outcome r err, ?_⟩
  intro i j c c' hc hc' hid
  have hlen := length_calls_serverAfter run
  have hi := (List.getElem?_eq_some_iff.mp hc).1
  have hj := (List.getElem?_eq_some_iff.mp hc').1
  rw [(hsound.calls i c hc).id, (hsound.calls j c' hc').id] at hid
  grind [transactionID_injective, UInt64.toNat_ofNat']

/-- Two queries; the response to the second comes twice, and the first gets none. -/
def answeredTwice : List Event :=
  let res : RecvMsg :=
    { msg := { t := transactionID 1, y := yError, e := some errMissingArguments },
      from_ := ⟨.v4 0x0A000002#32, 6881⟩ }
  [.query, .register 0, .query, .register 1, .send 0 true, .send 1 true, .receive res, .receive res, .look 0,
    .look 1, .deliver 0, .take 1, .deliver 1, .expire 0, .leave 1, .leave 0]

theorem responses_match_queries_answeredTwice :
    ((serverAfter answeredTwice).calls.map QueryCall.id = [transactionID 0, transactionID 1]) ∧
      ∃ c r err, (serverAfter answeredTwice).calls[1]? = some c ∧ c.phase.outcome = some (.response r err) ∧
        r.msg.t = c.id := by
  have hissued : answeredTwice.countP Event.isQuery < 2 ^ 64 := by decide
  exact ⟨rfl, _, _, _, rfl, rfl, (responses_match_queries answeredTwice hissued).1 1 _ _ _ rfl rfl⟩

end BitAgent.Dht
