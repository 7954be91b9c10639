/-
# Metainfo.Peerrep — which peers are left alone after failures

`internal/protocol/metainfo/peerrep`: `Decide`, `RecordSuccess` and `RecordFailure`, each under the mutex, so calls
are a sequence. `Streak` says of one peer what counts: the class of its last failures, their number in a row, and the
time of the last (`decide_after`). Times are nanoseconds since the zero time; the clock does not go back. Left out:
the bound of the cache and the expiry of its entries.
-/
import Mathlib

namespace BitAgent.Metainfo.Peerrep

inductive ErrorClass where
  | unknown
  | dialTimeout
  | networkError
  | handshakeFail
  | noUtMetadata
  | metadataTimeout
  | krpcError
  | connectionRefused
  | peerClosed
  | hashMismatch
  deriving DecidableEq

/-- `Config`, with its nine schedules by their class. -/
structure Config where
  enabled : Bool
  enforce : Bool
  backoff : ErrorClass → List Int

def Config.scheduleFor (cfg : Config) (cls : ErrorClass) : List Int :=
  let sched := if cls = .unknown then [] else cfg.backoff cls
  if sched.length > 0 then sched else cfg.backoff .networkError

/-- `peerState`; `suppressedUntil` is 0 for the zero time. -/
structure PeerState where
  consecutiveFailures : Nat := 0
  lastClass : ErrorClass := .unknown
  suppressedUntil : Int := 0

structure Decision where
  allow : Bool
  wouldSkip : Bool := false
  lastClass : ErrorClass := .unknown

/-- `Decide` on the entry of a peer: its answer, and the entry afterwards. -/
def decide (cfg : Config) (st : Option PeerState) (now : Nat) : Decision × Option PeerState :=
  if !cfg.enabled then ({ allow := true }, st)
  else
    match st with
    | none => ({ allow := true }, st)
    | some x =>
      if x.suppressedUntil = 0 then ({ allow := true }, st)
      else if now < x.suppressedUntil then ({ allow := !cfg.enforce, wouldSkip := true, lastClass := x.lastClass }, st)
      else ({ allow := true, lastClass := x.lastClass }, some { x with suppressedUntil := 0 })

def recordSuccess (cfg : Config) (st : Option PeerState) : Option PeerState :=
  if !cfg.enabled then st else some { st.getD {} with consecutiveFailures := 0, suppressedUntil := 0 }

def PeerState.fail (cfg : Config) (st : PeerState) (now : Nat) (cls : ErrorClass) : PeerState :=
  let failures := (if cls ≠ st.lastClass then 0 else st.consecutiveFailures) + 1
  let schedule := cfg.scheduleFor cls
  let idx := if failures - 1 ≥ schedule.length then schedule.length - 1 else failures - 1
  { consecutiveFailures := failures
    lastClass := cls
    suppressedUntil := if schedule.length = 0 then 0 else now + schedule.getD idx 0 }

def recordFailure (cfg : Config) (st : Option PeerState) (now : Nat) (cls : ErrorClass) : Option PeerState :=
  if !cfg.enabled then st else some ((st.getD {}).fail cfg now cls)

/-! ## Sequences of calls -/

inductive Op where
  | decide
  | success
  | failure (cls : ErrorClass)

structure Call (Peer : Type) where
  now : Nat
  peer : Peer
  op : Op

/-- The entry of the peer of a call, after the call. -/
def Call.entry {Peer : Type} (cfg : Config) (c : Call Peer) (st : Option PeerState) : Option PeerState :=
  match c.op with
  | .decide => (decide cfg st c.now).2
  | .success => recordSuccess cfg st
  | .failure cls => recordFailure cfg st c.now cls

variable {Peer : Type} [DecidableEq Peer]

abbrev Store (Peer : Type) := Peer → Option PeerState

def step (cfg : Config) (s : Store Peer) (c : Call Peer) : Store Peer :=
  Function.update s c.peer (c.entry cfg (s c.peer))

/-- The failures of one class in a row, and the time of the last. -/
structure Streak where
  cls : ErrorClass
  count : Nat
  last : Nat

/-- The streak of a peer after a further call, which counts only if about this peer. -/
def Streak.step (peer : Peer) (k : Option Streak) (c : Call Peer) : Option Streak :=
  if c.peer ≠ peer then k
  else
    match c.op with
    | .decide => k
    | .success => none
    | .failure cls =>
      match k with
      | some k => some ⟨cls, if k.cls = cls then k.count + 1 else 1, c.now⟩
      | none => some ⟨cls, 1, c.now⟩

/-- When the suppression ends: entry number `min n length` of the schedule after the last failure. -/
def Streak.until (cfg : Config) (k : Streak) : Option Int :=
  let schedule := cfg.scheduleFor k.cls
  (schedule[min k.count schedule.length - 1]?).map (k.last + ·)

def Shows (cfg : Config) (now : Nat) (st : Option PeerState) : Option Streak → Prop
  | none => ∀ x, st = some x → x.consecutiveFailures = 0 ∧ x.suppressedUntil = 0
  | some k => ∃ x, st = some x ∧ x.consecutiveFailures = k.count ∧ x.lastClass = k.cls ∧
      (x.suppressedUntil = (k.until cfg).getD 0 ∨ x.suppressedUntil = 0 ∧ ∀ t, k.until cfg = some t → t ≤ now)

variable {cfg : Config} {now : Nat} {st : Option PeerState} {k : Option Streak} {peer : Peer}

theorem Shows.mono {now' : Nat} (h : Shows cfg now st k) (hle : now ≤ now') : Shows cfg now' st k := by
  cases k with
  | none => exact h
  | some k =>
    obtain ⟨x, hx, hcount, hcls, hset | ⟨hzero, hover⟩⟩ := h
    · exact ⟨x, hx, hcount, hcls, .inl hset⟩
    · refine ⟨x, hx, hcount, hcls, .inr ⟨hzero, fun t ht => ?_⟩⟩
      have hend := hover t ht
      omega

theorem suppressedUntil_fail (st : PeerState) (cls : ErrorClass) : (st.fail cfg now cls).suppressedUntil =
      (Streak.until cfg ⟨cls, (st.fail cfg now cls).consecutiveFailures, now⟩).getD 0 := by
  simp only [PeerState.fail, Streak.until]
  generalize (if cls ≠ st.lastClass then 0 else st.consecutiveFailures) = n
  generalize cfg.scheduleFor cls = schedule
  by_cases hnil : schedule = []
  · simp [hnil]
  have hpos := List.length_pos_iff.mpr hnil
  have hidx : (if n + 1 - 1 ≥ schedule.length then schedule.length - 1 else n + 1 - 1) =
      min (n + 1) schedule.length - 1 := by
    split_ifs <;> omega
  have hlt : min (n + 1) schedule.length - 1 < schedule.length := by omega
  rw [if_neg (by omega), hidx, List.getD_eq_getElem?_getD, List.getElem?_eq_getElem hlt]
  rfl

theorem Shows.call (henabled : cfg.enabled = true) {c : Call Peer} (h : Shows cfg c.now st k) :
    Shows cfg c.now (c.entry cfg st) (Streak.step c.peer k c) := by
  obtain ⟨now, peer, op⟩ := c
  simp only [Call.entry, Streak.step, ne_eq, not_true_eq_false, if_false]
  cases op with
  | decide =>
    simp only [decide, henabled, Bool.not_true, Bool.false_eq_true, if_false]
    cases st with
    | none => exact h
    | some x =>
      dsimp only
      split_ifs with hzero hbefore
      · exact h
      · exact h
      · -- the suppression is over, and is cleared
        cases k with
        | none => exact absurd (h x rfl).2 hzero
        | some k =>
          obtain ⟨_, ⟨⟩, hcount, hcls, hset | ⟨hcleared, -⟩⟩ := h
          · refine ⟨_, rfl, hcount, hcls, .inr ⟨rfl, fun t ht => ?_⟩⟩
            rw [ht, Option.getD_some] at hset
            omega
          · exact absurd hcleared hzero
  | success =>
    simp only [recordSuccess, henabled, Bool.not_true, Bool.false_eq_true, if_false]
    rintro _ ⟨⟩
    exact ⟨rfl, rfl⟩
  | failure cls =>
    simp only [recordFailure, henabled, Bool.not_true, Bool.false_eq_true, if_false]
    have hset := @suppressedUntil_fail cfg now (st.getD {}) cls
    cases k with
    | none =>
      have hcount : ((st.getD {}).fail cfg now cls).consecutiveFailures = 1 := by
        have hzero : (st.getD {}).consecutiveFailures = 0 := by
          cases st with
          | none => rfl
          | some x => exact (h x rfl).1
        simp [PeerState.fail, hzero]
      exact ⟨_, rfl, hcount, rfl, .inl (hcount ▸ hset)⟩
    | some k =>
      obtain ⟨x, rfl, hn, hcls, -⟩ := h
      have hcount : (x.fail cfg now cls).consecutiveFailures = if k.cls = cls then k.count + 1 else 1 := by
        simp only [PeerState.fail, hn, hcls, ne_eq, ite_not, @eq_comm _ cls]
        split_ifs <;> rfl
      exact ⟨_, rfl, hcount, rfl, .inl (hcount ▸ hset)⟩

/-- By induction on the calls from their end. -/
theorem shows_run (henabled : cfg.enabled = true) {calls : List (Call Peer)} (peer : Peer)
    (hclock : calls.Pairwise fun a b => a.now ≤ b.now) (hnow : ∀ c ∈ calls, c.now ≤ now) :
    Shows cfg now (calls.foldl (step cfg) (fun _ => none) peer) (calls.foldl (Streak.step peer) none) := by
  induction calls using List.reverseRecOn generalizing now with
  | nil => exact nofun
  | append_singleton calls c ih =>
    rw [List.pairwise_append] at hclock
    have hbefore := ih hclock.1 fun a ha => hclock.2.2 a ha c (List.mem_singleton_self c)
    simp only [List.foldl_append, List.foldl_cons, List.foldl_nil, step]
    refine Shows.mono ?_ (hnow c (by simp))
    by_cases hpeer : c.peer = peer
    · subst hpeer
      rw [Function.update_self]
      exact hbefore.call henabled
    · rw [Function.update_of_ne (Ne.symm hpeer), Streak.step, if_pos hpeer]
      exact hbefore

theorem Shows.wouldSkip_iff (h : Shows cfg now st k) :
    (∃ x, st = some x ∧ x.suppressedUntil ≠ 0 ∧ now < x.suppressedUntil) ↔
      ∃ k' t, k = some k' ∧ k'.until cfg = some t ∧ (now : Int) < t := by
  cases k with
  | none => exact iff_of_false (fun ⟨x, hx, hne, _⟩ => hne (h x hx).2) (by simp)
  | some k =>
    obtain ⟨x, rfl, -, -, hset | ⟨hzero, hover⟩⟩ := h
    · cases hend : k.until cfg with
      | none => simp_all
      | some t =>
        rw [hend, Option.getD_some] at hset
        constructor
        · rintro ⟨_, ⟨⟩, -, hlt⟩
          exact ⟨k, t, rfl, hend, hset ▸ hlt⟩
        · rintro ⟨_, t', ⟨⟩, ht, hlt⟩
          cases hend.symm.trans ht
          exact ⟨x, rfl, by omega, by omega⟩
    · refine iff_of_false (by simp [hzero]) ?_
      rintro ⟨_, t, ⟨⟩, ht, hlt⟩
      exact absurd (hover t ht) (Int.not_le.mpr hlt)

/-- **What `Decide` says of a peer** after any calls: it is skipped exactly before the end of the suppression that its
own streak has earned, and refused if that is enforced. -/
theorem decide_after (cfg : Config) (calls : List (Call Peer)) (peer : Peer) (now : Nat)
    (hclock : calls.Pairwise fun a b => a.now ≤ b.now) (hnow : ∀ c ∈ calls, c.now ≤ now) :
    let d := (decide cfg (calls.foldl (step cfg) (fun _ => none) peer) now).1
    (d.wouldSkip = true ↔ cfg.enabled = true ∧ ∃ k t, calls.foldl (Streak.step peer) none = some k ∧
      k.until cfg = some t ∧ now < t) ∧ d.allow = !(d.wouldSkip && cfg.enforce) := by
  by_cases henabled : cfg.enabled = true
  swap
  · simp [decide, henabled]
  have hskip := (shows_run henabled peer hclock hnow).wouldSkip_iff
  simp only [← hskip, decide, henabled, Bool.not_true, Bool.false_eq_true, if_false, true_and]
  cases calls.foldl (step cfg) (fun _ => none) peer with
  | none => simp
  | some x =>
    dsimp only
    split_ifs with hzero hbefore <;> simp_all

/-- Two failures of a class in a row, with another peer in between: the second entry counts. -/
theorem second_failure_suppresses :
    let cfg : Config := ⟨true, true, fun _ => [60, 300]⟩
    let calls : List (Call Bool) := [⟨10, true, .failure .dialTimeout⟩, ⟨20, false, .success⟩, ⟨80, true, .decide⟩,
      ⟨90, true, .failure .dialTimeout⟩]
    (decide cfg (calls.foldl (step cfg) (fun _ => none) true) 389).1.wouldSkip = true :=
  (decide_after _ _ true 389 (by decide) (by decide)).1.mpr ⟨rfl, ⟨.dialTimeout, 2, 90⟩, 390, rfl, rfl, by decide⟩

end BitAgent.Metainfo.Peerrep
