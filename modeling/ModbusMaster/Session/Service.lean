import ModbusMaster.Session.Basic
namespace ModbusMaster

inductive Relevance where
  | matched (r : Response)
  | orphan
  | undecodable
  deriving Repr

-- A response belongs to a request if unit and function agree, and where the frame
-- has one, the transaction.
def Response.answers (r : Response) (e : Entry) : Bool :=
  (match r.transaction with
    | some t => t == e.id
    | none => true) && r.unit == e.device.unit && r.function == e.function.code

def relevance (format : Format) (e : Entry) (frame : Bytes) : Relevance :=
  match Response.decode format frame with
  | .error _ => .undecodable
  | .ok r => if r.answers e then .matched r else .orphan

def Response.outcome (r : Response) : Outcome :=
  match r.exception with
  | some code => .exception code
  | none => .success

namespace Session

def finish (s : Session) (now : Nat) (e : Entry) (outcome : Outcome) (r : Option Response) :
    Session × List SessionEvent :=
  ({s with phase:=.idle},[.done (e.complete outcome r (Time.Instant.ofMicros now)) e.handler])

-- The line has failed: the connection is given up, and the request ends. `started`
-- is when its time began to count.
def fail (s : Session) (now : Nat) (e : Entry) (started : Nat) (f : Fault) : Session × List SessionEvent :=
  finish {s with line:=none,metrics:=s.metrics.failure (now-started)} now e (.transport f.message) none

def turn (s : Session) (timing : Timing) (now : Nat) : Nat :=
  match s.lastSent with
  | some last => last+timing.delayUs
  | none => now

def begin (s : Session) (timing : Timing) (now : Nat) (e : Entry) : Session :=
  {s with phase:=.pausing ⟨e,now,timing.maxRetries⟩ (s.turn timing now)}

def takeUp (s : Session) (device : Device) (timing : Timing) (now : Nat) (e : Entry) : Session :=
  match s.line with
  | some _ => s.begin timing now e
  | none =>
    let d := device.dial s.usage.dialed
    {s with phase:=.dialing e (now+d.delayUs) d.failure,usage:={s.usage with dialed:=s.usage.dialed+1}}

def connected (s : Session) (timing : Timing) (now : Nat) (e : Entry) : Option Fault → Session × List SessionEvent
  | some f =>
    let (s,out) := s.fail now e now f
    (s,.connect false::out)
  | none => (begin {s with line:=some ⟨[],0⟩} timing now e,[.connect true])

def transmit (s : Session) (device : Device) (timing : Timing) (now : Nat) (x : Attempt) (l : Line) :
    Session × List SessionEvent :=
  let answer := device.answer s.usage.sent x.entry.frame
  let s := {s with lastSent:=some now,usage:={s.usage with sent:=s.usage.sent+1}}
  match answer with
  | .refused f =>
    let (s,out) := s.fail now x.entry x.started f
    (s,.sendFailed x.entry.frame::out)
  | .answered arrivals =>
    let inbox := l.inbox ++ arrivals.map fun a => (now+a.delayUs,a.item)
    ({s with line:=some ⟨inbox,l.sent+1⟩,phase:=.awaiting x (now+timing.responseUs)},[.send x.entry.frame])

def receive (s : Session) (format : Format) (now : Nat) (x : Attempt) :
    Except Fault Bytes → Session × List SessionEvent
  | .error f => if f.isTransport then s.fail now x.entry x.started f else (s,[])
  | .ok frame => match relevance format x.entry frame with
    | .matched r =>
      finish {s with metrics:=s.metrics.success (now-x.started)} now x.entry r.outcome (some r)
    | .orphan => ({s with metrics:={s.metrics with orphans:=s.metrics.orphans+1}},[])
    | .undecodable => (s,[])

def expire (s : Session) (timing : Timing) (now : Nat) (x : Attempt) : Session × List SessionEvent :=
  let m := {s.metrics with timeouts:=s.metrics.timeouts+1}
  match x.left with
  | n+1 =>
    ({s with metrics:={m with retries:=m.retries+1},phase:=.pausing {x with left:=n} (s.turn timing now)},[])
  | 0 => finish {s with metrics:=m.failure (now-x.started)} now x.entry .timeout none

-- The next thing that a session does at an instant, if there is one. What has
-- arrived comes before the deadline.
def step (s : Session) (device : Device) (format : Format) (timing : Timing) (now : Nat) :
    Option (Session × List SessionEvent) :=
  match s.phase with
  | .idle => match s.queue.pop false with
    | (.item e,q) => some (takeUp {s with queue:=q} device timing now e,[])
    | _ => none
  | .dialing e ready failure => if ready ≤ now then some (s.connected timing now e failure) else none
  | .pausing x ready =>
    if ready ≤ now then
      match s.line with
      | some l => some (s.transmit device timing now x l)
      | none => some (s.fail now x.entry x.started (.connection "transport closed"))
    else none
  | .awaiting x deadline =>
    match s.line with
    | none => some (s.expire timing now x)
    | some l => match l.inbox with
      | (ready,item)::rest =>
        if ready ≤ now then some (receive {s with line:=some {l with inbox:=rest}} format now x item)
        else if deadline ≤ now then some (s.expire timing now x)
        else none
      | [] => if deadline ≤ now then some (s.expire timing now x) else none
  | .stopped => none

-- Requests still queued, sendings left, and the rank of the phase: each step lowers
-- the first of them that it changes, or takes an arrival.
def busy (timing : Timing) : Phase → Nat
  | .idle => 0
  | .dialing .. => timing.maxRetries+1
  | .pausing x _ => x.left+1
  | .awaiting x _ => x.left+1
  | .stopped => 0

def rank : Phase → Nat
  | .dialing .. => 2
  | .pausing .. => 1
  | _ => 0

def weight (timing : Timing) (s : Session) : Nat × Nat × Nat × Nat :=
  (s.queue.len,busy timing s.phase,rank s.phase,s.inbox.length)

def Less : Nat × Nat × Nat × Nat → Nat × Nat × Nat × Nat → Prop :=
  Prod.Lex (· < ·) (Prod.Lex (· < ·) (Prod.Lex (· < ·) (· < ·)))

theorem take_len {n : Nat} {q r : PriorityQueue} {e : Entry} (h : PriorityQueue.take n q = (some e,r)) :
    r.len < q.len := by
  fun_induction PriorityQueue.take n q with
  | case1 => simp at h
  | case2 n x rest hq =>
    simp only [Prod.mk.injEq] at h
    obtain ⟨_,rfl⟩ := h
    simp [PriorityQueue.len,hq]
  | case3 n hq ih => exact ih h

theorem pop_len {q r : PriorityQueue} {e : Entry} (h : q.pop false = (.item e,r)) : r.len < q.len := by
  unfold PriorityQueue.pop at h
  simp only [Bool.false_eq_true,if_false] at h
  split at h
  · rename_i taken
    simp only [Prod.mk.injEq,BoundedQueue.Taken.item.injEq] at h
    obtain ⟨rfl,rfl⟩ := h
    exact take_len taken
  · simp at h

theorem weight_idle {timing : Timing} {s t : Session} (hq : t.queue = s.queue) (hp : t.phase = .idle)
    (hb : 0 < busy timing s.phase) : Less (weight timing t) (weight timing s) := by
  simp only [weight,hq,hp,Less,busy]
  exact .right _ (.left _ _ hb)

theorem weight_fail {timing : Timing} {s : Session} {now : Nat} {e : Entry} {started : Nat} {f : Fault}
    (hb : 0 < busy timing s.phase) : Less (weight timing (s.fail now e started f).1) (weight timing s) :=
  weight_idle rfl rfl hb

theorem weight_expire {timing : Timing} {s : Session} {now : Nat} {x : Attempt} {deadline : Nat}
    (hp : s.phase = .awaiting x deadline) : Less (weight timing (s.expire timing now x).1) (weight timing s) := by
  unfold expire
  split
  · rename_i n hn
    simp only [weight,hp,Less,busy,hn]
    exact .right _ (.left _ _ (by simp))
  · exact weight_idle rfl rfl (by simp [hp,busy])

theorem step_lessens {device : Device} {format : Format} {timing : Timing} {now : Nat} {s t : Session}
    {out : List SessionEvent} (h : s.step device format timing now = some (t,out)) :
    Less (weight timing t) (weight timing s) := by
  unfold step at h
  split at h
  · rename_i hp
    split at h
    · rename_i e q popped
      simp only [Option.some.injEq,Prod.mk.injEq] at h
      obtain ⟨rfl,_⟩ := h
      have hl := pop_len popped
      unfold takeUp
      split <;> exact .left _ _ hl
    · cases h
  · rename_i e ready failure hp
    split at h
    · simp only [Option.some.injEq] at h
      have ht := congrArg Prod.fst h
      simp only at ht
      subst ht
      cases failure with
      | some f => exact weight_fail (e:=e) (f:=f) (by simp [hp,busy])
      | none =>
        simp only [connected,begin,weight,hp,busy,rank,Less]
        exact .right _ (.right _ (.left _ _ (by omega)))
    · cases h
  · rename_i x ready hp
    split at h
    · split at h
      · rename_i l hl
        simp only [Option.some.injEq] at h
        have ht := congrArg Prod.fst h
        simp only at ht
        subst ht
        unfold transmit
        dsimp only
        split
        · exact weight_idle rfl rfl (by simp [hp,busy])
        · simp only [weight,hp,busy,rank,Less]
          exact .right _ (.right _ (.left _ _ (by omega)))
      · simp only [Option.some.injEq] at h
        have ht := congrArg Prod.fst h
        simp only at ht
        subst ht
        exact weight_fail (by simp [hp,busy])
    · cases h
  · rename_i x deadline hp
    split at h
    · simp only [Option.some.injEq] at h
      have ht := congrArg Prod.fst h
      simp only at ht
      subst ht
      exact weight_expire hp
    · rename_i l hl
      split at h
      · rename_i ready item rest hi
        split at h
        · simp only [Option.some.injEq] at h
          have ht := congrArg Prod.fst h
          simp only at ht
          subst ht
          have taken : ∀ m, Less (weight timing {s with line:=some {l with inbox:=rest},metrics:=m}) (weight timing s) := by
            intro m
            have less : rest.length < l.inbox.length := by simp [hi]
            simp only [weight,inbox,hl,Less]
            exact .right _ (.right _ (.right _ less))
          unfold receive
          split
          · split
            · exact weight_idle rfl rfl (by simp [hp,busy])
            · exact taken s.metrics
          · split
            · exact weight_idle rfl rfl (by simp [hp,busy])
            · exact taken _
            · exact taken s.metrics
        · split at h
          · simp only [Option.some.injEq] at h
            have ht := congrArg Prod.fst h
            simp only at ht
            subst ht
            exact weight_expire hp
          · cases h
      · split at h
        · simp only [Option.some.injEq] at h
          have ht := congrArg Prod.fst h
          simp only at ht
          subst ht
          exact weight_expire hp
        · cases h
  · cases h

def run (device : Device) (format : Format) (timing : Timing) (now : Nat) (s : Session) : Session × List SessionEvent :=
  match _h : s.step device format timing now with
  | none => (s,[])
  | some (t,out) =>
    let (t,more) := run device format timing now t
    (t,out ++ more)
  termination_by weight timing s
  decreasing_by exact step_lessens _h

def current? (s : Session) : Option Entry :=
  match s.phase with
  | .dialing e _ _ => some e
  | .pausing x _ => some x.entry
  | .awaiting x _ => some x.entry
  | _ => none

def halt (now : Nat) (s : Session) : Session × List SessionEvent :=
  if s.phase matches .stopped then (s,[]) else
  let (queued,q) := s.queue.close
  let ended := s.current?.toList ++ queued
  let closing := match s.line with
    | some l => [SessionEvent.close l.sent]
    | none => []
  ({s with queue:=q,phase:=.stopped,line:=none},
    (ended.map fun e => .done (e.complete .shutdown none (Time.Instant.ofMicros now)) e.handler) ++ closing)

end Session
end ModbusMaster
