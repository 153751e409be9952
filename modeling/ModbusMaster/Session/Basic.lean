import ModbusMaster.Queue.Priority
import ModbusMaster.Session.Device
import ModbusMaster.Session.Metrics
import ModbusMaster.Timing
namespace ModbusMaster

-- A session serves one device or line: one request at a time, the most urgent of its queue.

structure Line where
  inbox : List (Nat × Except Fault Bytes)
  sent : Nat
  deriving Inhabited

structure Attempt where
  entry : Entry
  started : Nat
  left : Nat
  deriving Repr, Inhabited

inductive Phase where
  | idle
  | dialing (entry : Entry) (ready : Nat) (failure : Option Fault)
  | pausing (x : Attempt) (ready : Nat)
  | awaiting (x : Attempt) (deadline : Nat)
  | stopped
  deriving Inhabited

inductive SessionState where
  | idle
  | sending
  | awaitingResponse
  | draining
  deriving Repr, DecidableEq

def SessionState.label : SessionState → String
  | idle => "Idle"
  | sending => "Sending"
  | awaitingResponse => "AwaitingResponse"
  | draining => "Draining"

structure Usage where
  dialed : Nat
  sent : Nat
  deriving Repr, Inhabited

structure Session where
  key : Peer
  queue : PriorityQueue
  phase : Phase
  line : Option Line
  lastSent : Option Nat
  metrics : Metrics
  usage : Usage
  deriving Inhabited

inductive SessionEvent where
  | connect (ok : Bool)
  | send (frame : Bytes)
  | sendFailed (frame : Bytes)
  | close (sent : Nat)
  | done (c : Completion) (handler : Handler)
  deriving Repr

namespace Session

def create (key : Peer) (usage : Usage) : Session :=
  ⟨key,PriorityQueue.empty,.idle,none,none,Metrics.empty,usage⟩

-- Between two sendings of one request it still counts as awaiting.
def state (s : Session) (timing : Timing) : SessionState :=
  match s.phase with
  | .idle => .idle
  | .dialing .. => .idle
  | .pausing x _ => if x.left = timing.maxRetries then .idle else .awaitingResponse
  | .awaiting .. => .awaitingResponse
  | .stopped => .draining

def inbox (s : Session) : List (Nat × Except Fault Bytes) :=
  match s.line with
  | some l => l.inbox
  | none => []

def timer? (s : Session) : Option Nat :=
  match s.phase with
  | .idle => none
  | .dialing _ ready _ => some ready
  | .pausing _ ready => some ready
  | .awaiting _ deadline => match s.inbox with
    | (ready,_)::_ => some (min ready deadline)
    | [] => some deadline
  | .stopped => none

end Session
end ModbusMaster
