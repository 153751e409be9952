import ModbusMaster.Gateway
import ModbusMaster.Proofs.Stack.Ownership
namespace ModbusMaster

-- Runs of a station in moves that may stand in any order, and what happens on the way.
-- Sessions run when they like, responders when they are ready or not, points are polled
-- and intents carried out at any instant. The clock may even go back.

inductive Move where
  | configure (t : Timing)
  | start
  | call (t : Target) (op : Operation) (listening : Bool)
  | handle (raw : String)
  | poll (p : Point)
  | clock (now : Nat)
  | serve (key : Peer)
  | respond (w : Nat)
  | hire (count : Nat)
  -- workers that run from now on leave
  | dismiss
  | halt
  | clear
  | drain
  | arrange (agenda : List Task) (intents : BoundedQueue String) (writers : Pool) (poller : Option Poller)

-- What can be said of a run from outside. `told` also says whether the id was still in
-- use when the handler was called.
inductive Happening where
  | accepted (t : Ticket)
  | issued (r : OpenRequest) (t : Ticket)
  | told (c : Completion) (h : Handler) (live : Bool)
  | answered (r : OpenRequest) (c : Completion)
  | refused (r : OpenRequest) (status : CallStatus) (now : Time.Instant)
  | skipped (p : Point) (now : Time.Instant)

namespace Happening

def ticket? : Happening → Option Ticket
  | accepted t => some t
  | issued _ t => some t
  | _ => none

def issue? : Happening → Option (OpenRequest × Ticket)
  | issued r t => some (r,t)
  | _ => none

def ending? : Happening → Option (Completion × Handler)
  | told c h _ => some (c,h)
  | _ => none

def answer? : Happening → Option (OpenRequest × Completion)
  | answered r c => some (r,c)
  | _ => none

def note? : Happening → Option Note
  | told c .caller _ => some (.done c)
  | answered r c => some (.result (Report.ofCompletion r c))
  | refused r status now => some (.result (Report.rejected r status now))
  | skipped p now => some (.result (Report.noResponse p now))
  | _ => none

end Happening

def accepted (h : List Happening) : List Ticket := h.filterMap Happening.ticket?
def issued (h : List Happening) : List (OpenRequest × Ticket) := h.filterMap Happening.issue?
def told (h : List Happening) : List (Completion × Handler) := h.filterMap Happening.ending?
def answered (h : List Happening) : List (OpenRequest × Completion) := h.filterMap Happening.answer?
def notes (h : List Happening) : List Note := h.filterMap Happening.note?

def toldTickets (h : List Happening) : List Ticket := (told h).map fun x => x.1.ticket x.2

section
variable (g h : List Happening)
@[simp] theorem accepted_append : accepted (g ++ h) = accepted g ++ accepted h := List.filterMap_append
@[simp] theorem issued_append : issued (g ++ h) = issued g ++ issued h := List.filterMap_append
@[simp] theorem told_append : told (g ++ h) = told g ++ told h := List.filterMap_append
@[simp] theorem answered_append : answered (g ++ h) = answered g ++ answered h := List.filterMap_append
@[simp] theorem notes_append : notes (g ++ h) = notes g ++ notes h := List.filterMap_append
@[simp] theorem toldTickets_append : toldTickets (g ++ h) = toldTickets g ++ toldTickets h := by simp [toldTickets]
end

def Session.isOver (s : Session) : Bool := s.phase matches .stopped

theorem Session.isOver_iff (s : Session) : s.isOver = true ↔ s.phase = .stopped := by
  unfold isOver
  cases s.phase <;> simp

namespace Reporter

def answers (p : Reporter) (c : Completion) : List Happening :=
  (p.pending.take? c.app).toList.map fun x => .answered x.1 c

def drainedUpTo : Nat → Reporter → List Happening
  | 0,_ => []
  | n+1,p => match p.queue.takeNow with
    | (none,_) => []
    | (some c,q) => answers {p with queue:=q} c ++ drainedUpTo n (process {p with queue:=q} c).2

def drained (p : Reporter) : List Happening := drainedUpTo p.queue.permits p

end Reporter

namespace Station

def issues (s : Station) (r : OpenRequest) (t : Target) (op : Operation) : List Happening :=
  let status := (s.engine.call t op (some .points)).1
  if status = .success then (s.engine.framed? t op (some .points)).toList.map fun e => .issued r e.ticket
  else [.refused r status s.instant]

def calls (s : Station) (t : Target) (op : Operation) (handler : Option Handler) : List Happening :=
  if (s.engine.call t op handler).1 = .success then
    (s.engine.framed? t op handler).toList.map fun e => .accepted e.ticket
  else []

def handles (s : Station) (raw : String) : List Happening :=
  match s.resolve raw with
  | .error _ => []
  | .ok (intent,point,device,op) =>
    let r := requestOf intent point op
    match s.reporter.pending.register? r with
    | none => []
    | some (id,_) => s.issues r ⟨id,device,onDemandPriority⟩ (operationOf point op)

def polls (s : Station) (p : Point) : List Happening :=
  match p.deviceAddress s.engine.format with
  | .error _ => []
  | .ok device =>
    let r := OpenRequest.periodic p
    match s.reporter.pending.register? r with
    | none => [.skipped p s.instant]
    | some (id,_) => s.issues r ⟨id,device,p.priority⟩ (Operation.ofPoint p)

def observes (s : Station) : SessionEvent → List Happening
  | .done c h =>
    .told c h (s.engine.table.contains c.id)::match h with
      | .caller => []
      | .points => if (s.reporter.queue.append? c).isSome then [] else s.reporter.answers c
  | _ => []

def observesAll (key : Peer) : Station → List SessionEvent → List Happening
  | _,[] => []
  | s,e::out => s.observes e ++ observesAll key (observe key s e) out

def serves (s : Station) (key : Peer) : List Happening :=
  let (m,out) := s.engine.runSession (s.devices key) s.now key
  observesAll key {s with engine:=m} out

def responds (s : Station) (w : Nat) : List Happening :=
  if s.stopped || s.responders.isParked w then [] else
  let (_,q) := s.responders.resume s.reporter.queue w
  Reporter.drained {s.reporter with queue:=q}

def knows (s : Station) : Task → Bool
  | .responder w => w < s.responders.spawned
  | _ => true

def listener (listening : Bool) : Option Handler := if listening then some .caller else none

-- A stack starts again only when the sessions of its last time have been forgotten, and
-- they are forgotten only when all have ended.
def move (s : Station) : Move → Station
  | .configure t => (s.configure t).2
  | .start => if s.engine.enabled || s.engine.sessions.members.isEmpty then s.start.2 else s
  | .call t op listening => (s.call t op (listener listening)).2
  | .handle raw => (s.handle raw).2
  | .poll p => (s.pollPoint p).2
  | .clock now => {s with now:=now}
  | .serve key => s.runSession key
  | .respond w => if w < s.responders.spawned then s.runResponder w else s
  | .hire count => s.spawnResponders count
  | .dismiss => {s with stopped:=true}
  | .halt => {s with engine:=s.engine.halt}
  | .clear => if s.engine.sessions.members.all Session.isOver then {s with engine:=s.engine.clear} else s
  | .drain => s.drain.2
  | .arrange agenda intents writers poller =>
    {s with agenda:=agenda.filter s.knows,intents:=intents,writers:=writers,poller:=poller}

def happens (s : Station) : Move → List Happening
  | .call t op listening => s.calls t op (listener listening)
  | .handle raw => s.handles raw
  | .poll p => s.polls p
  | .serve key => s.serves key
  | .respond w => if w < s.responders.spawned then s.responds w else []
  | .drain => s.reporter.drained
  | _ => []

def moves : Station → List Move → Station
  | s,[] => s
  | s,m::ms => (s.move m).moves ms

def history : Station → List Move → List Happening
  | _,[] => []
  | s,m::ms => s.happens m ++ (s.move m).history ms

variable {s : Station}

theorem moves_append (ms ns : List Move) : s.moves (ms ++ ns) = (s.moves ms).moves ns := by
  induction ms generalizing s with
  | nil => rfl
  | cons m ms ih => exact ih

theorem moves_invariant (holds : Station → List Happening → Prop)
    (kept : ∀ s h m, holds s h → holds (s.move m) (h ++ s.happens m)) {h : List Happening} (first : holds s h)
    (ms : List Move) : holds (s.moves ms) (h ++ s.history ms) := by
  induction ms generalizing s h with
  | nil => simpa [moves,history] using first
  | cons m ms ih => simpa [moves,history,List.append_assoc] using ih (kept s h m first)

end Station
end ModbusMaster
