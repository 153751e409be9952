import ModbusMaster.Point.Report
import ModbusMaster.Queue.Bounded
namespace ModbusMaster

-- Turns responses into point results: responses wait in a queue, or are processed at
-- once where it is full.
structure Reporter where
  pending : OpenRequests
  queue : BoundedQueue Completion

namespace Reporter

def empty (capacity : Nat) : Reporter := ⟨OpenRequests.empty,BoundedQueue.empty capacity⟩

def process (p : Reporter) (c : Completion) : Option Report × Reporter :=
  match p.pending.take? c.app with
  | none => (none,p)
  | some (r,pending) => (some (Report.ofCompletion r c),{p with pending:=pending})

-- Queued, or processed where the queue is full; the mark says which.
def accept (p : Reporter) (c : Completion) : Bool × Option Report × Reporter :=
  match p.queue.append? c with
  | some q => (true,none,{p with queue:=q})
  | none =>
    let (r,p) := p.process c
    (false,r,p)

def complete (p : Reporter) (c : Completion) : Option Report × Reporter :=
  match p.accept c with
  | (true,r,p) => (r,{p with queue:=p.queue.signal})
  | (false,r,p) => (r,p)

def drainUpTo : Nat → Reporter → Nat × List Report × Reporter
  | 0,p => (0,[],p)
  | n+1,p => match p.queue.takeNow with
    | (none,q) => (0,[],{p with queue:=q})
    | (some c,q) =>
      let (r,p) := process {p with queue:=q} c
      let (count,rs,p) := drainUpTo n p
      (count+1,r.toList ++ rs,p)

def drain (p : Reporter) : Nat × List Report × Reporter := drainUpTo p.queue.permits p

end Reporter
end ModbusMaster
