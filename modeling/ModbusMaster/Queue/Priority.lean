import ModbusMaster.Transaction
import ModbusMaster.Queue.Bounded
namespace ModbusMaster

-- The requests that wait for one session: the most urgent first, the older one
-- first among equals. Once closed the queue takes no more.
structure PriorityQueue where
  entries : List Entry
  permits : Nat
  accepting : Bool
  deriving Repr, Inhabited

namespace PriorityQueue

def empty : PriorityQueue := ⟨[],0,true⟩

def len (q : PriorityQueue) : Nat := q.entries.length

def place (e : Entry) : List Entry → List Entry
  | [] => [e]
  | x::rest => if e.priority < x.priority then e::x::rest else x::place e rest

def push? (q : PriorityQueue) (e : Entry) : Option PriorityQueue :=
  if q.accepting then some {q with entries:=place e q.entries,permits:=q.permits+1} else none

-- Permits that no entry is left for are used up on the way.
def take (permits : Nat) (q : PriorityQueue) : Option Entry × PriorityQueue :=
  match permits with
  | 0 => (none,{q with permits:=0})
  | n+1 => match q.entries with
    | e::rest => (some e,{q with entries:=rest,permits:=n})
    | [] => take n q

def pop (halted : Bool) (q : PriorityQueue) : BoundedQueue.Taken Entry × PriorityQueue :=
  if halted then (.shutdown,q) else
  match take q.permits q with
  | (some e,q) => (.item e,q)
  | (none,q) => (.pending,q)

def close (q : PriorityQueue) : List Entry × PriorityQueue := (q.entries,{q with entries:=[],accepting:=false})

end PriorityQueue
end ModbusMaster
