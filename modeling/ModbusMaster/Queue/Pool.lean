import ModbusMaster.Queue.Bounded
namespace ModbusMaster

-- The workers of a queue, by number: those that wait for an item, the longest wait
-- first, and those that were handed a permit and have yet to run.
structure Pool where
  spawned : Nat
  parked : List Nat
  granted : List Nat
  deriving Repr, Inhabited

namespace Pool
variable {α : Type}

def empty : Pool := ⟨0,[],[]⟩

def grant (p : Pool) (q : BoundedQueue α) : Pool × BoundedQueue α × Option Nat :=
  match p.parked with
  | w::rest => ({p with parked:=rest,granted:=p.granted ++ [w]},q,some w)
  | [] => (p,q.signal,none)

-- A worker that runs gives the permit it was handed back, to take it as any other.
def resume (p : Pool) (q : BoundedQueue α) (w : Nat) : Pool × BoundedQueue α :=
  if p.granted.contains w then ({p with granted:=p.granted.erase w},q.signal) else (p,q)

def isParked (p : Pool) (w : Nat) : Bool := p.parked.contains w
def park (p : Pool) (w : Nat) : Pool := {p with parked:=p.parked ++ [w]}
def leave (p : Pool) (w : Nat) : Pool := {p with parked:=p.parked.erase w}

def spawn (p : Pool) (count : Nat) : Pool × List Nat :=
  let n := max count 1
  ({p with spawned:=p.spawned+n},(List.range n).map (p.spawned + ·))

def all (p : Pool) : List Nat := List.range p.spawned

end Pool
end ModbusMaster
