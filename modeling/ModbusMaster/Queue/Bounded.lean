namespace ModbusMaster

-- A bounded queue, first in first out, between producers and waiting consumers.
-- Items and permits are changed in steps of their own: a producer appends and then
-- adds a permit, a consumer takes a permit and then the front item.
structure BoundedQueue (α : Type) where
  items : List α
  permits : Nat
  capacity : Nat
  deriving Repr, Inhabited

namespace BoundedQueue
variable {α : Type}

def empty (capacity : Nat) : BoundedQueue α := ⟨[],0,max capacity 1⟩

def len (q : BoundedQueue α) : Nat := q.items.length

def append? (q : BoundedQueue α) (x : α) : Option (BoundedQueue α) :=
  if q.capacity ≤ q.items.length then none else some {q with items:=q.items ++ [x]}

def signal (q : BoundedQueue α) : BoundedQueue α := {q with permits:=q.permits+1}

def acquire? (q : BoundedQueue α) : Option (BoundedQueue α) :=
  match q.permits with
  | 0 => none
  | n+1 => some {q with permits:=n}

def removeFront (q : BoundedQueue α) : Option α × BoundedQueue α :=
  match q.items with
  | [] => (none,q)
  | x::rest => (some x,{q with items:=rest})

def push? (q : BoundedQueue α) (x : α) : Option (BoundedQueue α) := (q.append? x).map signal

def takeNow (q : BoundedQueue α) : Option α × BoundedQueue α :=
  match q.acquire? with
  | none => (none,q)
  | some q => q.removeFront

inductive Taken (α : Type) where
  | item (x : α)
  | shutdown
  | pending
  deriving Repr

-- Once the queue's owner has halted nothing more is handed out.
def pop (halted : Bool) (q : BoundedQueue α) : Taken α × BoundedQueue α :=
  if halted then (.shutdown,q) else
  match q.acquire? with
  | none => (.pending,q)
  | some q => match q.removeFront with
    | (some x,q) => (.item x,q)
    | (none,q) => (.shutdown,q)

end BoundedQueue
end ModbusMaster
