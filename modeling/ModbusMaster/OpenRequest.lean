import ModbusMaster.Point.Basic
import Std.Data.TreeMap
import Std.Data.TreeSet
namespace ModbusMaster

inductive Purpose where
  | periodic
  | onDemandRead
  | onDemandWrite
  deriving Repr, DecidableEq, Inhabited

def Purpose.label : Purpose → String
  | periodic => "Periodic"
  | onDemandRead => "OnDemandRead"
  | onDemandWrite => "OnDemandWrite"

structure OpenRequest where
  point : Point
  kind : Purpose
  appSeq : Option String
  version : Option String
  topic : Option String
  deriving Repr, DecidableEq, Inhabited

def OpenRequest.isOnDemand (r : OpenRequest) : Bool := r.kind != .periodic

def OpenRequest.periodic (p : Point) : OpenRequest := ⟨p,.periodic,none,none,none⟩

-- The requests issued for points and not yet answered, by reference id. A point is
-- awaited while a periodic read of it is among them. `last` is the id given out last.
structure OpenRequests where
  requests : Std.TreeMap UInt16 OpenRequest
  awaiting : Std.TreeSet String
  last : UInt16

namespace OpenRequests

def maxId : UInt16 := 65534

def empty : OpenRequests := ⟨{},{},0⟩

def len (t : OpenRequests) : Nat := t.requests.size
def contains (t : OpenRequests) (id : UInt16) : Bool := t.requests.contains id
def isAwaiting (t : OpenRequests) (key : String) : Bool := t.awaiting.contains key

def advance (id : UInt16) : UInt16 := if maxId ≤ id then 1 else id+1

def free? (t : OpenRequests) : Nat → UInt16 → Option UInt16
  | 0,_ => none
  | fuel+1,id =>
    let id := advance id
    if t.requests.contains id then t.free? fuel id else some id

def allocate? (t : OpenRequests) : Option UInt16 :=
  if maxId.toNat ≤ t.len then none else t.free? (t.len+1) t.last

-- A periodic read is refused while its point is awaited.
def register? (t : OpenRequests) (r : OpenRequest) : Option (UInt16 × OpenRequests) :=
  let key := r.point.key
  let periodic := r.kind == .periodic
  if periodic && t.isAwaiting key then none else
  match t.allocate? with
  | none => none
  | some id =>
    let awaiting := if periodic then t.awaiting.insert key else t.awaiting
    some (id,⟨t.requests.insert id r,awaiting,id⟩)

def take? (t : OpenRequests) (id : UInt16) : Option (OpenRequest × OpenRequests) :=
  match t.requests[id]? with
  | none => none
  | some r =>
    let awaiting := if r.kind == .periodic then t.awaiting.erase r.point.key else t.awaiting
    some (r,{t with requests:=t.requests.erase id,awaiting:=awaiting})

end OpenRequests
end ModbusMaster
