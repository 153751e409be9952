import ModbusMaster.Frame.Response
import ModbusMaster.Network.Device
import ModbusMaster.Time.Civil
import Std.Data.TreeMap
namespace ModbusMaster

-- Transactions that the stack has accepted and not yet finished.

structure TransactionRecord where
  app : UInt16
  function : Function
  device : DeviceAddress
  deriving Repr, DecidableEq, Inhabited

-- A bounded table by transaction id. Ids run from 1 to `maxId` and then start
-- again; the cursor `next` is the id tried first.
structure TransactionTable where
  records : Std.TreeMap UInt16 TransactionRecord
  capacity : Nat
  maxId : UInt16
  next : UInt16

namespace TransactionTable

-- There is always one id more than records.
def empty (capacity : Nat) (maxId : UInt16) : TransactionTable :=
  let capacity := max 1 (min capacity 65534)
  ⟨{},capacity,max maxId (UInt16.ofNat (capacity+1)),1⟩

def len (t : TransactionTable) : Nat := t.records.size
def isFull (t : TransactionTable) : Bool := t.capacity ≤ t.len
def live (t : TransactionTable) : List UInt16 := t.records.keys
def contains (t : TransactionTable) (id : UInt16) : Bool := t.records.contains id
def get? (t : TransactionTable) (id : UInt16) : Option TransactionRecord := t.records[id]?

def advance (t : TransactionTable) (id : UInt16) : UInt16 := if t.maxId ≤ id then 1 else id+1

def free? (t : TransactionTable) : Nat → UInt16 → Option UInt16
  | 0,_ => none
  | fuel+1,id => if t.records.contains id then t.free? fuel (t.advance id) else some id

-- A full table changes nothing. One more try than there are records is enough.
def reserve? (t : TransactionTable) (r : TransactionRecord) : Option (UInt16 × TransactionTable) :=
  if t.isFull then none else
  match t.free? (t.len+1) t.next with
  | none => none
  | some id => some (id,{t with records:=t.records.insert id r,next:=t.advance id})

def release (t : TransactionTable) (id : UInt16) : TransactionTable := {t with records:=t.records.erase id}

def describe (t : TransactionTable) : String :=
  "RequestTable \x7b capacity: " ++ toString t.capacity ++ ", max_transaction_id: " ++ toString t.maxId.toNat ++
    ", live: " ++ toString t.len ++ " \x7d"

def describeSlots (t : TransactionTable) : String :=
  "[" ++ String.intercalate ", " (t.live.map fun id => "Slot(" ++ toString id.toNat ++ ")") ++ "]"

end TransactionTable

-- Who is told when a request ends: the caller that submitted it, or the part
-- that turns responses into point results.
inductive Handler where
  | caller
  | points
  deriving Repr, DecidableEq, Inhabited

-- A framed request on its way through a session. It holds the record of its id
-- until it is completed. A lower priority is more urgent.
structure Entry where
  id : UInt16
  app : UInt16
  function : Function
  device : DeviceAddress
  address : UInt16
  quantity : UInt16
  byteCount : UInt16
  priority : Int
  frame : Bytes
  handler : Handler
  deriving Repr, DecidableEq, Inhabited

def Entry.describe (e : Entry) : String :=
  "RequestEntry \x7b transaction_id: " ++ toString e.id.toNat ++ ", app_transaction_id: " ++ toString e.app.toNat ++
    ", function: " ++ e.function.label ++ ", device: " ++ e.device.describe ++ ", priority: " ++ toString e.priority ++
    ", frame_len: " ++ toString e.frame.length ++ " \x7d"

structure Completion where
  id : UInt16
  app : UInt16
  function : Function
  device : DeviceAddress
  outcome : Outcome
  data : Bytes
  address : UInt16
  quantity : UInt16
  instant : Time.Instant
  deriving Repr, DecidableEq, Inhabited

def Entry.complete (e : Entry) (outcome : Outcome) (response : Option Response) (now : Time.Instant) : Completion :=
  let data := match outcome,response with
    | .success,some r => r.data
    | _,_ => []
  ⟨e.id,e.app,e.function,e.device,outcome,data,e.address,e.quantity,now⟩

end ModbusMaster
