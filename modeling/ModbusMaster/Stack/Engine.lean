import ModbusMaster.Session.Set
import ModbusMaster.Stack.Operation
namespace ModbusMaster

structure Target where
  app : UInt16
  device : DeviceAddress
  priority : Int
  deriving Repr, DecidableEq, Inhabited

def Target.normal (app : UInt16) (device : DeviceAddress) : Target := ⟨app,device,1⟩

-- The request engine. While it is enabled it serves sessions; those that are halting
-- stay until they have ended. `usage` outlives them.
structure Engine where
  format : Format
  table : TransactionTable
  timing : Timing
  enabled : Bool
  sessions : SessionSet
  usage : List (Peer × Usage)

namespace Engine

def create (format : Format) (slots : Nat) : Engine :=
  ⟨format,TransactionTable.empty slots 65535,Timing.standard,false,SessionSet.start Timing.standard,[]⟩

def configure (m : Engine) (t : Timing) : CallStatus × Engine :=
  if m.enabled then (.stackAlreadyInitialized,m) else (.success,{m with timing:=t})

def start (m : Engine) : CallStatus × Engine :=
  if m.enabled then (.stackAlreadyInitialized,m)
  else (.success,{m with enabled:=true,sessions:=SessionSet.start m.timing})

def startUnserved (m : Engine) : CallStatus × Engine :=
  (if m.enabled then .stackAlreadyInitialized else .stackNotInitialized,m)

def halt (m : Engine) : Engine := {m with enabled:=false,sessions:={m.sessions with halted:=true}}

def clear (m : Engine) : Engine :=
  let ended := m.sessions.members.map fun s => (s.key,s.usage)
  {m with sessions:={m.sessions with members:=[]},
          usage:=ended ++ m.usage.filter fun u => !ended.any fun e => e.1 == u.1}

def session? (m : Engine) (key : Peer) : Option Session :=
  if m.enabled then m.sessions.find? key else none

def usageOf (m : Engine) (key : Peer) : Usage := (m.usage.lookup key).getD ⟨0,0⟩

def enqueue? (m : Engine) (e : Entry) : Option Engine :=
  (m.sessions.enqueue? (m.usageOf e.device.session) e).map fun r => {m with sessions:=r}

def matches? (m : Engine) (d : DeviceAddress) : Bool :=
  match m.format,d.session with
  | .tcp,.tcp _ => true
  | .rtu,.serial => true
  | _,_ => false

def entryOf (t : Target) (id : UInt16) (r : Request) (byteCount : UInt16) (frame : Bytes) (h : Handler) : Entry :=
  ⟨id,t.app,r.function,t.device,r.address,r.quantity,byteCount,t.priority,frame,h⟩

inductive Offer where
  | queued
  | noSlot
  | unframed (r : Frame.Refusal)
  | refused (e : Entry)
  deriving Repr

-- Reserves an id, frames the request and queues it at its session. What is refused
-- on the way keeps no id, but the ids go on behind it.
def offer (m : Engine) (t : Target) (r : Request) (byteCount : UInt16) (h : Handler) : Offer × Engine :=
  match m.table.reserve? ⟨t.app,r.function,t.device⟩ with
  | none => (.noSlot,m)
  | some (id,table) =>
    let without : Engine := {m with table:=table.release id}
    match Frame.build m.format id t.device.unit r with
    | .error e => (.unframed e,without)
    | .ok frame =>
      let e := entryOf t id r byteCount frame h
      match enqueue? {m with table:=table} e with
      | some m => (.queued,m)
      | none => (.refused e,without)

def submit (m : Engine) (t : Target) (r : Request) (byteCount : UInt16) (handler : Option Handler) :
    CallStatus × Engine :=
  match handler with
  | none => (.invalidInputParameter,m)
  | some h =>
    if !Limits.unitValid t.device.unit || !m.matches? t.device then (.invalidInputParameter,m)
    else if !m.enabled then (.stackNotInitialized,m)
    else match m.offer t r byteCount h with
      | (.queued,m) => (.success,m)
      | (.noSlot,m) => (.maxRequestsInFlight,m)
      | (.unframed _,m) => (.packetLengthExceeded,m)
      | (.refused _,m) => (.queueSendFailed,m)

def call (m : Engine) (t : Target) (op : Operation) (handler : Option Handler) : CallStatus × Engine :=
  match op.request? with
  | none => (.invalidInputParameter,m)
  | some (r,byteCount) => m.submit t r byteCount handler

def releaseOf (table : TransactionTable) : SessionEvent → TransactionTable
  | .done c _ => table.release c.id
  | _ => table

-- Lets one session do all it can at an instant. The ids of the requests that end are
-- free before anybody is told.
def runSession (m : Engine) (device : Device) (now : Nat) (key : Peer) : Engine × List SessionEvent :=
  let (r,out) := m.sessions.runSession device m.format now key
  ({m with sessions:=r,table:=out.foldl releaseOf m.table},out)

end Engine
end ModbusMaster
