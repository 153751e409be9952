import ModbusMaster.Stack.Engine
import ModbusMaster.Point.Reporter
import ModbusMaster.Queue.Pool
import ModbusMaster.Polling.Schedule
import ModbusMaster.Intent
namespace ModbusMaster

-- A request engine with all that works for it: sessions, workers that process
-- responses and intents, and a clock that polls. It runs in a time of its own.

inductive Task where
  | session (key : Peer)
  | responder (w : Nat)
  | writer (w : Nat)
  deriving Repr, DecidableEq

inductive Note where
  | line (key : Peer) (e : SessionEvent)
  | done (c : Completion)
  | result (r : Report)

structure Logged where
  time : Nat
  note : Note

structure Poller where
  schedule : Schedule
  last : Nat
  next : Nat

structure Station where
  now : Nat
  devices : Peer → Device
  engine : Engine
  catalog : Catalog
  reporter : Reporter
  responders : Pool
  intents : BoundedQueue String
  writers : Pool
  poller : Option Poller
  stopped : Bool
  agenda : List Task
  log : List Logged

namespace Station

def create (format : Format) (slots capacity writeCapacity : Nat) (catalog : Catalog)
    (devices : Peer → Device) : Station :=
  ⟨0,devices,Engine.create format slots,catalog,Reporter.empty capacity,Pool.empty,
    BoundedQueue.empty writeCapacity,Pool.empty,none,false,[],[]⟩

def instant (s : Station) : Time.Instant := Time.Instant.ofMicros s.now

def record (s : Station) (n : Note) : Station := {s with log:=s.log ++ [⟨s.now,n⟩]}
def publish (s : Station) (r : Report) : Station := s.record (.result r)
def publishAll (s : Station) (rs : List Report) : Station := rs.foldl publish s

def takeLog (s : Station) : List Logged × Station := (s.log,{s with log:=[]})

def wake (s : Station) (t : Task) : Station :=
  if s.agenda.contains t then s else {s with agenda:=s.agenda ++ [t]}

def wakeAll (s : Station) (ts : List Task) : Station := ts.foldl wake s

def deliver (s : Station) (c : Completion) : Handler → Station
  | .caller => s.record (.done c)
  | .points =>
    match s.reporter.accept c with
    | (true,_,p) =>
      let (pool,q,woken) := s.responders.grant p.queue
      wakeAll {s with reporter:={p with queue:=q},responders:=pool} (woken.toList.map .responder)
    | (false,r,p) => publishAll {s with reporter:=p} r.toList

def observe (key : Peer) (s : Station) : SessionEvent → Station
  | .done c h => s.deliver c h
  | e => s.record (.line key e)

def runSession (s : Station) (key : Peer) : Station :=
  let (m,out) := s.engine.runSession (s.devices key) s.now key
  out.foldl (observe key) {s with engine:=m}

def call (s : Station) (t : Target) (op : Operation) (handler : Option Handler) : CallStatus × Station :=
  let (status,m) := s.engine.call t op handler
  let s := {s with engine:=m}
  (status,if status = .success then s.wake (.session t.device.session) else s)

def issue (s : Station) (r : OpenRequest) (id : UInt16) (device : DeviceAddress) (priority : Int) (op : Operation) :
    CallStatus × Station :=
  let (status,s) := s.call ⟨id,device,priority⟩ op (some .points)
  if status = .success then (status,s) else
  match s.reporter.pending.take? id with
  | none => (status,s)
  | some (_,pending) =>
    (status,publish {s with reporter:={s.reporter with pending:=pending}} (Report.rejected r status s.instant))

def hold (s : Station) (pending : OpenRequests) : Station := {s with reporter:={s.reporter with pending:=pending}}

-- The periodic read of a point; says whether it was issued. A point whose device
-- cannot be told is left out, one that is still awaited gets a placeholder.
def pollPoint (s : Station) (p : Point) : Bool × Station :=
  match p.deviceAddress s.engine.format with
  | .error _ => (false,s)
  | .ok device =>
    let r := OpenRequest.periodic p
    match s.reporter.pending.register? r with
    | none => (false,s.publish (Report.noResponse p s.instant))
    | some (id,pending) =>
      let (status,s) := (s.hold pending).issue r id device p.priority (Operation.ofPoint p)
      (status == .success,s)

def pollPoints (s : Station) : List Point → Nat × Station
  | [] => (0,s)
  | p::ps =>
    let (issued,s) := s.pollPoint p
    let (n,s) := s.pollPoints ps
    (if issued then n+1 else n,s)

-- Requests of the bus come before periodic ones.
def onDemandPriority : Int := 0

def resolve (s : Station) (raw : String) : Except Fault (Intent × Point × DeviceAddress × Option WriteValue) := do
  let intent ← (Intent.parse raw).mapError Intent.Refusal.fault
  let key ← intent.key.mapError Intent.Refusal.fault
  let point ← match s.catalog.lookup? key with
    | some p => .ok p
    | none => .error (.unknownPoint key)
  let device ← (point.deviceAddress s.engine.format).mapError (Point.Defect.fault point)
  let op ← match intent.isWrite,intent.value with
    | true,some value => (WriteValue.encode point value).map some
    | _,_ => .ok none
  .ok (intent,point,device,op)

def requestOf (i : Intent) (p : Point) (op : Option WriteValue) : OpenRequest :=
  ⟨p,if op.isSome then .onDemandWrite else .onDemandRead,some i.appSeq,some i.version,some i.topic⟩

def operationOf (p : Point) : Option WriteValue → Operation
  | some op => Operation.ofWrite p.address op
  | none => Operation.ofPoint p

def handle (s : Station) (raw : String) : Except Fault CallStatus × Station :=
  match s.resolve raw with
  | .error f => (.error f,s)
  | .ok (intent,point,device,op) =>
    let r := requestOf intent point op
    match s.reporter.pending.register? r with
    | none => (.error (.internal "no free reference id"),s)
    | some (id,pending) =>
      let (status,s) := (s.hold pending).issue r id device onDemandPriority (operationOf point op)
      (.ok status,s)

def submit (s : Station) (raw : String) : Except Fault Unit × Station :=
  match s.intents.append? raw with
  | none => (.error (.internal "write queue is full"),s)
  | some q =>
    let (pool,q,woken) := s.writers.grant q
    (.ok (),wakeAll {s with intents:=q,writers:=pool} (woken.toList.map .writer))

def handleQueued : Nat → Station → Station
  | 0,s => s
  | n+1,s => match s.intents.takeNow with
    | (none,q) => {s with intents:=q}
    | (some raw,q) => handleQueued n (handle {s with intents:=q} raw).2

def drain (s : Station) : Nat × Station :=
  let (n,rs,p) := s.reporter.drain
  (n,publishAll {s with reporter:=p} rs)

def runResponder (s : Station) (w : Nat) : Station :=
  if s.stopped then
    let (pool,q) := s.responders.resume s.reporter.queue w
    {s with responders:=pool.leave w,reporter:={s.reporter with queue:=q}}
  else if s.responders.isParked w then s
  else
    let (pool,q) := s.responders.resume s.reporter.queue w
    (drain {s with responders:=pool.park w,reporter:={s.reporter with queue:=q}}).2

def runWriter (s : Station) (w : Nat) : Station :=
  if s.stopped then
    let (pool,q) := s.writers.resume s.intents w
    {s with writers:=pool.leave w,intents:=q}
  else if s.writers.isParked w then s
  else
    let (pool,q) := s.writers.resume s.intents w
    handleQueued q.permits {s with writers:=pool.park w,intents:=q}

def runTask (s : Station) : Task → Station
  | .session key => s.runSession key
  | .responder w => s.runResponder w
  | .writer w => s.runWriter w

def round (s : Station) : Station := s.agenda.foldl runTask {s with agenda:=[]}

-- Writers make sessions ready, sessions responders, and responders nothing.
def settle (s : Station) : Station := s.round.round.round

def timers (s : Station) : List Nat :=
  s.engine.sessions.timers s.now ++ (s.poller.toList.map (·.next)).filter (s.now < ·)

def poll (s : Station) : Station :=
  match s.poller with
  | none => s
  | some p =>
    if s.now < p.next then s else
    let (due,schedule) := p.schedule.advance (s.now-p.last)
    let s := {s with poller:=some ⟨schedule,s.now,s.now+schedule.tickMs*1000⟩}
    due.foldl (fun s b => (s.pollPoints b.points).2) s

def arrive (s : Station) (t : Nat) : Station :=
  let s := {s with now:=t}
  poll (s.wakeAll ((s.engine.sessions.due t).map .session))

def pass (target now : Nat) (s : Station) : Station :=
  let s := s.settle
  match (s.timers.filter (· ≤ target)).min? with
  | none => {s with now:=target}
  | some t => if _h : now < t ∧ t ≤ target then pass target t (s.arrive t) else {s with now:=target}
  termination_by target-now

def wait (s : Station) (ms : Nat) : Station := pass (s.now+ms*1000) s.now s

def start (s : Station) : CallStatus × Station :=
  let (status,m) := s.engine.start
  (status,{s with engine:=m})

def configure (s : Station) (t : Timing) : CallStatus × Station :=
  let (status,m) := s.engine.configure t
  (status,{s with engine:=m})

-- Raises the flag that ends sessions; they see it when they next run.
def trigger (s : Station) : Station :=
  let keys := s.engine.sessions.keys
  wakeAll {s with engine:=s.engine.halt} (keys.map .session)

def shutdown (s : Station) : Station :=
  let s := s.trigger.settle
  {s with engine:=s.engine.clear}

def spawnResponders (s : Station) (count : Nat) : Station :=
  let (pool,ws) := s.responders.spawn count
  wakeAll {s with responders:=pool} (ws.map .responder)

def spawnWriters (s : Station) (count : Nat) : Station :=
  let (pool,ws) := s.writers.spawn count
  wakeAll {s with writers:=pool} (ws.map .writer)

def stopWorkers (s : Station) : Bool × Station :=
  let ready := s.responders.all.map Task.responder ++ s.writers.all.map Task.writer
  (!s.stopped,(wakeAll {s with stopped:=true,poller:=none} ready).settle)

end Station
end ModbusMaster
