import ModbusMaster.Stream.Tcp
import ModbusMaster.Stream.Rtu
import ModbusMaster.Settings
import ModbusMaster.Network.Device
namespace ModbusMaster.Stream

inductive Transport where
  | tcp (t : Tcp)
  | rtu (t : Rtu)
  deriving Repr

namespace Transport

def format : Transport → Format
  | tcp _ => .tcp
  | rtu _ => .rtu

def stats : Transport → Stats
  | tcp t => t.stats
  | rtu t => t.stats

def send (frame : Bytes) : Transport → Except Fault Unit × Transport
  | tcp t => ((t.send frame).1,tcp (t.send frame).2)
  | rtu t => ((t.send frame).1,rtu (t.send frame).2)

def receive (reads : List Read) : Transport → Received × List Read × Transport
  | tcp t =>
    let (r,left,t) := t.receive reads
    (r,left,tcp t)
  | rtu t =>
    let (r,left,t) := t.receive reads
    (r,left,rtu t)

def close : Transport → Transport
  | tcp t => tcp t.close
  | rtu t => rtu t.close

end Transport

-- `arrived` are the octets from the device not read yet, `written` those it has not
-- taken yet; `lines` traces the frames.
structure Link where
  transport : Transport
  trace : Option TraceMode
  gapUs : Nat
  arrived : Bytes
  hungUp : Bool
  written : Bytes
  lines : List String
  deriving Repr

namespace Link

def tcp (trace : Option TraceMode) : Link := ⟨.tcp Tcp.opened,trace,0,[],false,[],[]⟩
def rtu (trace : Option TraceMode) (s : SerialSettings) : Link := ⟨.rtu Rtu.opened,trace,s.gapUs,[],false,[],[]⟩

def feed (l : Link) (b : Bytes) : Link := {l with arrived:=l.arrived ++ b}
def hangUp (l : Link) : Link := {l with hungUp:=true}

def traced (l : Link) (d : Direction) (frame : Bytes) : Link :=
  match l.trace with
  | none => l
  | some mode => {l with lines:=l.lines ++ (Trace.lines mode d l.transport.format frame).map (·.2)}

def send (l : Link) (frame : Bytes) : Except Fault Unit × Link :=
  match l.transport.send frame with
  | (.error f,t) => (.error f,{l with transport:=t})
  | (.ok (),t) => (.ok (),traced {l with transport:=t,written:=l.written ++ frame} .outgoing frame)

-- What can be read within a time: everything that has arrived, then the end of the input
-- if the device hung up, and else silence if the time is long enough for a gap.
def reads (l : Link) (ms : Nat) : List Read :=
  (if l.arrived.isEmpty then [] else [Read.data l.arrived]) ++
    if l.hungUp then [Read.data []] else if l.gapUs ≤ ms*1000 then [Read.gap] else []

def receive (l : Link) (ms : Nat) : Received × Link :=
  let (r,left,t) := l.transport.receive (l.reads ms)
  let unread := left.flatMap fun
    | .data b => b
    | _ => []
  let l := {l with transport:=t,arrived:=unread}
  match r with
  | .frame b => (r,l.traced .incoming b)
  | _ => (r,l)

def peerRead (l : Link) (n : Nat) : Bytes × Link := (l.written.take n,{l with written:=l.written.drop n})

def close (l : Link) : Link := {l with transport:=l.transport.close}

def takeLines (l : Link) : List String × Link := (l.lines,{l with lines:=[]})

end Link

namespace Opening

def formatLabel : Format → String
  | .tcp => "Tcp"
  | .rtu => "Rtu"

def route (s : Settings) (key : Peer) : Except Fault (Sum SocketAddress SerialSettings) :=
  match s.format,key with
  | .tcp,.tcp a => .ok (.inl a)
  | .rtu,.serial => .ok (.inr s.serial)
  | f,k => .error (.configuration ("Session " ++ k.text ++ " cannot be served in " ++ formatLabel f ++ " mode"))

def missingPort (s : SerialSettings) : Fault :=
  .connection ("Failed to open serial port " ++ s.port ++ ": No such file or directory")

def refusedBy (a : SocketAddress) : Fault :=
  .connection ("Failed to connect to " ++ a.text ++ ": Connection refused (os error 111)")

def absent (s : Settings) (key : Peer) : Fault :=
  match route s key with
  | .error f => f
  | .ok (.inl a) => refusedBy a
  | .ok (.inr serial) => missingPort serial

end Opening
end ModbusMaster.Stream
