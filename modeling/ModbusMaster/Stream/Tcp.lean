import ModbusMaster.Stream.Basic
namespace ModbusMaster.Stream

-- A stream socket: the header of each frame says where it ends.
structure Tcp where
  connected : Bool
  buffer : Buffer
  stats : Stats
  deriving Repr, DecidableEq, Inhabited

namespace Tcp

def opened : Tcp := ⟨true,Buffer.ofFormat .tcp,Stats.empty⟩

-- The next complete frame of the buffer. A length that no frame has discards all of it.
def nextFrame (t : Tcp) : Except Fault (Option Bytes) × Tcp :=
  match Frame.tcpLength? t.buffer.bytes with
  | none => (.ok none,t)
  | some n =>
    if n < Format.headerSize+2 || Format.maxAdu .tcp < n then
      (.error (.frame ("Invalid MBAP length in frame of " ++ toString n ++ " bytes")),
        {t with buffer:=t.buffer.clear,stats:=t.stats.onError})
    else if t.buffer.bytes.length < n then (.ok none,t)
    else
      let (frame,buffer) := t.buffer.take n
      (.ok (some frame),{t with buffer:=buffer})

def closedFault : Fault := .connection "TCP stream closed"

def receive (t : Tcp) (reads : List Read) : Received × List Read × Tcp :=
  match t.nextFrame with
  | (.error f,t) => (.fault f,reads,t)
  | (.ok (some frame),t) => (.frame frame,reads,{t with stats:=t.stats.onReceived frame.length})
  | (.ok none,t) =>
    if !t.connected then (.fault closedFault,reads,t) else
    match reads with
    | [] => (.pending,[],t)
    | .gap::rest => receive t rest
    | .data []::rest => (.fault (.connection "Connection closed by device"),rest,{t with connected:=false})
    | .data (x::b)::rest => receive {t with buffer:=(t.buffer.accept (x::b)).1} (again (t.buffer.accept (x::b)).2 rest)
    | .failed m::rest =>
      (.fault (.io ("TCP read error: " ++ m)),rest,{t with connected:=false,stats:=t.stats.onError})
  termination_by Read.total reads
  decreasing_by
    · simp [Read.total,Read.size]
    · exact total_again _ _ _

def send (t : Tcp) (frame : Bytes) : Except Fault Unit × Tcp :=
  if t.connected then (.ok (),{t with stats:=t.stats.onSent frame.length}) else (.error closedFault,t)

def close (t : Tcp) : Tcp := {t with connected:=false}

end Tcp
end ModbusMaster.Stream
