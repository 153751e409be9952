import ModbusMaster.Stream.Basic
namespace ModbusMaster.Stream

-- A serial line: a frame ends where its function says, or with the silent gap.
structure Rtu where
  connected : Bool
  buffer : Buffer
  stats : Stats
  deriving Repr, DecidableEq, Inhabited

namespace Rtu

def opened : Rtu := ⟨true,Buffer.ofFormat .rtu,Stats.empty⟩

def tooLarge (t : Rtu) : Fault × Rtu := (.frame "RTU frame too large",{t with buffer:=t.buffer.clear,stats:=t.stats.onError})

def nextFrame (t : Rtu) : Except Fault (Option Bytes) × Rtu :=
  match Frame.rtuLength? t.buffer.bytes with
  | none => (.ok none,t)
  | some n =>
    if Format.maxAdu .rtu < n then
      let (f,t) := t.tooLarge
      (.error f,t)
    else if t.buffer.bytes.length < n then (.ok none,t)
    else
      let (frame,buffer) := t.buffer.take n
      (.ok (some frame),{t with buffer:=buffer})

def closedFault : Fault := .connection "Serial port not connected"

def deliver (t : Rtu) (frame : Bytes) : Rtu := {t with stats:=t.stats.onReceived frame.length}

-- Waits for a frame. What the first read brings is taken whole; later reads may not
-- make the buffer longer than a frame.
def receive (t : Rtu) (reads : List Read) : Received × List Read × Rtu :=
  match t.nextFrame with
  | (.error f,t) => (.fault f,reads,t)
  | (.ok (some frame),t) => (.frame frame,reads,t.deliver frame)
  | (.ok none,t) =>
    if !t.connected then (.fault closedFault,reads,t) else
    match reads with
    | [] => (.pending,[],t)
    | .gap::rest =>
      if t.buffer.bytes.isEmpty then receive t rest
      else
        let (frame,buffer) := t.buffer.take t.buffer.bytes.length
        (.frame frame,rest,deliver {t with buffer:=buffer} frame)
    | .data b::rest =>
      let left := again (t.buffer.accept b).2 rest
      let u := {t with buffer:=(t.buffer.accept b).1}
      if !t.buffer.bytes.isEmpty && Format.maxAdu .rtu < u.buffer.bytes.length then
        let (f,u) := u.tooLarge
        (.fault f,left,u)
      else receive u left
    | .failed m::rest =>
      let stats := if t.buffer.bytes.isEmpty then t.stats else t.stats.onError
      (.fault (.io ("Serial read error: " ++ m)),rest,{t with stats:=stats})
  termination_by Read.total reads
  decreasing_by
    · simp [Read.total,Read.size]
    · exact total_again _ _ _

-- Octets left over from an exchange that was given up do not belong to the next one.
def send (t : Rtu) (frame : Bytes) : Except Fault Unit × Rtu :=
  let t := {t with buffer:=t.buffer.clear}
  if t.connected then (.ok (),{t with stats:=t.stats.onSent frame.length}) else (.error closedFault,t)

def close (t : Rtu) : Rtu := {t with connected:=false}

end Rtu
end ModbusMaster.Stream
