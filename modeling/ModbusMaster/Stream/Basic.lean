import ModbusMaster.Fault
import ModbusMaster.Frame.Boundary
import ModbusMaster.Frame.Trace
namespace ModbusMaster.Stream

-- Frames out of and into a line of octets.

structure Stats where
  sent : Nat
  received : Nat
  errors : Nat
  bytesSent : Nat
  bytesReceived : Nat
  deriving Repr, DecidableEq, Inhabited

namespace Stats

def empty : Stats := ⟨0,0,0,0,0⟩
def onSent (s : Stats) (n : Nat) : Stats := {s with sent:=s.sent+1,bytesSent:=s.bytesSent+n}
def onReceived (s : Stats) (n : Nat) : Stats := {s with received:=s.received+1,bytesReceived:=s.bytesReceived+n}
def onError (s : Stats) : Stats := {s with errors:=s.errors+1}

end Stats

-- What comes of waiting for the line: octets (none at the end of the input), a
-- failure, or the silence that ends a frame.
inductive Read where
  | data (b : Bytes)
  | failed (message : String)
  | gap
  deriving Repr, DecidableEq

def Read.size : Read → Nat
  | data b => b.length+1
  | _ => 1

def Read.total (rs : List Read) : Nat := rs.foldr (fun r n => r.size+n) 0

inductive Received where
  | frame (b : Bytes)
  | fault (f : Fault)
  | pending
  deriving Repr, DecidableEq

-- Octets that were read and are not yet part of a frame. The buffer can hold `size`
-- octets; `room` of them are free behind the content.
structure Buffer where
  bytes : Bytes
  size : Nat
  room : Nat
  deriving Repr, DecidableEq, Inhabited

namespace Buffer

def ofFormat (f : Format) : Buffer := ⟨[],f.maxAdu*2,f.maxAdu*2⟩

-- A read must never be turned down for want of a little room.
def leastRoom : Nat := 64

-- Makes room if there is none: the content moves to the front, or where that
-- frees less than its own length the buffer doubles.
def ready (b : Buffer) : Buffer :=
  if 0 < b.room then b
  else if b.bytes.length*2 ≤ b.size ∧ b.bytes.length+leastRoom ≤ b.size then {b with room:=b.size-b.bytes.length}
  else {b with size:=max b.size 1*2,room:=max b.size 1}

def accept (b : Buffer) (arrived : Bytes) : Buffer × Bytes :=
  let b := b.ready
  ({b with bytes:=b.bytes ++ arrived.take b.room,room:=b.room-arrived.length},arrived.drop b.room)

def take (b : Buffer) (n : Nat) : Bytes × Buffer := (b.bytes.take n,{b with bytes:=b.bytes.drop n})

def clear (b : Buffer) : Buffer := {b with bytes:=[],room:=b.room+b.bytes.length}

theorem room_ready (b : Buffer) : 0 < b.ready.room := by
  unfold ready
  split
  · assumption
  · split
    · rename_i h
      simp only [leastRoom] at h
      show 0 < b.size-b.bytes.length
      omega
    · show 0 < max b.size 1
      omega

theorem accept_bytes (b : Buffer) (arrived : Bytes) :
    (b.accept arrived).1.bytes ++ (b.accept arrived).2 = b.bytes ++ arrived := by
  have same : b.ready.bytes = b.bytes := by unfold ready; split <;> (try split) <;> rfl
  simp only [accept,List.append_assoc,List.take_append_drop,same]

theorem length_accept (b : Buffer) (arrived : Bytes) : (b.accept arrived).2.length = arrived.length-b.ready.room := by
  simp [accept]

end Buffer

def again (left : Bytes) (rest : List Read) : List Read := if left.isEmpty then rest else .data left::rest

theorem total_again (b : Buffer) (arrived : Bytes) (rest : List Read) :
    Read.total (again (b.accept arrived).2 rest) < Read.total (.data arrived::rest) := by
  have room := b.room_ready
  have len := b.length_accept arrived
  unfold again
  split
  · simp [Read.total,Read.size]
  · rename_i h
    have : (b.accept arrived).2.length ≠ 0 := by simpa [List.isEmpty_iff] using h
    simp only [Read.total,Read.size,List.foldr_cons]
    omega

end ModbusMaster.Stream
