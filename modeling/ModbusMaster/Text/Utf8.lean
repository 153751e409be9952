import ModbusMaster.Bytes
namespace ModbusMaster.Text.Utf8

-- Decoding that never fails: each longest start of a sequence that cannot be
-- completed, and each octet that starts none, becomes one replacement character.

def replacement : Char := Char.ofNat 0xFFFD

-- The count of continuation octets after a lead octet, the bounds of the first
-- of them, and the payload of the lead.
structure Lead where
  more : Nat
  low : UInt8
  high : UInt8
  payload : Nat

def lead? (x : UInt8) : Option Lead :=
  if 0xC2 ≤ x && x ≤ 0xDF then some ⟨1,0x80,0xBF,x.toNat-0xC0⟩
  else if x == 0xE0 then some ⟨2,0xA0,0xBF,0⟩
  else if x == 0xED then some ⟨2,0x80,0x9F,13⟩
  else if 0xE1 ≤ x && x ≤ 0xEF then some ⟨2,0x80,0xBF,x.toNat-0xE0⟩
  else if x == 0xF0 then some ⟨3,0x90,0xBF,0⟩
  else if x == 0xF4 then some ⟨3,0x80,0x8F,4⟩
  else if 0xF1 ≤ x && x ≤ 0xF3 then some ⟨3,0x80,0xBF,x.toNat-0xF0⟩
  else none

-- What is known inside a sequence: octets still missing, bounds of the next one,
-- and the payload so far.
inductive State where
  | start
  | within (more : Nat) (low high : UInt8) (payload : Nat)

def State.open (x : UInt8) : List Char × State :=
  if x < 0x80 then ([Char.ofNat x.toNat],.start)
  else match lead? x with
    | some l => ([],.within l.more l.low l.high l.payload)
    | none => ([replacement],.start)

def State.next : State → UInt8 → List Char × State
  | .start,x => State.open x
  | .within more low high payload,x =>
    if low ≤ x && x ≤ high then
      let payload := payload*64+(x.toNat-0x80)
      if more ≤ 1 then ([Char.ofNat payload],.start) else ([],.within (more-1) 0x80 0xBF payload)
    else
      let (out,after) := State.open x
      (replacement::out,after)

def decodeFrom : State → Bytes → List Char
  | .start,[] => []
  | .within ..,[] => [replacement]
  | s,x::rest =>
    let (out,after) := s.next x
    out ++ decodeFrom after rest

def decode (b : Bytes) : String := String.ofList (decodeFrom .start b)

end ModbusMaster.Text.Utf8
