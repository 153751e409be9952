import ModbusMaster.Protocol.Function
import ModbusMaster.Frame.Format
namespace ModbusMaster.Frame

-- Where the frame at the start of a buffer ends.

def tcpLength? : Bytes → Option Nat
  | _::_::_::_::n1::n0::_ => some (Format.headerSize+(Bytes.word n1 n0).toNat)
  | _ => none

-- A serial frame has no length: it follows from the function and, for values of
-- any number, from their byte count. Other functions end with the silent gap.
def rtuLength? : Bytes → Option Nat
  | _::f::rest =>
    if f &&& Function.exceptionBit != 0 then some 5
    else if f ∈ ([0x01,0x02,0x03,0x04,0x14,0x15,0x17] : Bytes) then rest.head?.map fun count => 3+count.toNat+2
    else if f ∈ ([0x05,0x06,0x0F,0x10] : Bytes) then some 8
    else none
  | _ => none

end ModbusMaster.Frame
