import ModbusMaster.Bytes
namespace ModbusMaster

-- The two framings: behind a header with length and transaction over a stream
-- socket, or between unit and checksum on a serial line.
inductive Format where
  | tcp
  | rtu
  deriving Repr, DecidableEq, Inhabited

namespace Format

def text : Format → String
  | tcp => "TCP"
  | rtu => "RTU"

def name : Format → String
  | tcp => "tcp"
  | rtu => "rtu"

-- Transaction, protocol and length; the unit is counted with what follows.
def headerSize : Nat := 6

def maxAdu : Format → Nat
  | tcp => 260
  | rtu => 256

def aduLength : Format → Nat → Nat
  | tcp,n => headerSize+1+n
  | rtu,n => 1+n+2

end Format
end ModbusMaster
