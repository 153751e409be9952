import ModbusMaster.Bytes
namespace ModbusMaster.Crc

-- The checksum of serial frames: the remainder of the octets, low bit first,
-- by the polynomial x^16+x^15+x^2+1, started from all ones.

def polynomial : UInt16 := 0xA001

def shift (r : UInt16) : UInt16 :=
  if r &&& 1 = 1 then (r >>> 1) ^^^ polynomial else r >>> 1

def shifts : Nat → UInt16 → UInt16
  | 0,r => r
  | n+1,r => shifts n (shift r)

def step (r : UInt16) (x : UInt8) : UInt16 := shifts 8 (r ^^^ x.toUInt16)

def run (r : UInt16) (b : Bytes) : UInt16 := b.foldl step r

def checksum (b : Bytes) : UInt16 := run 0xFFFF b

theorem run_append (r : UInt16) (a b : Bytes) : run r (a ++ b) = run (run r a) b := by
  simp [run,List.foldl_append]

end ModbusMaster.Crc
