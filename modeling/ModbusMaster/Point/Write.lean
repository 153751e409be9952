import ModbusMaster.Point.Value
namespace ModbusMaster

inductive WriteValue where
  | coil (on : Bool)
  | register (value : UInt16)
  | coils (quantity : UInt16) (values : Bytes)
  | registers (quantity : UInt16) (values : Bytes)
  deriving Repr, DecidableEq

namespace WriteValue

def function : WriteValue → Function
  | coil _ => .writeSingleCoil
  | register _ => .writeSingleRegister
  | coils .. => .writeMultipleCoils
  | registers .. => .writeMultipleRegisters

-- The spellings of zero that switch a coil off; any other text switches it on.
def offTexts : List String := ["0","00","0x00","0X00"]

def coilOn (s : String) : Bool := !offTexts.contains (Text.trimmed s)

def coilOnValue : UInt16 := 0xFF00
def coilValue (on : Bool) : UInt16 := if on then coilOnValue else 0

def coilWire (s : String) : UInt16 := coilValue (coilOn s)

-- Register values are given in the order of the value and sent in that of the device.
def encode (p : Point) (value : String) : Except Fault WriteValue :=
  match p.registerType.writeFunction? p.width with
  | none => .error (.invalidData ("Point " ++ p.key ++ " is read-only"))
  | some .writeSingleCoil => .ok (coil (coilOn value))
  | some f => match hexValue value with
    | .error e => .error e
    | .ok b =>
      if f = .writeMultipleCoils then .ok (coils p.width (b.fit ((p.width.toNat+7)/8))) else
      let values := p.order.apply (b.fit (p.width.toNat*2))
      match f,values with
      | .writeSingleRegister,hi::lo::_ => .ok (register (Bytes.word hi lo))
      | _,_ => .ok (registers p.width values)

end WriteValue
end ModbusMaster
