import ModbusMaster.Record
import ModbusMaster.Json.Value
namespace ModbusMaster.Json

-- JSON values as the fields of records: every type is kept apart, only an integer
-- also stands for a number. A variant is its name, or an object from the name to null.
def source : Record.Source Json where
  natural? := fun
    | .int i => if 0 ≤ i then some i.toNat else none
    | _ => none
  integer? := fun
    | .int i => some i
    | _ => none
  number? := fun
    | .int i => some (Double.ofInt i)
    | .float x => some x
    | _ => none
  flag? := fun
    | .bool b => some b
    | _ => none
  text? := fun
    | .text s => some s
    | _ => none
  variant? := fun
    | .text s => some s
    | .object [(s,.null)] => some s
    | _ => none
  isNull := fun
    | .null => true
    | _ => false

end ModbusMaster.Json
