import ModbusMaster.Protocol.Limits
import ModbusMaster.Frame.Request
import ModbusMaster.Point.Write
namespace ModbusMaster

inductive Operation where
  | readCoils (address quantity : UInt16)
  | readDiscreteInputs (address quantity : UInt16)
  | readHoldingRegisters (address quantity : UInt16)
  | readInputRegisters (address quantity : UInt16)
  | writeSingleCoil (address : UInt16) (on : Bool)
  | writeSingleRegister (address value : UInt16)
  | writeMultipleCoils (address quantity : UInt16) (values : Bytes)
  | writeMultipleRegisters (address quantity : UInt16) (values : Bytes)
  | readFileRecord (byteCount : UInt8) (records : List FileRecord)
  | writeFileRecord (byteCount : UInt8) (records : List FileRecord)
  | readWriteMultipleRegisters (readAddress readQuantity writeAddress writeQuantity : UInt16) (values : Bytes)
  | readDeviceIdentification (interface code object : UInt8)
  deriving Repr, DecidableEq

namespace Operation

def quantityOk (f : Function) (quantity byteCount : UInt16) : Bool := (Limits.checkQuantity f quantity byteCount).isOk

def recordType : UInt8 := 6
def identification : UInt8 := 14

-- The byte count goes out as it is given, so it has to describe the records; only
-- records to be written have data, as much as they say.
def recordsOk (f : Function) (byteCount : UInt8) (records : List FileRecord) : Bool :=
  !records.isEmpty && quantityOk f byteCount.toUInt16 0 &&
    FileRecord.totalSize records == byteCount.toNat &&
    records.all fun r => r.referenceType == recordType &&
      (if f = .writeFileRecord then r.data.length == r.length.toNat else r.data.isEmpty)

def read? (f : Function) (address quantity : UInt16) : Option (Request × UInt16) :=
  if quantityOk f quantity 0 then some (.read f address quantity,0) else none

def write? (f : Function) (address quantity : UInt16) (values : Bytes) : Option (Request × UInt16) :=
  let n := UInt16.ofNat values.length
  if 255 < values.length || !quantityOk f quantity n then none else some (.writeMultiple f address quantity values,n)

def request? : Operation → Option (Request × UInt16)
  | readCoils a q => read? .readCoils a q
  | readDiscreteInputs a q => read? .readDiscreteInputs a q
  | readHoldingRegisters a q => read? .readHoldingRegisters a q
  | readInputRegisters a q => read? .readInputRegisters a q
  | writeSingleCoil a on => some (.writeSingle .writeSingleCoil a (WriteValue.coilValue on),0)
  | writeSingleRegister a v => some (.writeSingle .writeSingleRegister a v,0)
  | writeMultipleCoils a q values => write? .writeMultipleCoils a q values
  | writeMultipleRegisters a q values => write? .writeMultipleRegisters a q values
  | readFileRecord n records =>
    if recordsOk .readFileRecord n records then some (.readRecords n records,n.toUInt16) else none
  | writeFileRecord n records =>
    if recordsOk .writeFileRecord n records then some (.writeRecords n records,n.toUInt16) else none
  | readWriteMultipleRegisters ra rq wa wq values =>
    let n := UInt16.ofNat values.length
    if 255 < values.length || !quantityOk .readHoldingRegisters rq 0 || !quantityOk .readWriteMultipleRegisters wq n then
      none
    else some (.readWrite ra rq wa wq values,n)
  | readDeviceIdentification i c o =>
    if i != identification || !(1 ≤ c && c ≤ 4) then none else some (.deviceAddress i c o,0)

def ofPoint (p : Point) : Operation :=
  match p.registerType with
  | .coil => readCoils p.address p.width
  | .discreteInput => readDiscreteInputs p.address p.width
  | .holding => readHoldingRegisters p.address p.width
  | .input => readInputRegisters p.address p.width

def ofWrite (address : UInt16) : WriteValue → Operation
  | .coil on => writeSingleCoil address on
  | .register v => writeSingleRegister address v
  | .coils q values => writeMultipleCoils address q values
  | .registers q values => writeMultipleRegisters address q values

end Operation
end ModbusMaster
