import ModbusMaster.Text.Hex
namespace ModbusMaster

inductive Function where
  | readCoils
  | readDiscreteInputs
  | readHoldingRegisters
  | readInputRegisters
  | writeSingleCoil
  | writeSingleRegister
  | writeMultipleCoils
  | writeMultipleRegisters
  | readFileRecord
  | writeFileRecord
  | readWriteMultipleRegisters
  | readDeviceIdentification
  deriving Repr, DecidableEq, Inhabited

namespace Function

def all : List Function :=
  [readCoils,readDiscreteInputs,readHoldingRegisters,readInputRegisters,writeSingleCoil,writeSingleRegister,
    writeMultipleCoils,writeMultipleRegisters,readFileRecord,writeFileRecord,readWriteMultipleRegisters,
    readDeviceIdentification]

def code : Function → UInt8
  | readCoils => 0x01
  | readDiscreteInputs => 0x02
  | readHoldingRegisters => 0x03
  | readInputRegisters => 0x04
  | writeSingleCoil => 0x05
  | writeSingleRegister => 0x06
  | writeMultipleCoils => 0x0F
  | writeMultipleRegisters => 0x10
  | readFileRecord => 0x14
  | writeFileRecord => 0x15
  | readWriteMultipleRegisters => 0x17
  | readDeviceIdentification => 0x2B

def ofCode? (c : UInt8) : Option Function := all.find? fun f => f.code == c

def title : Function → String
  | readCoils => "Read Coils"
  | readDiscreteInputs => "Read Discrete Inputs"
  | readHoldingRegisters => "Read Holding Registers"
  | readInputRegisters => "Read Input Registers"
  | writeSingleCoil => "Write Single Coil"
  | writeSingleRegister => "Write Single Register"
  | writeMultipleCoils => "Write Multiple Coils"
  | writeMultipleRegisters => "Write Multiple Registers"
  | readFileRecord => "Read File Record"
  | writeFileRecord => "Write File Record"
  | readWriteMultipleRegisters => "Read/Write Multiple Registers"
  | readDeviceIdentification => "Read Device Identification"

def label (f : Function) : String := String.ofList (f.title.toList.filter Char.isAlpha)

def codeText (c : UInt8) : String := "0x" ++ Text.Hex.upper [c]

def text (f : Function) : String := f.title ++ " (" ++ codeText f.code ++ ")"

def isWrite : Function → Bool
  | writeSingleCoil => true
  | writeSingleRegister => true
  | writeMultipleCoils => true
  | writeMultipleRegisters => true
  | writeFileRecord => true
  | _ => false

def exceptionBit : UInt8 := 0x80

theorem ofCode?_code (f : Function) : ofCode? f.code = some f := by cases f <;> rfl

theorem mem_all (f : Function) : f ∈ all := by cases f <;> decide

end Function
end ModbusMaster
