import ModbusMaster.Fault
import ModbusMaster.Json.Record
import ModbusMaster.Protocol.Limits
import ModbusMaster.Protocol.WordOrder
import ModbusMaster.Network.Device
import ModbusMaster.Frame.Format
namespace ModbusMaster

inductive RegisterType where
  | coil
  | discreteInput
  | holding
  | input
  deriving Repr, DecidableEq, Inhabited

namespace RegisterType

def name : RegisterType → String
  | coil => "coil"
  | discreteInput => "discrete_input"
  | holding => "holding"
  | input => "input"

def ofName? (s : String) : Option RegisterType := [coil,discreteInput,holding,input].find? fun t => t.name == s

def readFunction : RegisterType → Function
  | coil => .readCoils
  | discreteInput => .readDiscreteInputs
  | holding => .readHoldingRegisters
  | input => .readInputRegisters

def writeFunction? (t : RegisterType) (width : UInt16) : Option Function :=
  match t with
  | coil => some (if width = 1 then .writeSingleCoil else .writeMultipleCoils)
  | holding => some (if width = 1 then .writeSingleRegister else .writeMultipleRegisters)
  | _ => none

def isBit : RegisterType → Bool
  | coil => true
  | discreteInput => true
  | _ => false

end RegisterType

inductive ValueType where
  | boolean
  | int
  | uint
  | float
  | double
  | string
  deriving Repr, DecidableEq, Inhabited

namespace ValueType

def name : ValueType → String
  | boolean => "boolean"
  | int => "int"
  | uint => "uint"
  | float => "float"
  | double => "double"
  | string => "string"

def ofName? (s : String) : Option ValueType := [boolean,int,uint,float,double,string].find? fun t => t.name == s

end ValueType

-- One named value on one device. The width counts registers, or bits in a bit table.
structure Point where
  wellhead : String
  device : String
  metric : String
  endpoint : Option String
  unit : UInt8
  registerType : RegisterType
  address : UInt16
  width : UInt16
  dataType : ValueType
  scale : Double
  byteSwap : Bool
  wordSwap : Bool
  pollingMs : Option Nat
  priority : Int
  deriving Repr, DecidableEq, Inhabited

namespace Point

def key (p : Point) : String := p.wellhead ++ "/" ++ p.device ++ "/" ++ p.metric

def order (p : Point) : WordOrder := ⟨p.byteSwap,p.wordSwap⟩

def defaultPort : UInt16 := 502

def endpointAddress? (s : String) : Option SocketAddress :=
  match SocketAddress.parse? s with
  | some a => some a
  | none => (IpAddress.parse? s).map fun ip => ⟨ip,0,defaultPort⟩

inductive Defect where
  | noEndpoint
  | badEndpoint (endpoint : String)
  | badUnit (unit : UInt8)
  | noWidth
  | noInterval
  | zeroInterval
  deriving Repr, DecidableEq

def Defect.fault (p : Point) (d : Defect) : Fault :=
  let subject := "Point " ++ p.key
  .configuration (match d with
    | noEndpoint => subject ++ " has no endpoint"
    | badEndpoint e => subject ++ ": bad endpoint '" ++ e ++ "': invalid IP address syntax"
    | badUnit u => subject ++ ": invalid unit id " ++ toString u.toNat
    | noWidth => subject ++ ": width must be non-zero"
    | noInterval => subject ++ " has no polling interval"
    | zeroInterval => subject ++ ": polling interval must be non-zero")

def deviceAddress (p : Point) (format : Format) : Except Defect DeviceAddress :=
  match format with
  | .rtu => .ok ⟨.serial,p.unit⟩
  | .tcp => match p.endpoint with
    | none => .error .noEndpoint
    | some e => match endpointAddress? e with
      | some a => .ok ⟨.tcp a,p.unit⟩
      | none => .error (.badEndpoint e)

def check (p : Point) (format : Format) : Except Defect Unit :=
  if !Limits.unitValid p.unit then .error (.badUnit p.unit)
  else if p.width = 0 then .error .noWidth
  else if p.pollingMs = some 0 then .error .zeroInterval
  else match p.deviceAddress format with
    | .ok _ => .ok ()
    | .error d => .error d

def validate (p : Point) (format : Format) : Except Fault Unit := (p.check format).mapError (Defect.fault p)

def fieldNames : List String :=
  ["wellhead","device","metric","endpoint","unit_id","register_type","address","width","data_type","scale",
    "byte_swap","word_swap","polling_interval_ms","priority"]

-- A wrong type anywhere counts before a missing field.
def ofFields {α : Type} (s : Record.Source α) (get : String → Option α) : Except Record.Problem Point := do
  let wellhead ← Record.optional get s.text? "wellhead"
  let device ← Record.optional get s.text? "device"
  let metric ← Record.optional get s.text? "metric"
  let endpoint ← Record.optional get (Record.nullable s s.text?) "endpoint"
  let unit ← Record.optional get s.byte? "unit_id"
  let registerType ← Record.optional get (fun v => (s.variant? v).bind RegisterType.ofName?) "register_type"
  let address ← Record.optional get s.word? "address"
  let width ← Record.optional get s.word? "width"
  let dataType ← Record.optional get (fun v => (s.variant? v).bind ValueType.ofName?) "data_type"
  let scale ← Record.optional get s.number? "scale"
  let byteSwap ← Record.optional get s.flag? "byte_swap"
  let wordSwap ← Record.optional get s.flag? "word_swap"
  let pollingMs ← Record.optional get (Record.nullable s (s.bits? 64)) "polling_interval_ms"
  let priority ← Record.optional get s.signed? "priority"
  let wellhead ← Record.required "wellhead" wellhead
  let device ← Record.required "device" device
  let metric ← Record.required "metric" metric
  let unit ← Record.required "unit_id" unit
  let registerType ← Record.required "register_type" registerType
  let address ← Record.required "address" address
  .ok ⟨wellhead,device,metric,endpoint.join,unit,registerType,address,width.getD 1,dataType.getD .int,
    scale.getD Double.one,byteSwap.getD false,wordSwap.getD false,pollingMs.join,priority.getD 1⟩

def ofJson : Json → Except Record.Problem Point
  | .object ms => ofFields Json.source fun name => (ms.find? fun m => m.1 == name).map (·.2)
  | .list items =>
    if fieldNames.length < items.length then .error .malformed
    else (ofFields Json.source fun name => (fieldNames.zip items).lookup name).mapError fun _ => .malformed
  | _ => .error .malformed

def jsonFault : Record.Problem → Fault
  | .malformed => .invalidData "JSON error"
  | .missing name => .invalidData ("JSON error: missing field `" ++ name ++ "`")

end Point
end ModbusMaster
