import ModbusMaster.Point.Catalog
import ModbusMaster.Yaml.Reader
import ModbusMaster.Frame.Trace
import ModbusMaster.Timing
namespace ModbusMaster

inductive Parity where
  | none
  | odd
  | even
  deriving Repr, DecidableEq, Inhabited

def Parity.name : Parity → String
  | none => "none"
  | odd => "odd"
  | even => "even"

def Parity.ofName? (s : String) : Option Parity := [Parity.none,.odd,.even].find? fun p => p.name == s

structure SerialSettings where
  port : String
  baudRate : Nat
  parity : Parity
  dataBits : UInt8
  stopBits : UInt8
  deriving Repr, DecidableEq, Inhabited

namespace SerialSettings

def standard : SerialSettings := ⟨"/dev/ttyS0",9600,.none,8,1⟩

-- The silence that ends a frame: three and a half characters of eleven bits.
def gapUs (s : SerialSettings) : Nat := 11000000/(max s.baudRate 1)*35/10

def fieldNames : List String := ["port","baud_rate","parity","data_bits","stop_bits"]

def ofFields {α : Type} (s : Record.Source α) (get : String → Option α) (base : SerialSettings) :
    Except Record.Problem SerialSettings := do
  let port ← Record.optional get s.text? "port"
  let baud ← Record.optional get (s.bits? 32) "baud_rate"
  let parity ← Record.optional get (fun v => (s.variant? v).bind Parity.ofName?) "parity"
  let dataBits ← Record.optional get s.byte? "data_bits"
  let stopBits ← Record.optional get s.byte? "stop_bits"
  .ok ⟨port.getD base.port,baud.getD base.baudRate,parity.getD base.parity,dataBits.getD base.dataBits,
    stopBits.getD base.stopBits⟩

end SerialSettings

-- How a gateway is set up. Without a delay of its own it keeps the one of the format.
structure Settings where
  format : Format
  responseMs : Nat
  delayMs : Option Nat
  maxRetries : Nat
  slots : Nat
  writeWorkers : Nat
  responseWorkers : Nat
  writeCapacity : Nat
  packetLogging : Bool
  traceMode : TraceMode
  logLevel : String
  serial : SerialSettings
  points : List Point
  deriving Repr, Inhabited

namespace Settings

def standard : Settings :=
  ⟨.tcp,Timing.defaultResponseMs,none,0,1000,1,1,1024,false,.interpreted,"info",SerialSettings.standard,[]⟩

def fieldNames : List String :=
  ["mode","response_timeout_ms","inter_frame_delay_ms","max_retries","max_requests_in_flight","write_workers",
    "response_workers","write_queue_capacity","packet_logging","logging_mode","log_level","serial","points"]

def formatOfName? (s : String) : Option Format := [Format.tcp,.rtu].find? fun f => f.name == s

def serialOfYaml? (v : Yaml) : Option SerialSettings :=
  (v.fields? SerialSettings.fieldNames).bind fun ms =>
    (SerialSettings.ofFields Yaml.source (fun n => ms.lookup n) SerialSettings.standard).toOption

def pointOfYaml? (v : Yaml) : Option Point :=
  (v.fields? Point.fieldNames).bind fun ms => (Point.ofFields Yaml.source fun n => ms.lookup n).toOption

def ofFields (get : String → Option Yaml) : Except Record.Problem Settings := do
  let s := Yaml.source
  let base := standard
  let format ← Record.optional get (fun v => (s.variant? v).bind formatOfName?) "mode"
  let responseMs ← Record.optional get (s.bits? 64) "response_timeout_ms"
  let delayMs ← Record.optional get (Record.nullable s (s.bits? 64)) "inter_frame_delay_ms"
  let maxRetries ← Record.optional get (s.bits? 32) "max_retries"
  let slots ← Record.optional get (s.bits? 64) "max_requests_in_flight"
  let writeWorkers ← Record.optional get (s.bits? 64) "write_workers"
  let responseWorkers ← Record.optional get (s.bits? 64) "response_workers"
  let writeCapacity ← Record.optional get (s.bits? 64) "write_queue_capacity"
  let packetLogging ← Record.optional get s.flag? "packet_logging"
  let traceMode ← Record.optional get (fun v => (s.variant? v).bind TraceMode.ofName?) "logging_mode"
  let logLevel ← Record.optional get s.text? "log_level"
  let serial ← Record.optional get serialOfYaml? "serial"
  let points ← Record.optional get (fun v => v.items?.bind fun vs => vs.mapM pointOfYaml?) "points"
  .ok ⟨format.getD base.format,responseMs.getD base.responseMs,delayMs.join,maxRetries.getD base.maxRetries,
    slots.getD base.slots,writeWorkers.getD base.writeWorkers,responseWorkers.getD base.responseWorkers,
    writeCapacity.getD base.writeCapacity,packetLogging.getD base.packetLogging,traceMode.getD base.traceMode,
    logLevel.getD base.logLevel,serial.getD base.serial,points.getD base.points⟩

def ofYaml (text : String) : Except Fault Settings :=
  let fault : Fault := .configuration "YAML error"
  match (Yaml.read? text).bind (Yaml.fields? fieldNames) with
  | none => .error fault
  | some ms => (ofFields fun n => ms.lookup n).mapError fun _ => fault

def switchOf? (s : String) : Option Bool :=
  let word := String.ofList (Text.lowerAscii (Text.trim s.toList))
  if ["1","true","yes","on"].contains word then some true
  else if ["0","false","no","off"].contains word then some false
  else none

def overrideMs? (s : String) : Option Nat :=
  (Text.integer? (Text.trim s.toList)).bind fun ms => if Timing.inRange ms then some ms.toNat else none

def retriesOf? (s : String) : Option Nat :=
  (Text.natural? (Text.trim s.toList)).bind fun n => if n < 0x100000000 then some n else none

def overridden (s : Settings) (env : String → Option String) : Settings :=
  {s with
    responseMs:=((env "MODBUS_RESPONSE_TIMEOUT_MS").bind overrideMs?).getD s.responseMs,
    delayMs:=match (env "MODBUS_INTERFRAME_DELAY_MS").bind overrideMs? with
      | some ms => some ms
      | none => s.delayMs,
    maxRetries:=((env "MODBUS_MAX_RETRIES").bind retriesOf?).getD s.maxRetries,
    packetLogging:=((env "MODBUS_PACKET_LOGGING").bind switchOf?).getD s.packetLogging}

def validate (s : Settings) : Except Fault Unit :=
  if s.slots = 0 || 65535 ≤ s.slots then
    .error (.configuration ("max_requests_in_flight must be 1..65535, got " ++ toString s.slots))
  else if s.writeWorkers = 0 || s.responseWorkers = 0 then
    .error (.configuration "worker counts must be at least 1")
  else if s.format = .rtu && s.serial.baudRate = 0 then
    .error (.configuration "serial baud_rate must be non-zero")
  else s.points.forM fun p => p.validate s.format

-- The delay between frames: the one set, or on a serial line the silence that ends
-- a frame, in whole milliseconds.
def effectiveDelayMs (s : Settings) : Nat :=
  match s.delayMs,s.format with
  | some ms,_ => ms
  | none,.tcp => 0
  | none,.rtu => (s.serial.gapUs+999)/1000

def timing (s : Settings) : Timing :=
  (Timing.ofMillis s.responseMs s.effectiveDelayMs).withRetries s.maxRetries

-- A file that cannot be read is no configuration; its values are checked after the overrides.
def load (path : String) (text : Except String String) (env : String → Option String) : Except Fault Settings := do
  let text ← text.mapError fun e => Fault.configuration ("Cannot read " ++ path ++ ": " ++ e)
  let s ← ofYaml text
  let s := s.overridden env
  s.validate
  .ok s

end Settings
end ModbusMaster
