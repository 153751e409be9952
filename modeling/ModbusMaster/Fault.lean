import ModbusMaster.Protocol.Function
import ModbusMaster.Protocol.Exception
namespace ModbusMaster

-- What can go wrong on the way between a caller and a device.
inductive Fault where
  | io (message : String)
  | connection (message : String)
  | timeout (operation : String) (ms : Nat)
  | invalidFunction (code : UInt8)
  | invalidData (message : String)
  | crcMismatch (expected actual : UInt16)
  | exception (function code : UInt8)
  | frame (message : String)
  | configuration (message : String)
  | unknownPoint (name : String)
  | internal (message : String)
  deriving Repr, DecidableEq, Inhabited

namespace Fault

def hex4 (w : UInt16) : String := Text.Hex.upper (Bytes.be16 w)

def message : Fault → String
  | io m => "I/O error: " ++ m
  | connection m => "Connection error: " ++ m
  | timeout op ms => "Timeout after " ++ toString ms ++ "ms: " ++ op
  | invalidFunction c => "Invalid function code: " ++ toString c.toNat
  | invalidData m => "Invalid data: " ++ m
  | crcMismatch e a => "CRC validation failed: expected=" ++ hex4 e ++ ", actual=" ++ hex4 a
  | exception f c =>
    "Modbus exception: function=" ++ Text.Hex.upper [f] ++ ", code=" ++ Text.Hex.upper [c] ++
      " (" ++ DeviceException.describe c ++ ")"
  | frame m => "Frame error: " ++ m
  | configuration m => "Configuration error: " ++ m
  | unknownPoint n => "Unknown point: " ++ n
  | internal m => "Internal error: " ++ m

def kind : Fault → String
  | io _ => "Io"
  | connection _ => "Connection"
  | timeout .. => "Timeout"
  | invalidFunction _ => "InvalidFunction"
  | invalidData _ => "InvalidData"
  | crcMismatch .. => "CrcMismatch"
  | exception .. => "Exception"
  | frame _ => "Frame"
  | configuration _ => "Configuration"
  | unknownPoint _ => "UnknownPoint"
  | internal _ => "Internal"

def isTransport : Fault → Bool
  | io _ => true
  | connection _ => true
  | timeout .. => true
  | _ => false

def isProtocol : Fault → Bool
  | invalidFunction _ => true
  | crcMismatch .. => true
  | exception .. => true
  | frame _ => true
  | _ => false

def isRecoverable : Fault → Bool
  | exception _ c => c == DeviceException.acknowledge.code || c == DeviceException.deviceBusy.code
  | f => f.isTransport

def elapsed : Fault := timeout "Operation timeout" 0

def serialPort (message : String) : Fault := connection ("Serial port error: " ++ message)

theorem toOption_ok {ε α : Type} {x : Except ε α} {a : α} (done : x.toOption = some a) : x = .ok a := by
  cases x with
  | error e => cases done
  | ok b => exact congrArg _ (Option.some.inj done)

theorem bind_ok {ε α β : Type} {x : Except ε α} {f : α → Except ε β} {b : β} (done : (x >>= f) = .ok b) :
    ∃ a, x = .ok a ∧ f a = .ok b := by
  cases x with
  | error e => cases done
  | ok a => exact ⟨a,rfl,done⟩

theorem mapError_ok {ε ε' α : Type} {x : Except ε α} {f : ε → ε'} {a : α} (done : x.mapError f = .ok a) :
    x = .ok a := by
  cases x with
  | error e => cases done
  | ok b => exact congrArg _ (Except.ok.inj done)

end Fault

inductive CallStatus where
  | success
  | invalidInputParameter
  | maxRequestsInFlight
  | packetLengthExceeded
  | queueSendFailed
  | stackAlreadyInitialized
  | stackNotInitialized
  deriving Repr, DecidableEq, Inhabited

namespace CallStatus

def all : List CallStatus :=
  [success,invalidInputParameter,maxRequestsInFlight,packetLengthExceeded,queueSendFailed,
    stackAlreadyInitialized,stackNotInitialized]

def code : CallStatus → Nat
  | success => 0
  | invalidInputParameter => 1
  | maxRequestsInFlight => 2
  | packetLengthExceeded => 3
  | queueSendFailed => 4
  | stackAlreadyInitialized => 5
  | stackNotInitialized => 6

def label : CallStatus → String
  | success => "Success"
  | invalidInputParameter => "InvalidInputParameter"
  | maxRequestsInFlight => "MaxRequestsInFlight"
  | packetLengthExceeded => "PacketLengthExceeded"
  | queueSendFailed => "QueueSendFailed"
  | stackAlreadyInitialized => "StackAlreadyInitialized"
  | stackNotInitialized => "StackNotInitialized"

def text (s : CallStatus) : String :=
  let words := match s with
    | success => "success"
    | invalidInputParameter => "invalid input parameter"
    | maxRequestsInFlight => "maximum requests in flight"
    | packetLengthExceeded => "packet length exceeded"
    | queueSendFailed => "queue send failed"
    | stackAlreadyInitialized => "stack already initialized"
    | stackNotInitialized => "stack not initialized"
  words ++ " (" ++ toString s.code ++ ")"

end CallStatus

inductive Outcome where
  | success
  | exception (code : UInt8)
  | timeout
  | shutdown
  | transport (message : String)
  deriving Repr, DecidableEq, Inhabited

namespace Outcome

def exceptionCode : Outcome → UInt8
  | exception c => c
  | _ => 0

def text : Outcome → String
  | success => "success"
  | exception c => "exception " ++ Function.codeText c
  | timeout => "timeout"
  | shutdown => "shutdown"
  | transport m => "transport error: " ++ m

end Outcome
end ModbusMaster
