import ModbusMaster.Text.Hex
namespace ModbusMaster

inductive DeviceException where
  | illegalFunction
  | illegalDataAddress
  | illegalDataValue
  | deviceFailure
  | acknowledge
  | deviceBusy
  | memoryParity
  | pathUnavailable
  | targetSilent
  deriving Repr, DecidableEq

namespace DeviceException

def all : List DeviceException :=
  [illegalFunction,illegalDataAddress,illegalDataValue,deviceFailure,acknowledge,deviceBusy,memoryParity,
    pathUnavailable,targetSilent]

def code : DeviceException → UInt8
  | illegalFunction => 0x01
  | illegalDataAddress => 0x02
  | illegalDataValue => 0x03
  | deviceFailure => 0x04
  | acknowledge => 0x05
  | deviceBusy => 0x06
  | memoryParity => 0x08
  | pathUnavailable => 0x0A
  | targetSilent => 0x0B

def ofCode? (c : UInt8) : Option DeviceException := all.find? fun e => e.code == c

def description : DeviceException → String
  | illegalFunction => "function code not supported by the device"
  | illegalDataAddress => "data address not available on the device"
  | illegalDataValue => "value in the query data field not allowed"
  | deviceFailure => "unrecoverable error while performing the action"
  | acknowledge => "request accepted, long processing time"
  | deviceBusy => "device busy with a long-duration command"
  | memoryParity => "parity error reading the record file"
  | pathUnavailable => "gateway could not allocate a path"
  | targetSilent => "no response from the target device"

def text (e : DeviceException) : String :=
  "Modbus Exception 0x" ++ Text.Hex.upper [e.code] ++ ": " ++ e.description

def describe (c : UInt8) : String :=
  match ofCode? c with
  | some e => e.description
  | none => "Unknown Exception"

end DeviceException
end ModbusMaster
