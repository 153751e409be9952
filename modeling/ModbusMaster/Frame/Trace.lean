import ModbusMaster.Protocol.Function
import ModbusMaster.Frame.Format
namespace ModbusMaster

-- Lines that show the frames on a line to a person.

inductive TraceMode where
  | raw
  | interpreted
  | both
  deriving Repr, DecidableEq, Inhabited

namespace TraceMode

def label : TraceMode → String
  | raw => "Raw"
  | interpreted => "Interpreted"
  | both => "Both"

def name : TraceMode → String
  | raw => "raw"
  | interpreted => "interpreted"
  | both => "both"

def ofName? (s : String) : Option TraceMode := [raw,interpreted,both].find? fun m => m.name == s

end TraceMode

inductive Direction where
  | outgoing
  | incoming
  deriving Repr, DecidableEq

def Direction.arrow : Direction → String
  | outgoing => "->"
  | incoming => "<-"

namespace Trace

def interpret (format : Format) (frame : Bytes) : String :=
  let fields (transaction : String) (unit f : UInt8) (body : Bytes) : String :=
    let subject := transaction ++ "unit: " ++ toString unit.toNat ++ ", "
    if f &&& Function.exceptionBit != 0 then
      subject ++ "exception for " ++ Function.codeText (f &&& 0x7F) ++ ": code 0x" ++ Text.Hex.lower body
    else
      let name := match Function.ofCode? f with
        | some g => g.text
        | none => "Unknown (" ++ Function.codeText f ++ ")"
      subject ++ "function: " ++ name ++ ", data: " ++ Text.Hex.lower body
  let short := "short frame: " ++ Text.Hex.lower frame
  match format,frame with
  | .tcp,t1::t0::_::_::_::_::unit::f::body =>
    fields ("txn: " ++ toString (Bytes.word t1 t0).toNat ++ ", ") unit f body
  | .rtu,unit::f::body => if frame.length > 3 then fields "" unit f (body.take (body.length-2)) else short
  | _,_ => short

def lines (mode : TraceMode) (direction : Direction) (format : Format) (frame : Bytes) : List (Bool × String) :=
  let start := "[MODBUS-" ++ format.text ++ "] " ++ direction.arrow ++ " "
  let meant := (false,start ++ interpret format frame)
  let bare := (true,start ++ "raw: " ++ Text.Hex.spaced frame)
  match mode with
  | .raw => [bare]
  | .interpreted => [meant]
  | .both => [meant,bare]

-- How a tracer shows itself; `receiver` says whether its lines go to a receiver of their own.
def describe (mode : TraceMode) (receiver : Bool) : String :=
  "FrameLogger \x7b mode: " ++ mode.label ++ ", callback: " ++ (if receiver then "true" else "false") ++ " \x7d"

end Trace
end ModbusMaster
