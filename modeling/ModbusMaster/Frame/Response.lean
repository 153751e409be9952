import ModbusMaster.Frame.Request
namespace ModbusMaster

-- A response frame by its fields: the function without the exception bit, the
-- exception code if the device refused, and the octets after the function code.
structure Response where
  transaction : Option UInt16
  unit : UInt8
  function : UInt8
  exception : Option UInt8
  payload : Bytes
  deriving Repr, DecidableEq

namespace Response

-- The values of a read behind their byte count; other payloads are whole.
def data (r : Response) : Bytes :=
  let counted := match Function.ofCode? r.function with
    | some .readCoils => true
    | some .readDiscreteInputs => true
    | some .readHoldingRegisters => true
    | some .readInputRegisters => true
    | some .readWriteMultipleRegisters => true
    | some .readFileRecord => true
    | _ => false
  match counted,r.payload with
  | true,count::values => values.take count.toNat
  | _,payload => payload

def split : Bytes → Except Frame.Refusal (UInt8 × Option UInt8 × Bytes)
  | [] => .error .emptyBody
  | f::rest =>
    if f &&& Function.exceptionBit != 0 then
      match rest with
      | [] => .error .noExceptionCode
      | code::_ => .ok (f &&& 0x7F,some code,[])
    else .ok (f,none,rest)

def decodeTcp (frame : Bytes) : Except Frame.Refusal Response :=
  match frame with
  | t1::t0::p1::p0::n1::n0::unit::pdu =>
    let protocol := Bytes.word p1 p0
    let length := (Bytes.word n1 n0).toNat
    if pdu.isEmpty then .error .tooShort
    else if protocol != 0 then .error (.protocol protocol)
    else if length < 2 || frame.length < Format.headerSize+length then .error .incomplete
    else match split (pdu.take (length-1)) with
      | .error e => .error e
      | .ok (f,exception,payload) => .ok ⟨some (Bytes.word t1 t0),unit,f,exception,payload⟩
  | _ => .error .tooShort

def checksumOf (frame : Bytes) : Option (Bytes × UInt16) :=
  match frame.reverse with
  | hi::lo::body => some (body.reverse,Bytes.word hi lo)
  | _ => none

def decodeRtu (frame : Bytes) : Except Frame.Refusal Response :=
  if frame.length < 5 then .error .tooShort else
  match checksumOf frame with
  | none => .error .tooShort
  | some (body,received) =>
    let computed := Crc.checksum body
    if received != computed then .error (.crc computed received) else
    match body with
    | [] => .error .emptyBody
    | unit::pdu => match split pdu with
      | .error e => .error e
      | .ok (f,exception,payload) => .ok ⟨none,unit,f,exception,payload⟩

def decode (format : Format) (frame : Bytes) : Except Frame.Refusal Response :=
  match format with
  | .tcp => decodeTcp frame
  | .rtu => decodeRtu frame

end Response
end ModbusMaster
