import ModbusMaster.Fault
import ModbusMaster.Frame.Format
import ModbusMaster.Frame.Crc
namespace ModbusMaster

-- One part of a file record request; the data is there for writing only.
structure FileRecord where
  referenceType : UInt8
  file : UInt16
  record : UInt16
  length : UInt16
  data : List UInt16
  deriving Repr, DecidableEq

def FileRecord.size (r : FileRecord) : Nat := 7+r.data.length*2
def FileRecord.totalSize (rs : List FileRecord) : Nat := rs.foldr (fun r n => r.size+n) 0

def FileRecord.encode (r : FileRecord) : Bytes :=
  r.referenceType::Bytes.be16 r.file ++ Bytes.be16 r.record ++ Bytes.be16 r.length ++ r.data.flatMap Bytes.be16

inductive Request where
  | read (function : Function) (address quantity : UInt16)
  | writeSingle (function : Function) (address value : UInt16)
  | writeMultiple (function : Function) (address quantity : UInt16) (values : Bytes)
  | readRecords (byteCount : UInt8) (records : List FileRecord)
  | writeRecords (byteCount : UInt8) (records : List FileRecord)
  | readWrite (readAddress readQuantity writeAddress writeQuantity : UInt16) (values : Bytes)
  | deviceAddress (interface code object : UInt8)
  deriving Repr, DecidableEq

namespace Request

def function : Request → Function
  | read f .. => f
  | writeSingle f .. => f
  | writeMultiple f .. => f
  | readRecords .. => .readFileRecord
  | writeRecords .. => .writeFileRecord
  | readWrite .. => .readWriteMultipleRegisters
  | deviceAddress .. => .readDeviceIdentification

def address : Request → UInt16
  | read _ a _ => a
  | writeSingle _ a _ => a
  | writeMultiple _ a .. => a
  | readWrite a .. => a
  | _ => 0

def quantity : Request → UInt16
  | read _ _ q => q
  | writeSingle .. => 1
  | writeMultiple _ _ q _ => q
  | readWrite _ q .. => q
  | _ => 0

def size : Request → Nat
  | read .. => 5
  | writeSingle .. => 5
  | writeMultiple _ _ _ values => 6+values.length
  | readRecords _ records => 2+FileRecord.totalSize records
  | writeRecords _ records => 2+FileRecord.totalSize records
  | readWrite _ _ _ _ values => 10+values.length
  | deviceAddress .. => 4

def body : Request → Bytes
  | read _ a q => Bytes.be16 a ++ Bytes.be16 q
  | writeSingle _ a v => Bytes.be16 a ++ Bytes.be16 v
  | writeMultiple _ a q values => Bytes.be16 a ++ Bytes.be16 q ++ UInt8.ofNat values.length::values
  | readRecords n records => n::records.flatMap FileRecord.encode
  | writeRecords n records => n::records.flatMap FileRecord.encode
  | readWrite ra rq wa wq values =>
    Bytes.be16 ra ++ Bytes.be16 rq ++ Bytes.be16 wa ++ Bytes.be16 wq ++ UInt8.ofNat values.length::values
  | deviceAddress i c o => [i,c,o]

def encode (r : Request) : Bytes := r.function.code::r.body

end Request

namespace Frame

inductive Refusal where
  | tooLong (length limit : Nat)
  | tooShort
  | protocol (id : UInt16)
  | incomplete
  | emptyBody
  | noExceptionCode
  | crc (expected actual : UInt16)
  deriving Repr, DecidableEq

def Refusal.fault : Refusal → Fault
  | tooLong n limit => .frame ("frame length " ++ toString n ++ " exceeds maximum ADU " ++ toString limit)
  | tooShort => .frame "Frame too short"
  | protocol id => .frame ("Unexpected protocol id " ++ toString id.toNat)
  | incomplete => .frame "Incomplete frame"
  | emptyBody => .frame "Empty PDU"
  | noExceptionCode => .frame "Invalid exception response"
  | crc e a => .crcMismatch e a

def sealed (b : Bytes) : Bytes := b ++ Bytes.le16 (Crc.checksum b)

-- Frames the octets of a request or response. Only a stream frame shows the transaction.
def wrap (format : Format) (transaction : UInt16) (unit : UInt8) (pdu : Bytes) : Bytes :=
  match format with
  | .tcp => Bytes.be16 transaction ++ Bytes.be16 0 ++ Bytes.be16 (UInt16.ofNat (pdu.length+1)) ++ unit::pdu
  | .rtu => sealed (unit::pdu)

def build (format : Format) (transaction : UInt16) (unit : UInt8) (r : Request) : Except Refusal Bytes :=
  let length := format.aduLength r.size
  if format.maxAdu < length then .error (.tooLong length format.maxAdu)
  else .ok (wrap format transaction unit r.encode)

structure Header where
  transaction : Option UInt16
  unit : UInt8
  function : UInt8
  address : UInt16
  quantity : UInt16
  deriving Repr, DecidableEq

def header (format : Format) (frame : Bytes) : Except Refusal Header :=
  match format,frame with
  | .tcp,t1::t0::_::_::_::_::unit::f::a1::a0::q1::q0::_ =>
    .ok ⟨some (Bytes.word t1 t0),unit,f,Bytes.word a1 a0,Bytes.word q1 q0⟩
  | .rtu,unit::f::a1::a0::q1::q0::_::_::_ => .ok ⟨none,unit,f,Bytes.word a1 a0,Bytes.word q1 q0⟩
  | _,_ => .error .tooShort

end Frame

theorem FileRecord.length_encode (r : FileRecord) : r.encode.length = r.size := by
  have h : (r.data.flatMap Bytes.be16).length = r.data.length*2 := by
    induction r.data with
    | nil => rfl
    | cons w rest ih => simp only [List.flatMap_cons,List.length_append,Bytes.length_be16,List.length_cons,ih]; omega
  simp only [encode,size,List.length_append,List.length_cons,Bytes.length_be16,h]

theorem Request.length_records (records : List FileRecord) :
    (records.flatMap FileRecord.encode).length = FileRecord.totalSize records := by
  induction records with
  | nil => rfl
  | cons r rest ih => simp [FileRecord.totalSize,FileRecord.length_encode,ih]

theorem Request.length_encode (r : Request) : r.encode.length = r.size := by
  cases r with
  | readRecords n records => simp only [encode,body,size,List.length_cons,length_records]; omega
  | writeRecords n records => simp only [encode,body,size,List.length_cons,length_records]; omega
  | _ => simp [encode,body,size]; try omega

end ModbusMaster
