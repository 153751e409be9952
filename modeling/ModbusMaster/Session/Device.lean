import ModbusMaster.Frame.Response
import ModbusMaster.Number.Power
namespace ModbusMaster

-- The far end of a session: what comes of each attempt to connect, and of each frame sent.

structure Dial where
  delayUs : Nat
  failure : Option Fault
  deriving Repr, Inhabited

structure Arrival where
  delayUs : Nat
  item : Except Fault Bytes
  deriving Inhabited

inductive Exchange where
  | refused (fault : Fault)
  | answered (arrivals : List Arrival)
  deriving Inhabited

-- By the count of earlier connects, and of earlier frames.
structure Device where
  dial : Nat → Dial
  answer : Nat → Bytes → Exchange
  deriving Inhabited

inductive ReplyBody where
  | raw (frame : Bytes)
  | pdu (b : Bytes)
  | registers (values : List UInt16)
  | automatic
  deriving Repr, Inhabited

-- A reply to whatever is asked. The fields of the frame can be set off from those
-- that the request calls for.
structure Reply where
  body : ReplyBody
  transactionShift : UInt16
  protocol : UInt16
  unit : Option UInt8
  checksumFlip : UInt16
  deriving Repr, Inhabited

namespace Reply

def packBits : List Bool → Bytes
  | [] => []
  | b::bits =>
    let octet := ((b::bits).take 8).zipIdx.foldl (fun n x => if x.1 then n+Number.pow2 x.2 else n) 0
    UInt8.ofNat octet::packBits (bits.drop 7)
  termination_by bits => bits.length
  decreasing_by simp only [List.length_drop,List.length_cons]; omega

def isThird (address i : Nat) : Bool := (address+i)%3 == 0

def automaticPdu (request : Bytes) : Bytes :=
  match request with
  | f::a1::a0::q1::q0::_ =>
    let address := Bytes.word a1 a0
    let quantity := (Bytes.word q1 q0).toNat
    if f ∈ ([0x01,0x02] : Bytes) then
      f::UInt8.ofNat ((quantity+7)/8)::packBits ((List.range quantity).map (isThird address.toNat))
    else if f ∈ ([0x03,0x04,0x17] : Bytes) then
      f::UInt8.ofNat (quantity*2)::(List.range quantity).flatMap fun i => Bytes.be16 (address+UInt16.ofNat i)
    else if f ∈ ([0x05,0x06,0x0F,0x10] : Bytes) then request.take 5
    else [f ||| Function.exceptionBit,1]
  | f::_ => [f ||| Function.exceptionBit,1]
  | [] => []

def partsOf (format : Format) (frame : Bytes) : UInt16 × UInt8 × Bytes :=
  match format,frame with
  | .tcp,t1::t0::_::_::_::_::unit::pdu => (Bytes.word t1 t0,unit,pdu)
  | .rtu,unit::rest => (0,unit,rest.take (rest.length-2))
  | _,_ => (0,0,[])

def frame (r : Reply) (format : Format) (request : Bytes) : Bytes :=
  let (transaction,unit,asked) := partsOf format request
  let framed (pdu : Bytes) : Bytes :=
    let unit := r.unit.getD unit
    match format with
    | .tcp =>
      Bytes.be16 (transaction+r.transactionShift) ++ Bytes.be16 r.protocol ++
        Bytes.be16 (UInt16.ofNat (pdu.length+1)) ++ unit::pdu
    | .rtu => unit::pdu ++ Bytes.le16 (Crc.checksum (unit::pdu) ^^^ r.checksumFlip)
  match r.body with
  | .raw b => b
  | .pdu b => framed b
  | .registers values => framed (asked.take 1 ++ UInt8.ofNat (values.length*2)::values.flatMap Bytes.be16)
  | .automatic => framed (automaticPdu asked)

def plain (body : ReplyBody) : Reply := ⟨body,0,0,none,0⟩

end Reply

inductive ScriptedExchange where
  | refused (fault : Fault)
  | replies (items : List (Nat × Except Fault Reply))
  deriving Inhabited

structure Script where
  dials : List Dial
  exchanges : List ScriptedExchange
  rest : ScriptedExchange
  deriving Inhabited

namespace Script

def ScriptedExchange.play (format : Format) (request : Bytes) : ScriptedExchange → Exchange
  | .refused f => .refused f
  | .replies items => .answered (items.map fun (delay,item) => ⟨delay,item.map fun r => r.frame format request⟩)

def device (s : Script) (format : Format) : Device where
  dial n := s.dials[n]?.getD ⟨0,none⟩
  answer n request := ScriptedExchange.play format request (s.exchanges[n]?.getD s.rest)

def prompt : Script := ⟨[],[],.replies [(0,.ok (Reply.plain .automatic))]⟩

end Script
end ModbusMaster
