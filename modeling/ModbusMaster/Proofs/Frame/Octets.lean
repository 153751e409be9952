import ModbusMaster.Transaction
namespace ModbusMaster

-- Where the fields of a response stand among its octets, without any decoder.

namespace Format

def transaction? : Format → Bytes → Option UInt16
  | tcp,hi::lo::_ => some (Bytes.word hi lo)
  | _,_ => none

def unit? : Format → Bytes → Option UInt8
  | tcp,frame => frame[headerSize]?
  | rtu,frame => frame[0]?

-- The function code and what it carries. Over a stream socket the header counts them
-- together with the unit; on a serial line they reach to the checksum.
def contents : Format → Bytes → Bytes
  | tcp,frame => (frame.drop (headerSize+1)).take ((Bytes.word (frame.getD 4 0) (frame.getD 5 0)).toNat-1)
  | rtu,frame => (frame.take (frame.length-2)).drop 1

def isComplete : Bytes → Bool
  | [] => false
  | f::rest => f &&& Function.exceptionBit == 0 || !rest.isEmpty

-- The frames that can be decoded: over a stream socket one may be longer than its header says,
-- on a serial line its last octets are the checksum of the others.
def isWhole : Format → Bytes → Bool
  | tcp,frame =>
    let declared := (Bytes.word (frame.getD 4 0) (frame.getD 5 0)).toNat
    headerSize+2 ≤ frame.length && Bytes.word (frame.getD 2 0) (frame.getD 3 0) == 0 && 2 ≤ declared &&
      headerSize+declared ≤ frame.length && isComplete (tcp.contents frame)
  | rtu,frame =>
    5 ≤ frame.length && Bytes.word (frame.getD (frame.length-1) 0) (frame.getD (frame.length-2) 0) ==
      Crc.checksum (frame.take (frame.length-2))

theorem transaction?_tcp {frame : Bytes} {u : UInt8} (unit : tcp.unit? frame = some u) :
    ∃ t, tcp.transaction? frame = some t := by
  match frame with
  | [] => cases unit
  | [_] => cases unit
  | hi::lo::_ => exact ⟨Bytes.word hi lo,rfl⟩

end Format

namespace Function

def refusal? : Bytes → Option UInt8
  | f::code::_ => if f &&& exceptionBit = 0 then none else some code
  | _ => none

def isCounted : Function → Bool
  | readCoils => true
  | readDiscreteInputs => true
  | readHoldingRegisters => true
  | readInputRegisters => true
  | readWriteMultipleRegisters => true
  | readFileRecord => true
  | _ => false

def values (f : Function) (carried : Bytes) : Bytes :=
  if f.isCounted then (carried.drop 1).take (carried.headD 0).toNat else carried

theorem plain_code (f : UInt8) (plain : f &&& exceptionBit = 0) : f &&& 0x7F = f := by
  have octets : ∀ b : BitVec 8, b &&& 0x80#8 = 0#8 → b &&& 0x7F#8 = b := by decide +kernel
  have bits := congrArg UInt8.toBitVec plain
  exact UInt8.toBitVec_inj.mp (octets f.toBitVec bits)

end Function

namespace Response
variable {format : Format} {frame : Bytes} {r : Response}

theorem split_reads {b : Bytes} {f : UInt8} {exception : Option UInt8} {payload : Bytes}
    (splits : split b = .ok (f,exception,payload)) :
    b.head?.map (· &&& 0x7F) = some f ∧ exception = Function.refusal? b ∧ (exception = none → payload = b.drop 1) := by
  unfold split at splits
  split at splits
  · cases splits
  · rename_i g rest
    split at splits
    · rename_i marked
      split at splits
      · cases splits
      · cases splits
        exact ⟨rfl,by simp_all [Function.refusal?],by simp⟩
    · rename_i plain
      have plain : g &&& Function.exceptionBit = 0 := by simpa using plain
      cases splits
      refine ⟨by simp [Function.plain_code f plain],?_,fun _ => rfl⟩
      cases payload <;> simp [Function.refusal?,plain]

theorem split_isOk (b : Bytes) : (split b).isOk = Format.isComplete b := by
  unfold split Format.isComplete
  cases b with
  | nil => rfl
  | cons f rest =>
    cases rest <;> by_cases plain : f &&& Function.exceptionBit = 0 <;> simp [plain,Except.isOk,Except.toBool]

theorem decodeTcp_isOk (frame : Bytes) : (decodeTcp frame).isOk = Format.tcp.isWhole frame := by
  match frame with
  | [] | [_] | [_,_] | [_,_,_] | [_,_,_,_] | [_,_,_,_,_] | [_,_,_,_,_,_] => rfl
  | t1::t0::p1::p0::n1::n0::unit::pdu =>
    have contents : Format.tcp.contents (t1::t0::p1::p0::n1::n0::unit::pdu) =
      pdu.take ((Bytes.word n1 n0).toNat-1) := rfl
    have complete := split_isOk (pdu.take ((Bytes.word n1 n0).toNat-1))
    simp only [decodeTcp,Format.isWhole,contents,← complete,Format.headerSize,List.length_cons,List.getD_cons_succ,
      List.getD_cons_zero]
    cases pdu with
    | nil => simp [Except.isOk,Except.toBool]
    | cons f rest =>
      by_cases protocol : Bytes.word p1 p0 = 0
      · by_cases short : (Bytes.word n1 n0).toNat < 2
        · have unmet := Nat.not_le.mpr short
          simp [protocol,short,unmet,Except.isOk,Except.toBool]
        · have met := Nat.not_lt.mp short
          by_cases missing : rest.length+1+1+1+1+1+1+1+1 < 6+(Bytes.word n1 n0).toNat
          · have unmet := Nat.not_le.mpr missing
            simp [protocol,short,missing,unmet,Except.isOk,Except.toBool]
          · have whole := Nat.not_lt.mp missing
            cases split ((f::rest).take ((Bytes.word n1 n0).toNat-1)) <;>
              simp [protocol,short,missing,met,whole,Except.isOk,Except.toBool]
      · simp [protocol,Except.isOk,Except.toBool]

theorem checksumOf_whole (enough : 2 ≤ frame.length) : checksumOf frame = some (frame.take (frame.length-2),
    Bytes.word (frame.getD (frame.length-1) 0) (frame.getD (frame.length-2) 0)) := by
  unfold checksumOf
  cases reversed : frame.reverse with
  | nil => simp_all
  | cons hi back =>
    cases back with
    | nil =>
      have := congrArg List.length reversed
      simp at this
      omega
    | cons lo back =>
      have whole : frame = back.reverse ++ [lo,hi] := by
        have := congrArg List.reverse reversed
        simpa using this
      simp [whole]

theorem decodeRtu_isOk (frame : Bytes) : (decodeRtu frame).isOk = Format.rtu.isWhole frame := by
  simp only [decodeRtu,Format.isWhole]
  by_cases short : frame.length < 5
  · simp [short,Nat.not_le.mpr short,Except.isOk,Except.toBool]
  · have enough := Nat.not_lt.mp short
    rw [if_neg short,checksumOf_whole (by omega)]
    generalize Bytes.word (frame.getD (frame.length-1) 0) (frame.getD (frame.length-2) 0) = received
    have long : 3 ≤ (frame.take (frame.length-2)).length := by
      rw [List.length_take]
      omega
    generalize frame.take (frame.length-2) = body at long
    by_cases agrees : received = Crc.checksum body
    · -- with three octets and more an exception has its code
      match body,long with
      | unit::f::g::rest,_ =>
        have complete := split_isOk (f::g::rest)
        have whole : Format.isComplete (f::g::rest) = true := by simp [Format.isComplete]
        rw [whole] at complete
        cases splits : split (f::g::rest) with
        | error e =>
          rw [splits] at complete
          cases complete
        | ok _ => simp [agrees,enough,splits,Except.isOk,Except.toBool]
    · simp [agrees,Except.isOk,Except.toBool]

theorem decode_isOk (format : Format) (frame : Bytes) : (decode format frame).isOk = format.isWhole frame := by
  cases format with
  | tcp => exact decodeTcp_isOk frame
  | rtu => exact decodeRtu_isOk frame

theorem decodeTcp_reads (decoded : decodeTcp frame = .ok r) :
    Format.tcp.transaction? frame = r.transaction ∧ Format.tcp.unit? frame = some r.unit ∧
      split (Format.tcp.contents frame) = .ok (r.function,r.exception,r.payload) := by
  unfold decodeTcp at decoded
  split at decoded
  · rename_i t1 t0 p1 p0 n1 n0 unit pdu
    dsimp only at decoded
    split at decoded
    · cases decoded
    · split at decoded
      · cases decoded
      · split at decoded
        · cases decoded
        · split at decoded
          · cases decoded
          · rename_i splits
            cases decoded
            exact ⟨rfl,rfl,splits⟩
  · cases decoded

theorem decodeRtu_reads (decoded : decodeRtu frame = .ok r) :
    Format.rtu.transaction? frame = r.transaction ∧ Format.rtu.unit? frame = some r.unit ∧
      split (Format.rtu.contents frame) = .ok (r.function,r.exception,r.payload) := by
  unfold decodeRtu at decoded
  split at decoded
  · cases decoded
  · rename_i enough
    rw [checksumOf_whole (by omega)] at decoded
    dsimp only at decoded
    split at decoded
    · cases decoded
    · cases body : frame.take (frame.length-2) with
      | nil =>
        rw [body] at decoded
        cases decoded
      | cons unit pdu =>
        simp only [body] at decoded
        cases splits : split pdu with
        | error e =>
          rw [splits] at decoded
          cases decoded
        | ok parts =>
          rw [splits] at decoded
          cases decoded
          have first : (frame.take (frame.length-2))[0]? = some unit := by rw [body]; rfl
          rw [List.getElem?_take_of_lt (by omega)] at first
          exact ⟨rfl,first,by rw [Format.contents,body]; exact splits⟩

theorem decode_reads (decoded : decode format frame = .ok r) :
    format.transaction? frame = r.transaction ∧ format.unit? frame = some r.unit ∧
      split (format.contents frame) = .ok (r.function,r.exception,r.payload) := by
  cases format with
  | tcp => exact decodeTcp_reads decoded
  | rtu => exact decodeRtu_reads decoded

theorem decode_whole (whole : format.isWhole frame = true) : ∃ r, decode format frame = .ok r := by
  rw [← decode_isOk] at whole
  cases decoded : decode format frame with
  | error e =>
    rw [decoded] at whole
    cases whole
  | ok r => exact ⟨r,rfl⟩

theorem data_values {f : Function} (function : r.function = f.code) : r.data = f.values r.payload := by
  unfold data
  rw [function,Function.ofCode?_code]
  cases f <;> cases r.payload <;> simp [Function.values,Function.isCounted]

end Response

-- A whole frame in which unit, function and, where the format has one, the transaction
-- are those of the request.
structure Answers (format : Format) (e : Entry) (frame : Bytes) : Prop where
  whole : format.isWhole frame = true
  unit : format.unit? frame = some e.device.unit
  function : (format.contents frame).head?.map (· &&& 0x7F) = some e.function.code
  transaction : format = .tcp → format.transaction? frame = some e.id

end ModbusMaster
