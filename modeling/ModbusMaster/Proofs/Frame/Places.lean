import ModbusMaster.Frame.Boundary
import ModbusMaster.Frame.Trace
import ModbusMaster.Proofs.Frame.Octets
namespace ModbusMaster.Checked

-- Frames read place by place, as a program does that has them in memory. A read comes to nothing where
-- there is no such place; each of these programs is shown to come to what the readers of frames give,
-- so that none of its reads does.

section Places
variable {α : Type} {b : List α} {i j n : Nat}

def slice? (b : List α) (i j : Nat) : Option (List α) := if i ≤ j ∧ j ≤ b.length then some ((b.drop i).take (j-i)) else none

def minus? (n k : Nat) : Option Nat := if k ≤ n then some (n-k) else none

def cut? (b : List α) (i : Nat) : Option (List α × List α) := if i ≤ b.length then some (b.take i,b.drop i) else none

theorem slice?_some (forward : i ≤ j) (inside : j ≤ b.length) : slice? b i j = some ((b.drop i).take (j-i)) :=
  if_pos ⟨forward,inside⟩

theorem slice?_rest (inside : i ≤ b.length) : slice? b i b.length = some (b.drop i) := by
  rw [slice?_some inside (Nat.le_refl _),List.take_of_length_le (Nat.le_of_eq List.length_drop)]

example : slice? [1,2] 1 3 = none := by decide

theorem place?_some (inside : i < b.length) (other : α) : b[i]? = some (b.getD i other) := by
  rw [List.getD_eq_getElem?_getD,List.getElem?_eq_getElem inside,Option.getD_some]

theorem minus?_some (enough : j ≤ n) : minus? n j = some (n-j) := if_pos enough

theorem cut?_some (inside : i ≤ b.length) : cut? b i = some (b.take i,b.drop i) := if_pos inside

end Places

def word? (b : Bytes) (i : Nat) : Option UInt16 := do
  let hi ← b[i]?
  let lo ← b[i+1]?
  return Bytes.word hi lo

def tcpLength (b : Bytes) : Option (Option Nat) :=
  if b.length < Format.headerSize then return none
  else do
    let n ← word? b 4
    return some (Format.headerSize+n.toNat)

-- The byte count alone is asked for where it need not be.
def rtuLength (b : Bytes) : Option (Option Nat) :=
  if b.length < 2 then return none
  else do
    let f ← b[1]?
    if f &&& Function.exceptionBit != 0 then return some 5
    else if f ∈ ([0x01,0x02,0x03,0x04,0x14,0x15,0x17] : Bytes) then return b[2]?.map fun count => 3+count.toNat+2
    else if f ∈ ([0x05,0x06,0x0F,0x10] : Bytes) then return some 8
    else return none

def decodeTcp (frame : Bytes) : Option (Except Frame.Refusal Response) :=
  if frame.length < Format.headerSize+2 then return .error .tooShort
  else do
    let transaction ← word? frame 0
    let protocol ← word? frame 2
    let n ← word? frame 4
    if protocol != 0 then return .error (.protocol protocol)
    else if n.toNat < 2 || frame.length < Format.headerSize+n.toNat then return .error .incomplete
    else do
      let unit ← frame[Format.headerSize]?
      let pdu ← slice? frame (Format.headerSize+1) (Format.headerSize+n.toNat)
      match Response.split pdu with
      | .error e => return .error e
      | .ok (f,exception,payload) => return .ok ⟨some transaction,unit,f,exception,payload⟩

def decodeRtu (frame : Bytes) : Option (Except Frame.Refusal Response) :=
  if frame.length < 5 then return .error .tooShort
  else do
    let edge ← minus? frame.length 2
    let (body,sum) ← cut? frame edge
    let lo ← sum[0]?
    let hi ← sum[1]?
    let received := Bytes.word hi lo
    let computed := Crc.checksum body
    if received != computed then return .error (.crc computed received)
    else do
      let pdu ← slice? body 1 body.length
      match Response.split pdu with
      | .error e => return .error e
      | .ok (f,exception,payload) => do
        let unit ← body[0]?
        return .ok ⟨none,unit,f,exception,payload⟩

def counted (payload : Bytes) : Option Bytes :=
  if payload.isEmpty then return []
  else do
    let count ← payload[0]?
    slice? payload 1 (min (1+count.toNat) payload.length)

def data (r : Response) : Option Bytes :=
  match Function.ofCode? r.function with
  | some .readCoils => counted r.payload
  | some .readDiscreteInputs => counted r.payload
  | some .readHoldingRegisters => counted r.payload
  | some .readInputRegisters => counted r.payload
  | some .readWriteMultipleRegisters => counted r.payload
  | some .readFileRecord => counted r.payload
  | _ => return r.payload

def fields (transaction : Option UInt16) (frame : Bytes) (start : Nat) : Option (Except Frame.Refusal Frame.Header) := do
  let pdu ← slice? frame start frame.length
  let unit ← pdu[0]?
  let f ← pdu[1]?
  let address ← word? pdu 2
  let quantity ← word? pdu 4
  return .ok ⟨transaction,unit,f,address,quantity⟩

def header (format : Format) (frame : Bytes) : Option (Except Frame.Refusal Frame.Header) :=
  match format with
  | .tcp =>
    if frame.length < Format.headerSize+6 then return .error .tooShort
    else do
      let transaction ← word? frame 0
      fields (some transaction) frame Format.headerSize
  | .rtu => if frame.length < 8 then return .error .tooShort else fields none frame 0

def opening (format : Format) (frame : Bytes) : Option (Option (String × Nat)) :=
  match format with
  | .tcp =>
    if Format.headerSize+1 < frame.length then do
      let transaction ← word? frame 0
      return some ("txn: " ++ toString transaction.toNat ++ ", ",Format.headerSize)
    else return none
  | .rtu => return if 3 < frame.length then some ("",0) else none

def shown (format : Format) (frame : Bytes) (transaction : String) (start : Nat) : Option String := do
  let unit ← frame[start]?
  let f ← frame[start+1]?
  let edge ← match format with
    | .tcp => some frame.length
    | .rtu => minus? frame.length 2
  let body ← slice? frame (min (start+2) edge) edge
  let subject := transaction ++ "unit: " ++ toString unit.toNat ++ ", "
  if f &&& Function.exceptionBit != 0 then
    return subject ++ "exception for " ++ Function.codeText (f &&& 0x7F) ++ ": code 0x" ++ Text.Hex.lower body
  else
    let name := match Function.ofCode? f with
      | some g => g.text
      | none => "Unknown (" ++ Function.codeText f ++ ")"
    return subject ++ "function: " ++ name ++ ", data: " ++ Text.Hex.lower body

def interpret (format : Format) (frame : Bytes) : Option String := do
  match ← opening format frame with
  | none => return "short frame: " ++ Text.Hex.lower frame
  | some (transaction,start) => shown format frame transaction start

theorem tcpLength_reads (b : Bytes) : tcpLength b = some (Frame.tcpLength? b) := by
  match b with
  | [] | [_] | [_,_] | [_,_,_] | [_,_,_,_] | [_,_,_,_,_] => rfl
  | _::_::_::_::_::_::rest => simp [tcpLength,Frame.tcpLength?,word?,Format.headerSize]

theorem rtuLength_reads (b : Bytes) : rtuLength b = some (Frame.rtuLength? b) := by
  match b with
  | [] | [_] => rfl
  | unit::f::rest =>
    have known : ¬(unit::f::rest).length < 2 := Nat.not_lt.mpr (Nat.le_add_left 2 _)
    have count : (unit::f::rest)[2]? = rest.head? := List.head?_eq_getElem?.symm
    unfold rtuLength Frame.rtuLength?
    rw [if_neg known,count]
    show ite _ _ _ = some (ite _ _ _)
    simp only [apply_ite some]
    rfl

theorem decodeTcp_reads (frame : Bytes) : decodeTcp frame = some (Response.decodeTcp frame) := by
  match frame with
  | [] | [_] | [_,_] | [_,_,_] | [_,_,_,_] | [_,_,_,_,_] | [_,_,_,_,_,_] | [_,_,_,_,_,_,_] => rfl
  | t1::t0::p1::p0::n1::n0::unit::f::rest =>
    let whole := t1::t0::p1::p0::n1::n0::unit::f::rest
    have known : ¬whole.length < Format.headerSize+2 := Nat.not_lt.mpr (Nat.le_add_left 8 _)
    have transaction : word? whole 0 = some (Bytes.word t1 t0) := rfl
    have protocol : word? whole 2 = some (Bytes.word p1 p0) := rfl
    have counted : word? whole 4 = some (Bytes.word n1 n0) := rfl
    have addressed : whole[Format.headerSize]? = some unit := rfl
    unfold decodeTcp Response.decodeTcp
    rw [if_neg known,transaction,protocol,counted]
    simp only [Option.bind_eq_bind,Option.bind_some,List.isEmpty_cons,Bool.false_eq_true,if_false]
    split
    · rfl
    · split
      · rfl
      · rename_i complete
        rw [Bool.or_eq_true,decide_eq_true_iff,decide_eq_true_iff,not_or,Nat.not_lt,Nat.not_lt] at complete
        have carried : slice? whole (Format.headerSize+1) (Format.headerSize+(Bytes.word n1 n0).toNat) =
            some ((f::rest).take ((Bytes.word n1 n0).toNat-1)) := by
          rw [slice?_some (by omega) complete.2,Nat.add_sub_add_left]
          rfl
        rw [addressed,carried]
        simp only [Option.bind_some]
        cases Response.split ((f::rest).take ((Bytes.word n1 n0).toNat-1)) <;> rfl

theorem decodeRtu_reads (frame : Bytes) : decodeRtu frame = some (Response.decodeRtu frame) := by
  unfold decodeRtu Response.decodeRtu
  split
  · rfl
  · rename_i known
    have inside : frame.length-2 ≤ frame.length := Nat.sub_le _ _
    have lo : (frame.drop (frame.length-2))[0]? = some (frame.getD (frame.length-2) 0) :=
      List.getElem?_drop.trans (place?_some (by omega) 0)
    have hi : (frame.drop (frame.length-2))[1]? = some (frame.getD (frame.length-1) 0) := by
      have last : frame.length-2+1 = frame.length-1 := by omega
      rw [List.getElem?_drop,last]
      exact place?_some (by omega) 0
    have some_left : 0 < (frame.take (frame.length-2)).length := by
      rw [List.length_take]
      omega
    rw [minus?_some (by omega),Response.checksumOf_whole (by omega)]
    simp only [Option.bind_eq_bind,Option.bind_some,cut?_some inside,lo,hi]
    split
    · rfl
    · obtain ⟨unit,pdu,body⟩ := List.exists_cons_of_length_pos some_left
      rw [body,slice?_rest (Nat.le_add_left 1 _)]
      simp only [List.drop_succ_cons,List.drop_zero,Option.bind_some]
      cases Response.split pdu <;> rfl

theorem counted_cons (count : UInt8) (values : Bytes) : counted (count::values) = some (values.take count.toNat) := by
  have inside : min (1+count.toNat) (count::values).length ≤ (count::values).length := Nat.min_le_right _ _
  have forward : 1 ≤ min (1+count.toNat) (count::values).length := by
    rw [List.length_cons]
    omega
  have most : min (1+count.toNat) (count::values).length-1 = min count.toNat values.length := by
    rw [List.length_cons]
    omega
  show slice? _ _ _ = _
  rw [slice?_some forward inside,most]
  show some (values.take (min count.toNat values.length)) = _
  rw [← List.take_eq_take_min]

theorem data_reads (r : Response) : data r = some r.data := by
  unfold data Response.data
  cases r.payload with
  | nil =>
    cases Function.ofCode? r.function with
    | none => rfl
    | some f => cases f <;> rfl
  | cons count values =>
    rw [counted_cons]
    cases Function.ofCode? r.function with
    | none => rfl
    | some f => cases f <;> rfl

theorem header_reads (format : Format) (frame : Bytes) : header format frame = some (Frame.header format frame) := by
  cases format with
  | tcp =>
    match frame with
    | [] | [_] | [_,_] | [_,_,_] | [_,_,_,_] | [_,_,_,_,_] | [_,_,_,_,_,_] | [_,_,_,_,_,_,_] | [_,_,_,_,_,_,_,_]
    | [_,_,_,_,_,_,_,_,_] | [_,_,_,_,_,_,_,_,_,_] | [_,_,_,_,_,_,_,_,_,_,_] => rfl
    | t1::t0::p1::p0::n1::n0::unit::f::a1::a0::q1::q0::rest =>
      have known : ¬(t1::t0::p1::p0::n1::n0::unit::f::a1::a0::q1::q0::rest).length < Format.headerSize+6 :=
        Nat.not_lt.mpr (Nat.le_add_left 12 _)
      unfold header
      show ite _ _ _ = _
      rw [if_neg known]
      show fields _ _ _ = _
      unfold fields
      rw [slice?_rest (Nat.le_add_left 6 _)]
      rfl
  | rtu =>
    match frame with
    | [] | [_] | [_,_] | [_,_,_] | [_,_,_,_] | [_,_,_,_,_] | [_,_,_,_,_,_] | [_,_,_,_,_,_,_] => rfl
    | unit::f::a1::a0::q1::q0::c0::c1::rest =>
      have known : ¬(unit::f::a1::a0::q1::q0::c0::c1::rest).length < 8 := Nat.not_lt.mpr (Nat.le_add_left 8 _)
      unfold header
      show ite _ _ _ = _
      rw [if_neg known]
      unfold fields
      rw [slice?_rest (Nat.zero_le _)]
      rfl

theorem interpret_tcp (frame : Bytes) : interpret .tcp frame = some (Trace.interpret .tcp frame) := by
  match frame with
  | [] | [_] | [_,_] | [_,_,_] | [_,_,_,_] | [_,_,_,_,_] | [_,_,_,_,_,_] | [_,_,_,_,_,_,_] => rfl
  | t1::t0::p1::p0::n1::n0::unit::f::body =>
    let whole := t1::t0::p1::p0::n1::n0::unit::f::body
    have long : 8 ≤ whole.length := Nat.le_add_left 8 _
    have opened : opening .tcp whole = some (some ("txn: " ++ toString (Bytes.word t1 t0).toNat ++ ", ",6)) := by
      unfold opening
      exact if_pos long
    have start : min (6+2) whole.length = 8 := Nat.min_eq_left long
    have carried : slice? whole 8 whole.length = some body := slice?_rest long
    have addressed : whole[6]? = some unit := rfl
    have function : whole[6+1]? = some f := rfl
    unfold interpret
    rw [opened]
    show shown .tcp whole _ 6 = _
    simp only [shown,Option.bind_eq_bind,Option.bind_some,start,carried,addressed,function,Trace.interpret]
    split <;> rfl

theorem interpret_rtu (frame : Bytes) : interpret .rtu frame = some (Trace.interpret .rtu frame) := by
  match frame with
  | [] | [_] => rfl
  | unit::f::body =>
    let whole := unit::f::body
    have size : whole.length = body.length+2 := rfl
    unfold interpret
    by_cases long : 3 < whole.length
    · have opened : opening .rtu whole = some (some ("",0)) := congrArg some (if_pos long)
      have edge : minus? whole.length 2 = some body.length := minus?_some (by omega)
      have start : min (0+2) body.length = 2 := Nat.min_eq_left (by omega)
      have carried : slice? whole 2 body.length = some (body.take (body.length-2)) := slice?_some (by omega) (by omega)
      have addressed : whole[0]? = some unit := rfl
      have function : whole[0+1]? = some f := rfl
      rw [opened]
      show shown .rtu whole _ 0 = _
      simp only [shown,Option.bind_eq_bind,Option.bind_some,edge,start,carried,addressed,function,Trace.interpret]
      rw [if_pos long]
      split <;> rfl
    · have opened : opening .rtu whole = some none := congrArg some (if_neg long)
      rw [opened]
      simp only [Trace.interpret]
      rw [if_neg long]
      rfl

theorem interpret_reads (format : Format) (frame : Bytes) : interpret format frame = some (Trace.interpret format frame) := by
  cases format with
  | tcp => exact interpret_tcp frame
  | rtu => exact interpret_rtu frame

end ModbusMaster.Checked
