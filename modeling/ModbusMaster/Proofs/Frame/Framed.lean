import ModbusMaster.Frame.Boundary
import ModbusMaster.Proofs.Frame.Octets
namespace ModbusMaster

-- The frame of a request, for those who read it: its length is as foretold, and decoders
-- and the reader of its header find what was put into it.

-- Bit by bit: the low half comes from the second octet, the high half from the first.
theorem Bytes.word_be16 (w : UInt16) : word (w >>> 8).toUInt8 w.toUInt8 = w := by
  apply UInt16.toBitVec_inj.mp
  simp only [word,UInt16.toBitVec_or,UInt16.toBitVec_shiftLeft,UInt16.toBitVec_shiftRight,UInt8.toBitVec_toUInt16,
    UInt16.toBitVec_toUInt8]
  ext i below
  simp only [BitVec.getElem_or,BitVec.getElem_setWidth]
  rcases Nat.lt_or_ge i 8 with low | high
  · simp [low,BitVec.getLsbD_eq_getElem below]
  · have inside : i-8 < 8 := by omega
    have back : 8+(i-8) = i := by omega
    simp [Nat.not_lt.mpr high,inside,back,BitVec.getLsbD_eq_getElem below]

theorem Bytes.be16_word (hi lo : UInt8) : be16 (word hi lo) = [hi,lo] := by
  have first : (word hi lo >>> 8).toUInt8 = hi := by
    apply UInt8.toBitVec_inj.mp
    simp only [word,UInt16.toBitVec_or,UInt16.toBitVec_shiftLeft,UInt16.toBitVec_shiftRight,UInt8.toBitVec_toUInt16,
      UInt16.toBitVec_toUInt8]
    ext i below
    have within : 8+i < 16 := by omega
    simp [within,BitVec.getLsbD_eq_getElem below]
  have second : (word hi lo).toUInt8 = lo := by
    apply UInt8.toBitVec_inj.mp
    simp only [word,UInt16.toBitVec_or,UInt16.toBitVec_shiftLeft,UInt8.toBitVec_toUInt16,UInt16.toBitVec_toUInt8]
    ext i below
    simp
  rw [be16,first,second]

theorem Function.code_plain (f : Function) : f.code &&& exceptionBit = 0 := by cases f <;> decide

theorem Response.split_plain {f : UInt8} (plain : f &&& Function.exceptionBit = 0) (rest : Bytes) :
    split (f::rest) = .ok (f,none,rest) := if_neg (by simp [plain])

def Format.shown : Format → UInt16 → Option UInt16
  | tcp,transaction => some transaction
  | rtu,_ => none

namespace Frame
variable {format : Format} {transaction : UInt16} {unit : UInt8} {pdu rest frame : Bytes} {r : Request}

theorem length_wrap (format : Format) (transaction : UInt16) (unit : UInt8) (pdu : Bytes) :
    (wrap format transaction unit pdu).length = format.aduLength pdu.length := by
  cases format with
  | tcp => simp [wrap,Format.aduLength,Format.headerSize]; omega
  | rtu => simp [wrap,sealed,Format.aduLength]; omega

theorem declared_toNat (fits : pdu.length+1 < UInt16.size) : (UInt16.ofNat (pdu.length+1)).toNat = pdu.length+1 :=
  UInt16.toNat_ofNat_of_lt' fits

theorem contents_wrap (fits : pdu.length+1 < UInt16.size) : format.contents (wrap format transaction unit pdu) = pdu := by
  cases format with
  | tcp =>
    change pdu.take ((Bytes.word (UInt16.ofNat (pdu.length+1) >>> 8).toUInt8 (UInt16.ofNat (pdu.length+1)).toUInt8).toNat-1) = pdu
    rw [Bytes.word_be16,declared_toNat fits]
    exact List.take_length
  | rtu => simp [Format.contents,wrap,sealed]

theorem unit?_wrap : format.unit? (wrap format transaction unit pdu) = some unit := by
  cases format <;> rfl

theorem transaction?_wrap : format.transaction? (wrap format transaction unit pdu) = format.shown transaction := by
  cases format with
  | tcp => exact congrArg some (Bytes.word_be16 transaction)
  | rtu => rfl

theorem isWhole_wrap (complete : Format.isComplete pdu = true) (some : format = .rtu → 2 ≤ pdu.length)
    (fits : pdu.length+1 < UInt16.size) : format.isWhole (wrap format transaction unit pdu) = true := by
  have length := length_wrap format transaction unit pdu
  have contents : format.contents (wrap format transaction unit pdu) = pdu := contents_wrap fits
  cases format with
  | tcp =>
    have filled : 1 ≤ pdu.length := by
      cases pdu with
      | nil => cases complete
      | cons => exact Nat.succ_pos _
    have declared : Bytes.word ((wrap .tcp transaction unit pdu).getD 4 0) ((wrap .tcp transaction unit pdu).getD 5 0) =
      UInt16.ofNat (pdu.length+1) := Bytes.word_be16 _
    have protocol : Bytes.word ((wrap .tcp transaction unit pdu).getD 2 0) ((wrap .tcp transaction unit pdu).getD 3 0) = 0 :=
      Bytes.word_be16 0
    simp only [Format.isWhole,declared,protocol,contents,complete,declared_toNat fits,length,Format.aduLength,
      Bool.and_eq_true,decide_eq_true_eq,beq_self_eq_true,and_true]
    simp only [Format.headerSize]
    omega
  | rtu =>
    have enough : 5 ≤ (wrap .rtu transaction unit pdu).length := by
      have := some rfl
      rw [length,Format.aduLength]
      omega
    have checksum := Bytes.word_be16 (Crc.checksum (unit::pdu))
    simp only [Format.isWhole,Bool.and_eq_true,decide_eq_true_eq]
    refine ⟨enough,?_⟩
    simp [wrap,sealed,Bytes.le16,checksum]

theorem decode_wrap {f : UInt8} {exception : Option UInt8} {payload : Bytes}
    (splits : Response.split pdu = .ok (f,exception,payload)) (some : format = .rtu → 2 ≤ pdu.length)
    (fits : pdu.length+1 < UInt16.size) : Response.decode format (wrap format transaction unit pdu) =
      .ok ⟨format.shown transaction,unit,f,exception,payload⟩ := by
  have complete : Format.isComplete pdu = true := by
    rw [← Response.split_isOk,splits]
    rfl
  have whole : format.isWhole (wrap format transaction unit pdu) = true := isWhole_wrap complete some fits
  obtain ⟨r,decoded⟩ := Response.decode_whole whole
  obtain ⟨shown,unit',contents⟩ := Response.decode_reads decoded
  rw [transaction?_wrap] at shown
  rw [unit?_wrap] at unit'
  rw [contents_wrap fits,splits] at contents
  cases r with
  | mk transaction' unit'' function exception' payload' =>
    cases shown
    cases unit'
    cases contents
    exact decoded

theorem header_wrap {f : UInt8} (a w : UInt16) : header format (wrap format transaction unit (f::(Bytes.be16 a ++ Bytes.be16 w ++ rest))) =
    .ok ⟨format.shown transaction,unit,f,a,w⟩ := by
  have address := Bytes.word_be16 a
  have second := Bytes.word_be16 w
  cases format with
  | tcp => simp [header,wrap,Bytes.be16,Format.shown,Bytes.word_be16 transaction,address,second]
  | rtu =>
    -- the checksum makes up for the octets that a short request lacks
    match rest with
    | [] => simp [header,wrap,sealed,Bytes.be16,Bytes.le16,Format.shown,address,second]
    | [x] => simp [header,wrap,sealed,Bytes.be16,Bytes.le16,Format.shown,address,second]
    | x::y::rest => simp [header,wrap,sealed,Bytes.be16,Format.shown,address,second]

theorem tcpLength?_wrap (fits : pdu.length+1 < UInt16.size) :
    tcpLength? (wrap .tcp transaction unit pdu) = some (wrap .tcp transaction unit pdu).length := by
  rw [length_wrap]
  change some (Format.headerSize+(Bytes.word (UInt16.ofNat (pdu.length+1) >>> 8).toUInt8
    (UInt16.ofNat (pdu.length+1)).toUInt8).toNat) = _
  rw [Bytes.word_be16,declared_toNat fits,Format.aduLength]
  congr 1
  omega

theorem build_ok : build format transaction unit r = .ok frame ↔
    format.aduLength r.size ≤ format.maxAdu ∧ frame = wrap format transaction unit r.encode := by
  unfold build
  dsimp only
  split
  · rename_i long
    simp [Nat.not_le.mpr long]
  · rename_i fits
    simp [Nat.not_lt.mp fits,eq_comm]

end Frame

namespace Request
variable {r : Request}

def addressed? : Request → Option (UInt16 × UInt16)
  | read _ a q => some (a,q)
  | writeSingle _ a v => some (a,v)
  | writeMultiple _ a q _ => some (a,q)
  | readWrite a q .. => some (a,q)
  | _ => none

theorem body_addressed {a w : UInt16} (addressed : r.addressed? = some (a,w)) :
    ∃ rest, r.body = Bytes.be16 a ++ Bytes.be16 w ++ rest := by
  cases r with
  | readRecords => cases addressed
  | writeRecords => cases addressed
  | deviceAddress => cases addressed
  | readWrite =>
    cases addressed
    exact ⟨_,List.append_assoc _ _ _⟩
  | _ =>
    cases addressed
    exact ⟨_,rfl⟩

theorem body_length (r : Request) : r.body.length+1 = r.size := r.length_encode

theorem body_some (r : Request) : 1 ≤ r.body.length := by
  have whole := r.body_length
  cases r <;> simp only [size] at whole <;> omega

end Request

namespace Frame
variable {format : Format} {transaction : UInt16} {unit : UInt8} {frame : Bytes} {r : Request}

structure Tells (format : Format) (transaction : UInt16) (unit : UInt8) (r : Request) (frame : Bytes) : Prop where
  foretold : frame.length = format.aduLength r.size ∧ r.encode.length = r.size
  declared : format = .tcp → tcpLength? frame = some frame.length
  decoded : Response.decode format frame =
    .ok ⟨format.shown transaction,unit,r.function.code,none,r.encode.drop 1⟩
  addressed : ∀ a w, r.addressed? = some (a,w) →
    header format frame = .ok ⟨format.shown transaction,unit,r.function.code,a,w⟩

theorem tells_wrap (fits : r.size+1 < UInt16.size) : Tells format transaction unit r (wrap format transaction unit r.encode) := by
  rw [← r.length_encode] at fits
  refine ⟨⟨?_,r.length_encode⟩,?_,?_,?_⟩
  · rw [length_wrap,r.length_encode]
  · intro stream
    subst stream
    exact tcpLength?_wrap fits
  · have split : Response.split r.encode = .ok (r.function.code,none,r.encode.drop 1) :=
      Response.split_plain r.function.code_plain r.body
    exact decode_wrap split (fun _ => Nat.succ_le_succ r.body_some) fits
  · intro a w addressed
    obtain ⟨rest,body⟩ := Request.body_addressed addressed
    rw [Request.encode,body]
    exact header_wrap a w

theorem built_tells (built : build format transaction unit r = .ok frame) : Tells format transaction unit r frame := by
  obtain ⟨fits,rfl⟩ := build_ok.mp built
  apply tells_wrap
  have size : r.size < 260 := by
    cases format <;> simp only [Format.aduLength,Format.maxAdu,Format.headerSize] at fits <;> omega
  exact Nat.lt_trans (Nat.succ_lt_succ size) (by decide)

-- A record of two registers to be written, over a stream socket.
theorem built_tells_record : ∃ frame, build .tcp 7 17 (.writeRecords 11 [⟨6,4,7,2,[0x06AF,0x04BE]⟩]) = .ok frame ∧
    Tells .tcp 7 17 (.writeRecords 11 [⟨6,4,7,2,[0x06AF,0x04BE]⟩]) frame :=
  ⟨_,rfl,built_tells (show build .tcp 7 17 (.writeRecords 11 [⟨6,4,7,2,[0x06AF,0x04BE]⟩]) = .ok _ from rfl)⟩

end Frame
end ModbusMaster
