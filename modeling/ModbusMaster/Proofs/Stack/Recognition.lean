import ModbusMaster.Proofs.Stack.Framing
namespace ModbusMaster

-- What a device reads out of the octets of a request. It finds all that an operation has put
-- into them, so no two requests that operations let through are the same frame.

namespace Bytes

def word? : Bytes → Option (UInt16 × Bytes)
  | hi::lo::rest => some (word hi lo,rest)
  | _ => none

def words? : Nat → Bytes → Option (List UInt16 × Bytes)
  | 0,b => some ([],b)
  | n+1,b => do
    let (w,b) ← word? b
    let (ws,b) ← words? n b
    some (w::ws,b)

theorem word?_be16 (w : UInt16) (rest : Bytes) : word? (be16 w ++ rest) = some (w,rest) :=
  congrArg (fun v => some (v,rest)) (word_be16 w)

theorem word?_last (w : UInt16) : word? (be16 w) = some (w,[]) := word?_be16 w []

theorem words?_be16 (ws : List UInt16) (rest : Bytes) : words? ws.length (ws.flatMap be16 ++ rest) = some (ws,rest) := by
  induction ws with
  | nil => rfl
  | cons w ws ih =>
    rw [List.flatMap_cons,List.append_assoc,List.length_cons,words?,word?_be16]
    simp only [Option.bind_eq_bind,Option.bind_some,ih]

end Bytes

namespace FileRecord
variable {filled : Bool}

-- Nothing marks the end of a record: where records are to be written, their length says how
-- much data each of them has, and else they have none.
def Holds (filled : Bool) (r : FileRecord) : Prop := r.data.length = if filled then r.length.toNat else 0

def read? (filled : Bool) : Bytes → Option (FileRecord × Bytes)
  | [] => none
  | type::b => do
    let (file,b) ← Bytes.word? b
    let (record,b) ← Bytes.word? b
    let (length,b) ← Bytes.word? b
    let (data,b) ← Bytes.words? (if filled then length.toNat else 0) b
    some (⟨type,file,record,length,data⟩,b)

def readAll? (filled : Bool) : Nat → Bytes → Option (List FileRecord)
  | _,[] => some []
  | 0,_ => none
  | n+1,b => (read? filled b).bind fun x => (readAll? filled n x.2).map (x.1::·)

theorem read?_encode {r : FileRecord} (holds : r.Holds filled) (rest : Bytes) :
    read? filled (r.encode ++ rest) = some (r,rest) := by
  have data := Bytes.words?_be16 r.data rest
  rw [holds] at data
  simp only [encode,List.cons_append,List.append_assoc,read?,Bytes.word?_be16,Option.bind_eq_bind,Option.bind_some,data]

theorem readAll?_cons {n : Nat} {b rest : Bytes} {r : FileRecord} (read : read? filled b = some (r,rest)) :
    readAll? filled (n+1) b = (readAll? filled n rest).map (r::·) := by
  cases b with
  | nil => cases read
  | cons type b =>
    rw [readAll?,read]
    · rfl
    · exact List.cons_ne_nil type b

theorem readAll?_encode {records : List FileRecord} (holds : ∀ r ∈ records, r.Holds filled) {n : Nat}
    (enough : records.length ≤ n) : readAll? filled n (records.flatMap encode) = some records := by
  induction records generalizing n with
  | nil => cases n <;> rfl
  | cons r records ih =>
    cases n with
    | zero => cases enough
    | succ n =>
      rw [List.flatMap_cons,readAll?_cons (read?_encode (holds r List.mem_cons_self) _),
        ih (fun r member => holds r (List.mem_cons_of_mem _ member)) (Nat.le_of_succ_le_succ enough)]
      rfl

theorem length_le_octets (records : List FileRecord) : records.length ≤ (records.flatMap encode).length := by
  induction records with
  | nil => exact Nat.le_refl _
  | cons r records ih =>
    have size := r.length_encode
    simp only [FileRecord.size] at size
    simp only [List.flatMap_cons,List.length_append,List.length_cons]
    omega

end FileRecord

namespace Request

def values? : Bytes → Option Bytes
  | [] => none
  | count::b => some (b.take count.toNat)

def records? (filled : Bool) : Bytes → Option (UInt8 × List FileRecord)
  | [] => none
  | count::b => (FileRecord.readAll? filled b.length b).map fun records => (count,records)

def ofBody? (f : Function) (b : Bytes) : Option Request :=
  match f with
  | .readFileRecord => (records? false b).map fun x => readRecords x.1 x.2
  | .writeFileRecord => (records? true b).map fun x => writeRecords x.1 x.2
  | .readDeviceIdentification => match b with
    | i::c::o::_ => some (deviceAddress i c o)
    | _ => none
  | .readWriteMultipleRegisters => do
    let (ra,b) ← Bytes.word? b
    let (rq,b) ← Bytes.word? b
    let (wa,b) ← Bytes.word? b
    let (wq,b) ← Bytes.word? b
    let values ← values? b
    some (readWrite ra rq wa wq values)
  | _ => do
    let (a,b) ← Bytes.word? b
    let (w,b) ← Bytes.word? b
    if f ∈ [.writeSingleCoil,.writeSingleRegister] then some (writeSingle f a w)
    else if f ∈ [.writeMultipleCoils,.writeMultipleRegisters] then (values? b).map (writeMultiple f a w)
    else some (read f a w)

def ofOctets? : Bytes → Option Request
  | [] => none
  | code::b => (Function.ofCode? code).bind fun f => ofBody? f b

theorem ofOctets?_encode (r : Request) : ofOctets? r.encode = ofBody? r.function r.body := by
  rw [encode,ofOctets?,Function.ofCode?_code]
  rfl

theorem values?_counted {values : Bytes} (octet : values.length ≤ 255) :
    values? (UInt8.ofNat values.length::values) = some values := by
  rw [values?,UInt8.toNat_ofNat_of_lt' (Nat.lt_of_le_of_lt octet (by decide)),List.take_length]

theorem records?_encode {filled : Bool} {records : List FileRecord} (holds : ∀ r ∈ records, r.Holds filled)
    (count : UInt8) : records? filled (count::records.flatMap FileRecord.encode) = some (count,records) := by
  rw [records?,FileRecord.readAll?_encode holds (FileRecord.length_le_octets records)]
  rfl

end Request

namespace Operation
variable {r : Request} {n : UInt16} {f : Function} {count : UInt8} {records : List FileRecord}

theorem Describes.holds {filled : Bool} (describes : Describes f count records) (kind : (f == .writeFileRecord) = filled) :
    ∀ r ∈ records, r.Holds filled := by
  intro r member
  have data := (describes.filled r member).2
  subst kind
  unfold FileRecord.Holds
  by_cases writes : f = .writeFileRecord
  · rw [if_pos writes] at data
    rw [if_pos (beq_iff_eq.mpr writes),data]
  · rw [if_neg writes] at data
    rw [if_neg (mt beq_iff_eq.mp writes),data]
    rfl

theorem Asked.recognized (asked : Asked r n) : Request.ofOctets? r.encode = some r := by
  rw [Request.ofOctets?_encode]
  cases asked with
  | read reads =>
    simp only [List.mem_cons,List.not_mem_nil,or_false] at reads
    rcases reads with rfl | rfl | rfl | rfl <;>
      simp [Request.ofBody?,Request.function,Request.body,Bytes.word?_be16,Bytes.word?_last]
  | coil a on => simp [Request.ofBody?,Request.function,Request.body,Bytes.word?_be16,Bytes.word?_last]
  | register a v => simp [Request.ofBody?,Request.function,Request.body,Bytes.word?_be16,Bytes.word?_last]
  | multiple writes carries =>
    simp only [List.mem_cons,List.not_mem_nil,or_false] at writes
    rcases writes with rfl | rfl <;>
      simp [Request.ofBody?,Request.function,Request.body,Bytes.word?_be16,Request.values?_counted carries.octet]
  | @readRecords _ records describes =>
    have holds : ∀ r ∈ records, r.Holds false := describes.holds rfl
    simp [Request.ofBody?,Request.function,Request.body,Request.records?_encode holds]
  | @writeRecords _ records describes =>
    have holds : ∀ r ∈ records, r.Holds true := describes.holds rfl
    simp [Request.ofBody?,Request.function,Request.body,Request.records?_encode holds]
  | readWrite within carries =>
    simp [Request.ofBody?,Request.function,Request.body,Bytes.word?_be16,Request.values?_counted carries.octet]
  | identification object known => rfl

end Operation

namespace Frame
variable {format : Format} {transaction transaction' : UInt16} {unit unit' : UInt8} {frame : Bytes} {op op' : Operation}
  {r r' : Request} {n n' : UInt16}

theorem contents_asked (asked : Operation.Asked r n) (built : build format transaction unit r = .ok frame) :
    Request.ofOctets? (format.contents frame) = some r := by
  obtain ⟨_,rfl⟩ := build_ok.mp built
  rw [contents_wrap]
  · exact asked.recognized
  · rw [r.length_encode]
    exact Nat.lt_of_le_of_lt (Nat.succ_le_succ asked.size_le) (by decide)

theorem build_injective (asked : op.request? = some (r,n)) (asked' : op'.request? = some (r',n'))
    (built : build format transaction unit r = .ok frame) (built' : build format transaction' unit' r' = .ok frame) :
    unit = unit' ∧ r = r' ∧ (format = .tcp → transaction = transaction') := by
  have request := contents_asked (Operation.request?_asked asked) built
  rw [contents_asked (Operation.request?_asked asked') built'] at request
  obtain ⟨_,same⟩ := build_ok.mp built
  obtain ⟨_,same'⟩ := build_ok.mp built'
  have units : format.unit? frame = some unit := same ▸ unit?_wrap
  rw [same',unit?_wrap] at units
  have shown : format.transaction? frame = format.shown transaction := same ▸ transaction?_wrap
  rw [same',transaction?_wrap] at shown
  refine ⟨(Option.some.inj units).symm,(Option.some.inj request).symm,?_⟩
  intro stream
  subst stream
  exact (Option.some.inj shown).symm

-- Two records of different sizes. On a serial line the transaction is not in the frame.
theorem build_injective_records :
    (Operation.writeFileRecord 20 [⟨6,4,7,2,[0x06AF,0x04BE]⟩,⟨6,3,9,1,[0x100D]⟩]).request? =
      some (.writeRecords 20 [⟨6,4,7,2,[0x06AF,0x04BE]⟩,⟨6,3,9,1,[0x100D]⟩],20) ∧
    build .rtu 7 17 (.writeRecords 20 [⟨6,4,7,2,[0x06AF,0x04BE]⟩,⟨6,3,9,1,[0x100D]⟩]) =
      build .rtu 9 17 (.writeRecords 20 [⟨6,4,7,2,[0x06AF,0x04BE]⟩,⟨6,3,9,1,[0x100D]⟩]) ∧
    ((17 : UInt8) = 17 ∧ Request.writeRecords 20 [⟨6,4,7,2,[0x06AF,0x04BE]⟩,⟨6,3,9,1,[0x100D]⟩] =
      .writeRecords 20 [⟨6,4,7,2,[0x06AF,0x04BE]⟩,⟨6,3,9,1,[0x100D]⟩] ∧ (Format.rtu = .tcp → (7 : UInt16) = 9)) := by
  have asked : (Operation.writeFileRecord 20 [⟨6,4,7,2,[0x06AF,0x04BE]⟩,⟨6,3,9,1,[0x100D]⟩]).request? =
      some (.writeRecords 20 [⟨6,4,7,2,[0x06AF,0x04BE]⟩,⟨6,3,9,1,[0x100D]⟩],20) := rfl
  exact ⟨asked,rfl,build_injective asked asked (show build .rtu 7 17 _ = .ok _ from rfl) (show build .rtu 9 17 _ = .ok _ from rfl)⟩

-- Records whose data is not as long as they say are let through by no operation: three of them
-- can look like one.
example : (Request.writeRecords 21 [⟨6,1,1,0,[]⟩,⟨6,2,2,0,[]⟩,⟨6,3,3,0,[]⟩]).encode =
    (Request.writeRecords 21 [⟨6,1,1,0,[0x0600,0x0200,0x0200,0x0006,0x0003,0x0003,0x0000]⟩]).encode := by decide

end Frame
end ModbusMaster
