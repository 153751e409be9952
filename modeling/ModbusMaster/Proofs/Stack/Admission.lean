import ModbusMaster.Stack.Operation
namespace ModbusMaster

-- What the operations let through, told by the requests themselves.

namespace Limits
variable {f : Function} {q n : UInt16} {e : Nat}

def Within (f : Function) (q : UInt16) : Prop := ∀ b, bounds? f = some b → b.min ≤ q ∧ q ≤ b.max

def Counts (f : Function) (q n : UInt16) : Prop := ∀ e, byteCount? f q = some e → n ≠ 0 ∧ n.toNat = e

-- Only functions with bounds carry values, so nothing goes unchecked without them.
theorem byteCount?_bounded (takes : byteCount? f q = some e) : ∃ b, bounds? f = some b := by
  cases f with
  | writeMultipleCoils => exact ⟨_,rfl⟩
  | writeMultipleRegisters => exact ⟨_,rfl⟩
  | readWriteMultipleRegisters => exact ⟨_,rfl⟩
  | _ => cases takes

theorem checkQuantity_ok : (checkQuantity f q n).isOk = true ↔ Within f q ∧ Counts f q n := by
  cases bounded : bounds? f with
  | none =>
    have unlimited : Within f q := by simp [Within,bounded]
    have uncounted : Counts f q n := by
      intro e takes
      obtain ⟨b,bounds⟩ := byteCount?_bounded takes
      cases bounded.symm.trans bounds
    simp [checkQuantity,bounded,Except.isOk,Except.toBool,unlimited,uncounted]
  | some b =>
    have inside : Within f q ↔ ¬(q < b.min ∨ b.max < q) := by simp [Within,bounded,not_or]
    by_cases outside : q < b.min ∨ b.max < q
    · simp [checkQuantity,bounded,outside,inside,Except.isOk,Except.toBool]
    · cases takes : byteCount? f q with
      | none => simp [checkQuantity,bounded,outside,inside,takes,Counts,Except.isOk,Except.toBool]
      | some e =>
        have right : Counts f q n ↔ ¬(n = 0 ∨ n.toNat ≠ e) := by simp [Counts,takes,not_or]
        by_cases wrong : n = 0 ∨ n.toNat ≠ e
        · simp [checkQuantity,bounded,outside,takes,wrong,right,Except.isOk,Except.toBool]
        · simp [checkQuantity,bounded,outside,inside,takes,wrong,right,Except.isOk,Except.toBool]

end Limits

namespace Operation
open Limits (Within Counts)
structure Carries (f : Function) (q : UInt16) (values : Bytes) : Prop where
  within : Within f q
  counts : Counts f q (UInt16.ofNat values.length)
  octet : values.length ≤ 255

structure Describes (f : Function) (count : UInt8) (records : List FileRecord) : Prop where
  within : Within f count.toUInt16
  total : FileRecord.totalSize records = count.toNat
  filled : ∀ r ∈ records, r.referenceType = recordType ∧
    if f = .writeFileRecord then r.data.length = r.length.toNat else r.data = []

inductive Asked : Request → UInt16 → Prop where
  | read {f : Function} {a q : UInt16} (reads : f ∈ [.readCoils,.readDiscreteInputs,.readHoldingRegisters,.readInputRegisters])
    (within : Within f q) : Asked (.read f a q) 0
  | coil (a : UInt16) (on : Bool) : Asked (.writeSingle .writeSingleCoil a (WriteValue.coilValue on)) 0
  | register (a v : UInt16) : Asked (.writeSingle .writeSingleRegister a v) 0
  | multiple {f : Function} {a q : UInt16} {values : Bytes} (writes : f ∈ [.writeMultipleCoils,.writeMultipleRegisters])
    (carries : Carries f q values) : Asked (.writeMultiple f a q values) (UInt16.ofNat values.length)
  | readRecords {count : UInt8} {records : List FileRecord} (describes : Describes .readFileRecord count records) :
    Asked (.readRecords count records) count.toUInt16
  | writeRecords {count : UInt8} {records : List FileRecord} (describes : Describes .writeFileRecord count records) :
    Asked (.writeRecords count records) count.toUInt16
  | readWrite {ra rq wa wq : UInt16} {values : Bytes} (within : Within .readHoldingRegisters rq)
    (carries : Carries .readWriteMultipleRegisters wq values) :
    Asked (.readWrite ra rq wa wq values) (UInt16.ofNat values.length)
  | identification {code : UInt8} (object : UInt8) (known : 1 ≤ code ∧ code ≤ 4) :
    Asked (.deviceAddress identification code object) 0

variable {f : Function} {op : Operation} {r : Request} {a q n : UInt16} {count : UInt8} {values : Bytes}
  {records : List FileRecord}

theorem quantityOk_iff : quantityOk f q n = true ↔ Within f q ∧ Counts f q n := Limits.checkQuantity_ok

theorem Carries.counted (carries : Carries f q values) : (UInt16.ofNat values.length).toNat = values.length :=
  UInt16.toNat_ofNat_of_lt' (Nat.lt_of_le_of_lt carries.octet (by decide))

theorem Carries.length {e : Nat} (carries : Carries f q values) (takes : Limits.byteCount? f q = some e) :
    values.length = e := carries.counted.symm.trans (carries.counts e takes).2

theorem describes_of_ok (checked : recordsOk f count records = true) : Describes f count records := by
  simp only [recordsOk,Bool.and_eq_true,beq_iff_eq] at checked
  obtain ⟨⟨⟨_,quantity⟩,total⟩,each⟩ := checked
  refine ⟨(quantityOk_iff.mp quantity).1,total,?_⟩
  intro r member
  have record := List.all_eq_true.mp each r member
  rw [Bool.and_eq_true,beq_iff_eq] at record
  obtain ⟨type,data⟩ := record
  refine ⟨type,?_⟩
  by_cases writes : f = .writeFileRecord
  · rw [if_pos writes] at data ⊢
    exact beq_iff_eq.mp data
  · rw [if_neg writes] at data ⊢
    exact List.isEmpty_iff.mp data

theorem read?_asked (asked : read? f a q = some (r,n))
    (reads : f ∈ [.readCoils,.readDiscreteInputs,.readHoldingRegisters,.readInputRegisters]) : Asked r n := by
  unfold read? at asked
  split at asked
  · rename_i checked
    cases asked
    exact .read reads (quantityOk_iff.mp checked).1
  · cases asked

theorem write?_asked (asked : write? f a q values = some (r,n))
    (writes : f ∈ [.writeMultipleCoils,.writeMultipleRegisters]) : Asked r n := by
  simp only [write?] at asked
  split at asked
  · cases asked
  · rename_i checked
    cases asked
    simp only [Bool.or_eq_true,decide_eq_true_eq,Bool.not_eq_true',not_or,Nat.not_lt,Bool.not_eq_false] at checked
    obtain ⟨octet,quantity⟩ := checked
    obtain ⟨within,counts⟩ := quantityOk_iff.mp quantity
    exact .multiple writes ⟨within,counts,octet⟩

theorem request?_asked (asked : op.request? = some (r,n)) : Asked r n := by
  cases op with
  | readCoils => exact read?_asked asked (by decide)
  | readDiscreteInputs => exact read?_asked asked (by decide)
  | readHoldingRegisters => exact read?_asked asked (by decide)
  | readInputRegisters => exact read?_asked asked (by decide)
  | writeSingleCoil a on =>
    cases asked
    exact .coil a on
  | writeSingleRegister a v =>
    cases asked
    exact .register a v
  | writeMultipleCoils => exact write?_asked asked (by decide)
  | writeMultipleRegisters => exact write?_asked asked (by decide)
  | readFileRecord =>
    simp only [request?] at asked
    split at asked
    · rename_i checked
      cases asked
      exact .readRecords (describes_of_ok checked)
    · cases asked
  | writeFileRecord =>
    simp only [request?] at asked
    split at asked
    · rename_i checked
      cases asked
      exact .writeRecords (describes_of_ok checked)
    · cases asked
  | readWriteMultipleRegisters =>
    simp only [request?] at asked
    split at asked
    · cases asked
    · rename_i checked
      cases asked
      simp only [Bool.or_eq_true,decide_eq_true_eq,Bool.not_eq_true',not_or,Nat.not_lt,Bool.not_eq_false] at checked
      obtain ⟨⟨octet,read⟩,written⟩ := checked
      obtain ⟨within,counts⟩ := quantityOk_iff.mp written
      exact .readWrite (quantityOk_iff.mp read).1 ⟨within,counts,octet⟩
  | readDeviceIdentification =>
    simp only [request?] at asked
    split at asked
    · cases asked
    · rename_i checked
      cases asked
      simp only [bne_iff_ne,ne_eq,Bool.or_eq_true,Bool.not_eq_true',not_or,Decidable.not_not,Bool.not_eq_false,Bool.and_eq_true,
        decide_eq_true_eq] at checked
      obtain ⟨rfl,known⟩ := checked
      exact .identification _ known

end Operation
end ModbusMaster
