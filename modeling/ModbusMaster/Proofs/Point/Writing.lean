import Mathlib.Data.List.Basic
import ModbusMaster.Proofs.Stack.Framing
namespace ModbusMaster

-- A value that is written to a point is the value that is read back from it, in what the
-- device holds as well as in the text.

def Point.size (p : Point) : Nat := if p.registerType.isBit then (p.width.toNat+7)/8 else p.width.toNat*2

theorem Point.size_coil {p : Point} (table : p.registerType = .coil) : p.size = (p.width.toNat+7)/8 := by
  rw [size,table]
  rfl

theorem Point.size_holding {p : Point} (table : p.registerType = .holding) : p.size = p.width.toNat*2 := by
  rw [size,table]
  rfl

namespace WriteValue
variable {p : Point} {text : String} {op : WriteValue} {b sent : Bytes}

def values? : WriteValue → Option Bytes
  | coil _ => none
  | register v => some (Bytes.be16 v)
  | coils _ values => some values
  | registers _ values => some values

inductive Writes (p : Point) (b : Bytes) : WriteValue → Bytes → Prop where
  | coils (table : p.registerType = .coil) (many : p.width ≠ 1) : Writes p b (.coils p.width (b.fit p.size)) (b.fit p.size)
  | register (table : p.registerType = .holding) (single : p.width = 1) (hi lo : UInt8)
    (ordered : p.order.apply (b.fit p.size) = [hi,lo]) : Writes p b (.register (Bytes.word hi lo)) [hi,lo]
  | registers (table : p.registerType = .holding) (many : p.width ≠ 1) :
    Writes p b (.registers p.width (p.order.apply (b.fit p.size))) (p.order.apply (b.fit p.size))

theorem encode_writes (encoded : encode p text = .ok op) (valued : op.values? = some sent) :
    ∃ b, Text.Hex.parse? text = .ok b ∧ Writes p b op sent := by
  cases table : p.registerType with
  | discreteInput => simp [encode,table,RegisterType.writeFunction?] at encoded
  | input => simp [encode,table,RegisterType.writeFunction?] at encoded
  | coil =>
    by_cases single : p.width = 1
    · simp only [encode,table,RegisterType.writeFunction?,single,if_pos] at encoded
      cases encoded
      cases valued
    · cases parsed : hexValue text with
      | error f => simp [encode,table,RegisterType.writeFunction?,single,parsed] at encoded
      | ok b =>
        simp only [encode,table,RegisterType.writeFunction?,single,parsed,if_false,if_true,← Point.size_coil table] at encoded
        cases encoded
        cases valued
        exact ⟨b,hexValue_ok_iff.mp parsed,.coils table single⟩
  | holding =>
    cases parsed : hexValue text with
    | error f => by_cases single : p.width = 1 <;> simp [encode,table,RegisterType.writeFunction?,single,parsed] at encoded
    | ok b =>
      have size := Point.size_holding table
      refine ⟨b,hexValue_ok_iff.mp parsed,?_⟩
      by_cases single : p.width = 1
      · have length : (p.order.apply (b.fit p.size)).length = 2 := by
          rw [WordOrder.length_apply,Bytes.length_fit,size,single]
          rfl
        obtain ⟨hi,lo,ordered⟩ := List.length_eq_two.mp length
        simp only [encode,table,RegisterType.writeFunction?,single,parsed] at encoded
        rw [single] at size
        simp only [← size,ordered] at encoded
        cases encoded
        cases valued
        rw [Bytes.be16_word]
        exact .register table single hi lo ordered
      · simp only [encode,table,RegisterType.writeFunction?,single,parsed,if_false,← size,reduceCtorEq] at encoded
        cases encoded
        cases valued
        exact .registers table single

theorem Writes.length (writes : Writes p b op sent) : sent.length = p.size := by
  cases writes with
  | coils => exact Bytes.length_fit b p.size
  | register _ _ hi lo ordered => rw [← ordered,WordOrder.length_apply,Bytes.length_fit]
  | registers => rw [WordOrder.length_apply,Bytes.length_fit]

-- Bits are sent as they are, and what is sent of registers is put into the order of the value again.
theorem Writes.format (writes : Writes p b op sent) : p.format sent = Text.Hex.marked (b.fit p.size) := by
  cases writes with
  | coils table => simp [Point.format,table,RegisterType.isBit]
  | register table _ hi lo ordered =>
    rw [← ordered]
    simp [Point.format,table,RegisterType.isBit,WordOrder.invert_apply]
  | registers table => simp [Point.format,table,RegisterType.isBit,WordOrder.invert_apply]

end WriteValue

theorem Limits.values_some {f : Function} {q : UInt16} {e : Nat} (within : Within f q) (takes : byteCount? f q = some e) :
    0 < e := by
  obtain ⟨b,bounded⟩ := byteCount?_bounded takes
  have low := UInt16.le_iff_toNat_le.mp (within b bounded).1
  cases f with
  | writeMultipleCoils | writeMultipleRegisters | readWriteMultipleRegisters =>
    cases bounded
    cases takes
    simp only [UInt16.reduceToNat] at low
    omega
  | _ => cases takes

namespace Operation
open Limits (Within)
variable {f : Function} {a q : UInt16} {values : Bytes}

theorem carries_counted {i : Nat} (within : Within f q) (takes : Limits.byteCount? f q = some values.length)
    (counted : f.countAt? = some i) : Carries f q values := by
  have some := Limits.values_some within takes
  have fits := Limits.values_fit within takes counted
  have octet : values.length ≤ 255 := by omega
  have length : (UInt16.ofNat values.length).toNat = values.length :=
    UInt16.toNat_ofNat_of_lt' (Nat.lt_of_le_of_lt octet (by decide))
  refine ⟨within,?_,octet⟩
  intro e takes'
  cases takes.symm.trans takes'
  refine ⟨?_,length⟩
  intro zero
  rw [zero] at length
  exact Nat.ne_of_gt some length.symm

theorem write?_carries (carries : Carries f q values) :
    write? f a q values = some (.writeMultiple f a q values,UInt16.ofNat values.length) := by
  have checked : quantityOk f q (UInt16.ofNat values.length) = true := quantityOk_iff.mpr ⟨carries.within,carries.counts⟩
  simp [write?,checked,carries.octet]

end Operation

namespace WriteValue
open Operation (Carries ofWrite quantityOk quantityOk_iff write?_carries)
variable {p : Point} {text : String} {op : WriteValue} {b sent : Bytes}

structure Taken (p : Point) (op : WriteValue) (sent : Bytes) : Prop where
  counted : quantityOk op.function p.width (UInt16.ofNat sent.length) = true
  asked : ∃ r n, (ofWrite p.address op).request? = some (r,n) ∧ r.function = op.function ∧ r.address = p.address ∧
    r.quantity = p.width ∧ sent <:+ r.body

theorem taken_many {f : Function} (carries : Carries f p.width sent) (kind : op.function = f)
    (asks : (ofWrite p.address op).request? = Operation.write? f p.address p.width sent) : Taken p op sent := by
  subst kind
  refine ⟨quantityOk_iff.mpr ⟨carries.within,carries.counts⟩,?_⟩
  refine ⟨_,_,asks.trans (write?_carries carries),rfl,rfl,rfl,?_⟩
  rw [Request.body,← List.singleton_append,← List.append_assoc]
  exact List.suffix_append _ _

theorem Writes.taken (writes : Writes p b op sent) (within : Limits.Within op.function p.width) : Taken p op sent := by
  have length := writes.length
  cases writes with
  | coils table =>
    refine taken_many (Operation.carries_counted within ?_ rfl) rfl rfl
    rw [length,Point.size_coil table]
    rfl
  | register table single hi lo ordered =>
    refine ⟨rfl,_,_,rfl,rfl,rfl,single.symm,?_⟩
    rw [Request.body,Bytes.be16_word]
    exact List.suffix_append _ _
  | registers table =>
    refine taken_many (Operation.carries_counted within ?_ rfl) rfl rfl
    rw [length,Point.size_holding table]
    rfl

theorem writes_read_back (encoded : encode p text = .ok op) (valued : op.values? = some sent) :
    sent.length = p.size ∧ (Limits.Within op.function p.width → Taken p op sent) ∧
    (∃ b, Text.Hex.parse? text = .ok b ∧ p.format sent = Text.Hex.marked (b.fit p.size)) ∧
    ∀ (o : WordOrder) (b : Bytes), o.invert (o.apply b) = b ∧ o.apply (o.invert b) = b := by
  obtain ⟨b,parsed,writes⟩ := encode_writes encoded valued
  refine ⟨writes.length,writes.taken,⟨b,parsed,writes.format⟩,?_⟩
  intro o b
  exact ⟨o.invert_apply b,o.apply_invert b⟩

-- An odd count of digits for three registers of a device that swaps octets and words.
def limit : Point := ⟨"well","pump","limit",none,1,.holding,40,3,.int,Double.one,true,true,none,1⟩

theorem writes_read_back_swapped :
    encode limit "0x12345" = .ok (.registers 3 [0x45,0x23,0x01,0,0,0]) ∧
    Taken limit (.registers 3 [0x45,0x23,0x01,0,0,0]) [0x45,0x23,0x01,0,0,0] ∧
    ∃ b, Text.Hex.parse? "0x12345" = .ok b ∧ limit.format [0x45,0x23,0x01,0,0,0] = Text.Hex.marked (b.fit 6) := by
  have encoded : encode limit "0x12345" = .ok (.registers 3 [0x45,0x23,0x01,0,0,0]) := by decide +kernel
  obtain ⟨_,taken,reads,_⟩ := writes_read_back encoded rfl
  refine ⟨encoded,taken ?_,reads⟩
  intro bounds bounded
  cases bounded
  decide

end WriteValue
end ModbusMaster
