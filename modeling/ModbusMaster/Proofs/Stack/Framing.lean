import ModbusMaster.Proofs.Frame.Framed
import ModbusMaster.Proofs.Stack.Admission
import ModbusMaster.Proofs.Stack.Ownership
namespace ModbusMaster

-- What operations let through can be framed, and its count is that of the octets behind it.

def Function.countAt? : Function → Option Nat
  | writeMultipleCoils => some 5
  | writeMultipleRegisters => some 5
  | readFileRecord => some 1
  | writeFileRecord => some 1
  | readWriteMultipleRegisters => some 9
  | _ => none

def Bytes.CountedAt (b : Bytes) (i n : Nat) : Prop :=
  ∃ count, b[i]? = some count ∧ count.toNat = n ∧ (b.drop (i+1)).length = n

theorem Format.aduLength_le (format : Format) (n : Nat) : format.aduLength n ≤ format.maxAdu ↔ n ≤ 253 := by
  cases format <;> simp only [aduLength,maxAdu,headerSize] <;> omega

theorem Limits.values_fit {f : Function} {q : UInt16} {e i : Nat} (within : Within f q) (takes : byteCount? f q = some e)
    (counted : f.countAt? = some i) : i+1+e ≤ 252 := by
  obtain ⟨b,bounded⟩ := byteCount?_bounded takes
  have high := UInt16.le_iff_toNat_le.mp (within b bounded).2
  cases f with
  | writeMultipleCoils | writeMultipleRegisters | readWriteMultipleRegisters =>
    cases bounded
    cases takes
    cases counted
    simp only [UInt16.reduceToNat] at high
    omega
  | _ => cases takes

namespace Operation
variable {f : Function} {r : Request} {q n : UInt16} {count : UInt8} {values : Bytes} {records : List FileRecord}

theorem Carries.fits {i : Nat} (carries : Carries f q values) (takes : ∃ e, Limits.byteCount? f q = some e)
    (counted : f.countAt? = some i) : i+1+values.length ≤ 252 := by
  obtain ⟨e,takes⟩ := takes
  rw [carries.length takes]
  exact Limits.values_fit carries.within takes counted

theorem Describes.fits (describes : Describes f count records) (bounded : Limits.bounds? f = some ⟨7,245⟩) :
    FileRecord.totalSize records ≤ 245 := by
  have high := UInt16.le_iff_toNat_le.mp (describes.within _ bounded).2
  rw [describes.total]
  exact high

theorem Asked.size_le (asked : Asked r n) : r.size ≤ 252 := by
  cases asked with
  | read | coil | register | identification => simp [Request.size]
  | multiple writes carries =>
    rcases List.mem_cons.mp writes with rfl | writes
    · exact carries.fits ⟨_,rfl⟩ rfl
    · cases List.mem_singleton.mp writes
      exact carries.fits ⟨_,rfl⟩ rfl
  | readRecords describes | writeRecords describes =>
    have := describes.fits rfl
    simp only [Request.size]
    omega
  | readWrite _ carries => exact carries.fits ⟨_,rfl⟩ rfl

theorem Carries.shown (carries : Carries f q values) :
    (UInt8.ofNat values.length).toNat = (UInt16.ofNat values.length).toNat :=
  (UInt8.toNat_ofNat_of_lt' (Nat.lt_of_le_of_lt carries.octet (by decide))).trans carries.counted.symm

theorem Asked.counted {i : Nat} (asked : Asked r n) (counts : r.function.countAt? = some i) :
    r.encode.CountedAt i n.toNat := by
  cases asked with
  | read reads =>
    simp only [List.mem_cons,List.not_mem_nil,or_false] at reads
    rcases reads with rfl | rfl | rfl | rfl <;> cases counts
  | coil | register | identification => cases counts
  | multiple writes carries =>
    rcases List.mem_cons.mp writes with rfl | writes
    · cases counts
      exact ⟨_,rfl,carries.shown,carries.counted.symm⟩
    · cases List.mem_singleton.mp writes
      cases counts
      exact ⟨_,rfl,carries.shown,carries.counted.symm⟩
  | readRecords describes | writeRecords describes =>
    cases counts
    refine ⟨_,rfl,(UInt8.toNat_toUInt16 _).symm,?_⟩
    rw [UInt8.toNat_toUInt16,← describes.total]
    exact Request.length_records _
  | readWrite _ carries =>
    cases counts
    exact ⟨_,rfl,carries.shown,carries.counted.symm⟩

end Operation

-- A frame that is no longer than its format allows, with nothing but its contents in it,
-- and with a count that is right, if the function has one.
structure Frame.Consistent (format : Format) (f : Function) (n : UInt16) (frame : Bytes) : Prop where
  fits : frame.length ≤ format.maxAdu
  exact : frame.length = format.aduLength (format.contents frame).length
  function : (format.contents frame).head? = some f.code
  counted : ∀ i, f.countAt? = some i → (format.contents frame).CountedAt i n.toNat

namespace Engine
variable {m u : Engine} {t : Target} {op : Operation} {r : Request} {n : UInt16} {handler : Option Handler}

theorem build_asked (asked : Operation.Asked r n) (format : Format) (transaction : UInt16) (unit : UInt8) :
    ∃ frame, Frame.build format transaction unit r = .ok frame ∧ Frame.Consistent format r.function n frame := by
  have size := asked.size_le
  have fits : format.aduLength r.size ≤ format.maxAdu := (format.aduLength_le r.size).mpr (Nat.le_succ_of_le size)
  have contents : format.contents (Frame.wrap format transaction unit r.encode) = r.encode := by
    apply Frame.contents_wrap
    rw [r.length_encode]
    exact Nat.lt_of_le_of_lt (Nat.succ_le_succ size) (by decide)
  refine ⟨_,Frame.build_ok.mpr ⟨fits,rfl⟩,?_⟩
  constructor
  · rw [Frame.length_wrap,r.length_encode]
    exact fits
  · rw [contents,Frame.length_wrap]
  · rw [contents]
    rfl
  · rw [contents]
    intro i counts
    exact asked.counted counts

theorem call_within (asked : op.request? = some (r,n)) (m : Engine) (t : Target) (handler : Option Handler) :
    (m.call t op handler).1 ≠ .packetLengthExceeded := by
  have calls := call_calls m t op handler
  generalize m.call t op handler = called at calls ⊢
  obtain ⟨status,u⟩ := called
  cases calls with
  | invalid => simp
  | disabled => simp
  | offered asked' _ offers =>
    cases asked.symm.trans asked'
    cases offers with
    | unframed _ long =>
      obtain ⟨frame,built,_⟩ := build_asked (Operation.request?_asked asked) _ _ t.device.unit
      cases long.symm.trans built
    | _ => simp

theorem call_queued (asked : op.request? = some (r,n)) (called : m.call t op handler = (.success,u)) :
    ∃ e table, m.framed? t op handler = some e ∧ enqueue? {m with table:=table} e = some u ∧
      Frame.Consistent m.format e.function e.byteCount e.frame := by
  have calls := call_calls m t op handler
  rw [called] at calls
  generalize ended : CallStatus.success = status at calls
  cases calls with
  | invalid => cases ended
  | disabled => cases ended
  | offered asked' told offers =>
    subst told
    cases asked.symm.trans asked'
    cases offers with
    | queued reserved built taken =>
      obtain ⟨frame,built',consistent⟩ := build_asked (Operation.request?_asked asked) m.format _ t.device.unit
      cases built.symm.trans built'
      refine ⟨_,_,?_,taken,consistent⟩
      simp [framed?,asked,reserved,built,Except.toOption]
    | _ => cases ended

theorem operations_framed (asked : op.request? = some (r,n)) :
    (∀ format transaction unit, ∃ frame, Frame.build format transaction unit r = .ok frame ∧
      Frame.Consistent format r.function n frame) ∧
    ∀ (m : Engine) t handler, (m.call t op handler).1 ≠ .packetLengthExceeded ∧
      ∀ u, m.call t op handler = (.success,u) → ∃ e table, m.framed? t op handler = some e ∧
        enqueue? {m with table:=table} e = some u ∧ Frame.Consistent m.format e.function e.byteCount e.frame :=
  ⟨build_asked (Operation.request?_asked asked),
    fun m t handler => ⟨call_within asked m t handler,fun _ called => call_queued asked called⟩⟩

-- The widest request of all leaves one octet of a serial frame.
theorem operations_framed_widest :
    (Operation.readWriteMultipleRegisters 0 125 0 121 (List.replicate 242 0)).request? =
      some (.readWrite 0 125 0 121 (List.replicate 242 0),242) ∧
    (∃ frame, Frame.build .rtu 7 17 (.readWrite 0 125 0 121 (List.replicate 242 0)) = .ok frame ∧ frame.length = 255 ∧
      Frame.Consistent .rtu .readWriteMultipleRegisters 242 frame) ∧
    ∀ (m : Engine) t handler, (m.call t (.readWriteMultipleRegisters 0 125 0 121 (List.replicate 242 0)) handler).1 ≠
      .packetLengthExceeded := by
  have asked : (Operation.readWriteMultipleRegisters 0 125 0 121 (List.replicate 242 0)).request? =
      some (.readWrite 0 125 0 121 (List.replicate 242 0),242) := by
    simp only [Operation.request?,List.length_replicate]
    rfl
  obtain ⟨framed,calls⟩ := operations_framed asked
  obtain ⟨frame,built,consistent⟩ := framed .rtu 7 17
  refine ⟨asked,⟨frame,built,?_,consistent⟩,fun m t handler => (calls m t handler).1⟩
  rw [(Frame.build_ok.mp built).2,Frame.length_wrap,Request.length_encode]
  simp only [Request.size,List.length_replicate]
  rfl

end Engine
end ModbusMaster
