import ModbusMaster.Settings
import ModbusMaster.Proofs.Stack.Admission
namespace ModbusMaster

-- What a point is read with, and what is known of the points of a checked configuration.

def RegisterType.widest : RegisterType → UInt16
  | coil => 2000
  | discreteInput => 2000
  | holding => 125
  | input => 125

namespace RegisterType

theorem bounds_read (t : RegisterType) : Limits.bounds? t.readFunction = some ⟨1,t.widest⟩ := by cases t <;> rfl

theorem read_only (t : RegisterType) : t.readFunction.isWrite = false := by cases t <;> rfl

-- A read carries no values, so its quantity is all there is to check.
theorem quantityOk_read (t : RegisterType) (q : UInt16) :
    Operation.quantityOk t.readFunction q 0 = true ↔ q ≠ 0 ∧ q ≤ t.widest := by
  have none : Limits.Counts t.readFunction q 0 := by
    intro e takes
    cases t <;> cases takes
  have some : 1 ≤ q ↔ q ≠ 0 := by
    rw [UInt16.le_iff_toNat_le,Ne,← UInt16.toNat_inj]
    exact Nat.one_le_iff_ne_zero
  rw [Operation.quantityOk_iff,Limits.Within,bounds_read]
  simp [none,some]

end RegisterType

namespace Operation
variable {p : Point} {r : Request} {n : UInt16}

theorem request?_ofPoint (p : Point) :
    (ofPoint p).request? = read? p.registerType.readFunction p.address p.width := by
  unfold ofPoint
  cases p.registerType <;> rfl

theorem ofPoint_asks (asked : (ofPoint p).request? = some (r,n)) :
    r.function = p.registerType.readFunction ∧ r.address = p.address ∧ r.quantity = p.width := by
  rw [request?_ofPoint,read?] at asked
  split at asked
  · cases asked
    exact ⟨rfl,rfl,rfl⟩
  · cases asked

theorem ofPoint_refused (p : Point) :
    (ofPoint p).request? = none ↔ p.width = 0 ∨ p.registerType.widest < p.width := by
  have checked := p.registerType.quantityOk_read p.width
  rw [request?_ofPoint,read?]
  split
  · rename_i ok
    obtain ⟨some,high⟩ := checked.mp ok
    simp [some,high]
  · rename_i bad
    rw [checked,Classical.not_and_iff_not_or_not,Classical.not_not,UInt16.not_le] at bad
    exact iff_of_true rfl bad

end Operation

namespace Point
variable {p : Point} {format : Format}

structure Usable (p : Point) (format : Format) : Prop where
  unit : Limits.unitValid p.unit = true
  width : p.width ≠ 0
  interval : p.pollingMs ≠ some 0
  device : ∃ device, p.deviceAddress format = .ok device

theorem check_ok : p.check format = .ok () ↔ p.Usable format := by
  unfold check
  constructor
  · intro checked
    split at checked
    · cases checked
    · rename_i unit
      split at checked
      · cases checked
      · rename_i width
        split at checked
        · cases checked
        · rename_i interval
          split at checked
          · rename_i device found
            exact ⟨by simpa using unit,width,interval,device,found⟩
          · cases checked
  · rintro ⟨unit,width,interval,device,found⟩
    simp [unit,width,interval,found]

end Point

namespace Settings

theorem forM_ok {ε α : Type} {f : α → Except ε Unit} {xs : List α} : xs.forM f = .ok () ↔ ∀ x ∈ xs, f x = .ok () := by
  induction xs with
  | nil => simp [List.forM,pure,Except.pure]
  | cons x xs ih =>
    rw [List.forall_mem_cons,← ih]
    change (f x >>= fun _ => xs.forM f) = .ok () ↔ _
    cases f x <;> simp [bind,Except.bind]

theorem validate_usable {s : Settings} (valid : s.validate = .ok ()) : ∀ p ∈ s.points, p.Usable s.format := by
  unfold validate at valid
  split at valid
  · cases valid
  · split at valid
    · cases valid
    · split at valid
      · cases valid
      · intro p member
        have checked := forM_ok.mp valid p member
        unfold Point.validate at checked
        apply Point.check_ok.mp
        cases result : p.check s.format with
        | ok => rfl
        | error d =>
          rw [result] at checked
          cases checked

end Settings
end ModbusMaster
