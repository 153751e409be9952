import ModbusMaster.Proofs.Gateway
namespace ModbusMaster

-- The points of a configuration are checked before a gateway runs, and each read is checked
-- again when it is handed to the stack. Both checks agree on units and devices. Of the
-- width the first knows only that there is one, so a read that is too wide fails every time.

variable {p : Point} {format : Format} {device : DeviceAddress}

theorem Point.deviceAddress_unit (found : p.deviceAddress format = .ok device) : device.unit = p.unit := by
  unfold deviceAddress at found
  split at found
  · cases found
    rfl
  · split at found
    · cases found
    · split at found
      · cases found
        rfl
      · cases found

namespace Engine
variable {m : Engine}

theorem matches_point (found : p.deviceAddress m.format = .ok device) : m.matches? device = true := by
  unfold Point.deviceAddress at found
  unfold matches?
  split at found
  · rename_i serial
    cases found
    rw [serial]
  · rename_i stream
    split at found
    · cases found
    · split at found
      · cases found
        rw [stream]
      · cases found

theorem call_invalid (m : Engine) (t : Target) (op : Operation) (h : Handler) :
    (m.call t op (some h)).1 = .invalidInputParameter ↔
      op.request? = none ∨ Limits.unitValid t.device.unit = false ∨ m.matches? t.device = false := by
  unfold call
  cases asked : op.request? with
  | none => simp
  | some found =>
    obtain ⟨r,n⟩ := found
    have passed : (m.offer t r n h).1.status ≠ .invalidInputParameter := by cases (m.offer t r n h).1 <;> simp [Offer.status]
    simp only [submit]
    by_cases wrong : (!Limits.unitValid t.device.unit || !m.matches? t.device) = true
    · rw [if_pos wrong]
      simpa using wrong
    · rw [if_neg wrong]
      simp only [Bool.or_eq_true,Bool.not_eq_true'] at wrong
      refine iff_of_false ?_ (by simp [wrong])
      split
      · simp
      · generalize m.offer t r n h = offered at passed
        obtain ⟨o,u⟩ := offered
        cases o <;> exact passed

theorem call_usable (usable : p.Usable m.format) (found : p.deviceAddress m.format = .ok device) (app : UInt16)
    (priority : Int) (h : Handler) :
    (m.call ⟨app,device,priority⟩ (Operation.ofPoint p) (some h)).1 = .invalidInputParameter ↔
      p.registerType.widest < p.width := by
  rw [call_invalid,Operation.ofPoint_refused]
  simp [Point.deviceAddress_unit found,matches_point found,usable.unit,usable.width]

end Engine

theorem Station.pollPoint_wide {s : Station} (usable : p.Usable s.engine.format) (wide : p.registerType.widest < p.width) :
    (s.pollPoint p).1 = false ∧ ∀ id pending, s.reporter.pending.register? (OpenRequest.periodic p) = some (id,pending) →
      s.polls p = [.refused (OpenRequest.periodic p) .invalidInputParameter s.instant] := by
  obtain ⟨device,found⟩ := usable.device
  have invalid (id : UInt16) := (Engine.call_usable usable found id p.priority .points).mpr wide
  refine ⟨?_,?_⟩
  · cases registered : s.reporter.pending.register? (OpenRequest.periodic p) with
    | none => simp [pollPoint,found,registered]
    | some taken =>
      rw [(pollPoint_status found registered).1,invalid]
      rfl
  · intro id pending registered
    rw [(pollPoint_status found registered).2]
    exact issues_refused (invalid id) (by decide)

namespace Gateway
variable {first : Station} {settings : Settings} {catalog : Catalog} {speaks : Format} {devices : Peer → Device}

-- A point of a validated configuration has its device, and its read is taken as valid input
-- just where it is not too wide. One that is fails in every cycle of every run.
theorem wide_points_refused (valid : settings.validate = .ok ()) (member : p ∈ settings.points)
    (started : start settings catalog speaks devices = .ok first) (ms : List Move) :
    ∃ device, p.deviceAddress settings.format = .ok device ∧
      (∀ app priority h, ((first.moves ms).engine.call ⟨app,device,priority⟩ (Operation.ofPoint p) (some h)).1 =
        .invalidInputParameter ↔ p.registerType.widest < p.width) ∧
      (p.registerType.widest < p.width → ((first.moves ms).pollPoint p).1 = false ∧
        ∀ id pending, (first.moves ms).reporter.pending.register? (OpenRequest.periodic p) = some (id,pending) →
          (first.moves ms).polls p = [.refused (OpenRequest.periodic p) .invalidInputParameter (first.moves ms).instant]) := by
  have format : (first.moves ms).engine.format = settings.format := congrArg Prod.fst (started_setting started ms)
  have usable := Settings.validate_usable valid p member
  rw [← format] at usable ⊢
  obtain ⟨device,found⟩ := usable.device
  exact ⟨device,found,Engine.call_usable usable found,Station.pollPoint_wide usable⟩

-- A serial gateway whose only point is one register wider than a read can be.
def expanse : Point := {pressure with width:=126}
def wideSettings : Settings := {serialSettings with points:=[expanse]}

theorem wide_points_refused_serial : ∃ first, wideSettings.validate = .ok () ∧
    start wideSettings onePoint .rtu silentLine = .ok first ∧ expanse.deviceAddress .rtu = .ok ⟨.serial,1⟩ ∧
    (first.engine.call ⟨0,⟨.serial,1⟩,1⟩ (Operation.ofPoint expanse) (some .points)).1 = .invalidInputParameter ∧
    (first.pollPoint expanse).1 = false := by
  have valid : wideSettings.validate = .ok () := rfl
  have member : expanse ∈ wideSettings.points := List.mem_singleton.mpr rfl
  refine ⟨_,valid,rfl,rfl,?_⟩
  obtain ⟨device,found,invalid,polls⟩ := wide_points_refused valid member
    (show start wideSettings onePoint .rtu silentLine = _ from rfl) []
  cases found
  exact ⟨(invalid 0 1 .points).mpr (by decide),(polls (by decide)).1⟩

end Gateway
end ModbusMaster
