import ModbusMaster.Session.Service
namespace ModbusMaster.Session
variable {device : Device} {format : Format} {timing : Timing} {now : Nat} {s t : Session}

def Silent (s : Session) (now : Nat) : Prop := ∀ ready item rest, s.inbox = (ready,item)::rest → now < ready

-- All that a session can do at an instant, one rule for each kind of activity. The
-- guards exclude each other: of one state at most one rule holds.
inductive Steps (device : Device) (format : Format) (timing : Timing) (now : Nat) (s : Session) :
    Session × List SessionEvent → Prop where
  | taken {e q} (phase : s.phase = .idle) (popped : s.queue.pop false = (.item e,q)) :
      Steps device format timing now s (takeUp {s with queue:=q} device timing now e,[])
  | dialed {e ready failure} (phase : s.phase = .dialing e ready failure) (due : ready ≤ now) :
      Steps device format timing now s (s.connected timing now e failure)
  | sent {x ready l} (phase : s.phase = .pausing x ready) (due : ready ≤ now) (line : s.line = some l) :
      Steps device format timing now s (s.transmit device timing now x l)
  | lost {x ready} (phase : s.phase = .pausing x ready) (due : ready ≤ now) (line : s.line = none) :
      Steps device format timing now s (s.fail now x.entry x.started (.connection "transport closed"))
  | received {x deadline l ready item rest} (phase : s.phase = .awaiting x deadline) (line : s.line = some l)
      (first : l.inbox = (ready,item)::rest) (due : ready ≤ now) :
      Steps device format timing now s (receive {s with line:=some {l with inbox:=rest}} format now x item)
  | expired {x deadline} (phase : s.phase = .awaiting x deadline) (silent : s.Silent now)
      (due : deadline ≤ now ∨ s.line = none) : Steps device format timing now s (s.expire timing now x)

theorem silent_empty {l : Line} (line : s.line = some l) (empty : l.inbox = []) : s.Silent now := by
  intro ready item rest arrived
  simp [inbox,line,empty] at arrived

theorem silent_later {l : Line} {ready : Nat} {item : Except Fault Bytes} {rest : List (Nat × Except Fault Bytes)}
    (line : s.line = some l) (first : l.inbox = (ready,item)::rest) (late : now < ready) : s.Silent now := by
  intro other _ _ arrived
  simp only [inbox,line,first,List.cons.injEq,Prod.mk.injEq] at arrived
  omega

theorem step_sound {r : Session × List SessionEvent} (stepped : s.step device format timing now = some r) :
    Steps device format timing now s r := by
  unfold step at stepped
  split at stepped
  · rename_i phase
    split at stepped
    · rename_i popped
      cases stepped
      exact .taken phase popped
    · cases stepped
  · rename_i phase
    split at stepped
    · rename_i due
      cases stepped
      exact .dialed phase due
    · cases stepped
  · rename_i phase
    split at stepped
    · rename_i due
      split at stepped
      · rename_i line
        cases stepped
        exact .sent phase due line
      · rename_i line
        cases stepped
        exact .lost phase due line
    · cases stepped
  · rename_i phase
    split at stepped
    · rename_i line
      cases stepped
      exact .expired phase (fun _ _ _ arrived => by simp [inbox,line] at arrived) (.inr line)
    · rename_i l line
      split at stepped
      · rename_i ready item rest first
        split at stepped
        · rename_i due
          cases stepped
          exact .received phase line first due
        · rename_i late
          split at stepped
          · rename_i due
            cases stepped
            exact .expired phase (silent_later line first (by omega)) (.inl due)
          · cases stepped
      · rename_i empty
        split at stepped
        · rename_i due
          cases stepped
          exact .expired phase (silent_empty line empty) (.inl due)
        · cases stepped
  · cases stepped

theorem step_complete {r : Session × List SessionEvent} (steps : Steps device format timing now s r) :
    s.step device format timing now = some r := by
  cases steps with
  | taken phase popped => simp only [step,phase,popped]
  | dialed phase due => simp only [step,phase,if_pos due]
  | sent phase due line => simp only [step,phase,if_pos due,line]
  | lost phase due line => simp only [step,phase,if_pos due,line]
  | received phase line first due => simp only [step,phase,line,first,if_pos due]
  | @expired x deadline phase silent due =>
    cases line : s.line with
    | none => simp only [step,phase,line]
    | some l =>
      have due : deadline ≤ now := due.resolve_right (by simp [line])
      cases first : l.inbox with
      | nil => simp only [step,phase,line,first,if_pos due]
      | cons arrival rest =>
        have late := silent arrival.1 arrival.2 rest (by simp [inbox,line,first])
        simp only [step,phase,line,first,if_neg (Nat.not_le.mpr late),if_pos due]

theorem run_quiet (quiet : s.step device format timing now = none) : s.run device format timing now = (s,[]) := by
  rw [run]
  split
  · rfl
  · rename_i stepped
    rw [quiet] at stepped
    cases stepped

end ModbusMaster.Session
