import ModbusMaster.Proofs.Gateway
import ModbusMaster.Proofs.Polling.Timetable
namespace ModbusMaster

-- A gateway in virtual time serves every bucket of its schedule at the multiples of its
-- interval until it shuts down.

namespace Gateway
variable {s first : Station} {settings : Settings} {catalog : Catalog} {speaks : Format} {devices : Peer → Device}
  {schedule : Schedule}

inductive Step where
  | submit (raw : String)
  | wait (ms : Nat)

def Step.ms : Step → Nat
  | .submit _ => 0
  | .wait ms => ms

def step (s : Station) : Step → Station
  | .submit raw => (s.submit raw).2
  | .wait ms => s.wait ms

def stepping (s : Station) : Step → List Move
  | .submit raw => s.submitting raw
  | .wait ms => s.waiting ms

def run (s : Station) (steps : List Step) : Station := steps.foldl step s

def running : Station → List Step → List Move
  | _,[] => []
  | s,x::steps => stepping s x ++ running (step s x) steps

theorem step_moves (sound : s.Sound) (x : Step) : s.moves (stepping s x) = step s x := by
  cases x with
  | submit raw => exact Station.submit_moves sound raw
  | wait ms => exact Station.wait_moves sound ms

theorem step_sound (sound : s.Sound) (x : Step) : (step s x).Sound := step_moves sound x ▸ Station.moves_sound sound _

theorem run_moves (sound : s.Sound) (steps : List Step) : s.moves (running s steps) = run s steps := by
  induction steps generalizing s with
  | nil => rfl
  | cons x steps ih =>
    rw [running,Station.moves_append,step_moves sound,ih (step_sound sound x)]
    rfl

theorem run_sound (sound : s.Sound) (steps : List Step) : (run s steps).Sound :=
  run_moves sound steps ▸ Station.moves_sound sound _

theorem step_punctual (sound : s.Sound) (regular : schedule.Regular) (clock : s.poller = schedule.clockAt s.now) (x : Step) :
    Station.Punctual schedule s (stepping s x) (s.now+x.ms*1000) := by
  cases x with
  | submit raw =>
    rw [Step.ms,Nat.zero_mul,Nat.add_zero]
    have calm := s.submitting_calm raw
    exact Station.punctual_dial clock (Station.moves_dial sound calm) (Station.polled_silent fun m among => (calm m among).silent)
  | wait ms => exact Station.punctual_passing sound regular clock (Nat.le_add_right _ _) rfl

theorem run_punctual (sound : s.Sound) (regular : schedule.Regular) (clock : s.poller = schedule.clockAt s.now)
    (steps : List Step) : Station.Punctual schedule s (running s steps) (s.now+(steps.map Step.ms).sum*1000) := by
  induction steps generalizing s with
  | nil =>
    rw [List.map_nil,List.sum_nil,Nat.zero_mul,Nat.add_zero]
    exact Station.punctual_dial clock rfl rfl
  | cons x steps ih =>
    have first := step_punctual sound regular clock x
    have reached := step_moves sound x
    have now : (step s x).now = s.now+x.ms*1000 := reached ▸ first.arrived
    have poller : (step s x).poller = schedule.clockAt (step s x).now := by
      rw [now,← reached]
      exact first.clock
    have rest := first.append reached (ih (step_sound sound x) poller)
    rw [now] at rest
    rw [List.map_cons,List.sum_cons,Nat.add_mul,← Nat.add_assoc]
    exact rest

theorem ending_silent (sound : s.Sound) : ∀ m ∈ ending s, m.point? = none := by
  intro m among
  rcases List.mem_append.mp among with among | last
  · rcases List.mem_append.mp among with leaving | closing
    · rcases List.mem_cons.mp leaving with rfl | leaving
      · rfl
      · rcases List.mem_cons.mp leaving with rfl | settling
        · rfl
        · exact (Station.settling_calm (Station.dismissed_sound sound) settling).silent
    · have sound := stopWorkers_sound sound
      rcases List.mem_append.mp closing with closing | cleared
      · rcases List.mem_cons.mp closing with rfl | closing
        · rfl
        · rcases List.mem_cons.mp closing with rfl | settling
          · rfl
          · exact (Station.settling_calm (Station.trigger_sound sound) settling).silent
      · rw [List.mem_singleton.mp cleared]
        rfl
  · rw [List.mem_singleton.mp last]
    rfl

theorem shutdown_poller (sound : s.Sound) : (shutdown s).poller = none := by
  have ended := shutdown_sound (stopWorkers_sound sound)
  have drained : (shutdown s).dial = s.stopWorkers.2.shutdown.dial := Station.move_dial (m:=.drain) ended.engine trivial
  rw [Station.shutdown_dial (stopWorkers_sound sound),Station.stopWorkers_dial sound] at drained
  exact (Prod.mk.inj drained).2

theorem start_clock (started : start settings catalog speaks devices = .ok first) :
    first.now = 0 ∧ ∃ schedule, Schedule.ofCatalog settings.format catalog = .ok schedule ∧
      first.poller = pollerOf schedule 0 := by
  have zero : first.now = 0 := by
    have opened := Station.moves_sound (Station.sound_create settings.format settings.slots (settings.slots*2)
      settings.writeCapacity catalog devices) [.configure settings.timing,.start]
    have hired := Station.move_dial (m:=.hire settings.responseWorkers) opened.engine trivial
    rw [← start_moves started]
    exact congrArg Prod.fst hired
  refine ⟨zero,?_⟩
  unfold start at started
  split at started
  · cases started
  · split at started
    · cases started
    · rename_i schedule made
      cases started
      exact ⟨schedule,made,congrArg (pollerOf schedule) zero⟩

structure Serves (schedule : Schedule) (first : Station) (steps after : List Step) : Prop where
  ran : first.moves (running first steps) = run first steps
  time : (run first steps).now = (steps.map Step.ms).sum*1000
  -- the points of a bucket are polled at the multiples of its interval and at no other instant
  served : ∀ t, first.polledAt (running first steps) t =
    if 0 < t ∧ t ≤ (run first steps).now then schedule.pointsAt t else []
  clock : (run first steps).poller = schedule.clockAt (run first steps).now
  counted : ∀ p, (run first steps).poller = some p → p.schedule.buckets.map (fun b => (b.intervalMs,b.fired)) =
    schedule.buckets.map fun b => (b.intervalMs,(run first steps).now/(b.intervalMs*1000))
  -- once it shuts down it polls no more, though time may pass
  closed : (run first steps).moves (ending (run first steps) ++ running (shutdown (run first steps)) after) =
    run (shutdown (run first steps)) after
  silent : ∀ t, (run first steps).polledAt (ending (run first steps) ++ running (shutdown (run first steps)) after) t = []

theorem buckets_served_on_time : (∀ floor points, ((Schedule.empty floor).registerAll points).Cyclic) ∧
    ∀ settings catalog speaks devices first, start settings catalog speaks devices = .ok first → ∀ steps after,
      Serves ((Schedule.ofFormat settings.format).registerAll catalog.toList) first steps after := by
  refine ⟨fun floor points => (Schedule.registerAll_regular (Schedule.regular_empty floor) points).cyclic,?_⟩
  intro settings catalog speaks devices first started steps after
  obtain ⟨begun,schedule,made,polls⟩ := start_clock started
  rw [← Schedule.ofCatalog_registerAll made]
  have regular : schedule.Regular :=
    Schedule.ofCatalog_registerAll made ▸ Schedule.registerAll_regular (Schedule.regular_empty _) _
  have sound : first.Sound := (started_known started []).1.sound
  have clock : first.poller = schedule.clockAt first.now := by rw [polls,begun,regular.clockAt_zero]
  have punctual := run_punctual sound regular clock steps
  have ran := run_moves sound steps
  rw [begun,Nat.zero_add] at punctual
  have time := ran ▸ punctual.arrived
  have poller := ran ▸ punctual.clock
  have running := run_sound sound steps
  have closing := ending_moves running
  have ended : (shutdown (run first steps)).Sound := closing ▸ Station.moves_sound running _
  have idle : (shutdown (run first steps)).poller = none := shutdown_poller running
  -- a clock that is gone goes by the schedule without buckets
  have rest := run_punctual ended (Schedule.regular_empty 1) idle after
  refine ⟨ran,time,?_,?_,?_,?_,?_⟩
  · intro t
    rw [punctual.served,begun,time]
  · rw [poller,time]
  · intro p clocked
    rw [time]
    exact regular.counted (poller.symm.trans clocked)
  · rw [Station.moves_append,closing,run_moves ended]
  · intro t
    rw [Station.polledAt_append,closing,Station.polledAt_silent (Station.polled_silent (ending_silent running)),rest.served]
    exact ite_self _

def level : Point := {pressure with metric:="level",address:=2,pollingMs:=some 250}
def twoPoints : Catalog := ⟨(Std.TreeMap.empty.insert pressure.key pressure).insert level.key level⟩
def twoIntervals : Schedule := (Schedule.empty 100).registerAll [pressure,level]

-- The third look at the clock finds the shorter interval over, and it begins anew from there.
theorem buckets_served_on_time_serial : (∃ first, start serialSettings twoPoints .rtu silentLine = .ok first ∧
      Serves ((Schedule.ofFormat serialSettings.format).registerAll twoPoints.toList) first
        [.wait 299,.submit "",.wait 1,.wait 1200] [.wait 3000]) ∧
    twoIntervals.Fires 300 [120000,150000] 120000 ∧
      300*1000 ≤ ([120000,150000] ++ [120000]).sum ∧ ([120000,150000] ++ [120000]).sum < 300*1000+120000 := by
  refine ⟨⟨_,rfl,buckets_served_on_time.2 serialSettings twoPoints .rtu silentLine _
    (show start serialSettings twoPoints .rtu silentLine = _ from rfl) _ _⟩,?_⟩
  have fires : twoIntervals.Fires 300 [120000,150000] 120000 :=
    show 300 ∈ (twoIntervals.after [120000,150000]).due 120000 by decide
  have waits : twoIntervals.Waits 300 [] [120000,150000] := by
    intro early us late same
    match early,same with
    | [],same =>
      cases same
      exact show 300 ∉ (twoIntervals.after []).due 120000 by decide
    | [_],same =>
      cases same
      exact show 300 ∉ (twoIntervals.after [120000]).due 150000 by decide
    | _::_::early,same => simp at same
  exact ⟨fires,(buckets_served_on_time.1 100 [pressure,level]).spaced ⟨300,[level],0,0⟩ (List.mem_cons_self) []
    [120000,150000] 120000 (.inl rfl) waits fires⟩

end Gateway
end ModbusMaster
