import Mathlib.Data.List.Permutation
import ModbusMaster.Proofs.Session.Attempts
namespace ModbusMaster

-- What the log of a session says is what its chronicle says, and what the session counts is
-- what the log says.

inductive Mark where
  | sent (frame : Bytes)
  | ended (t : Ticket) (outcome : Outcome)

def SessionEvent.mark? : SessionEvent → Option Mark
  | .send frame => some (.sent frame)
  | .sendFailed frame => some (.sent frame)
  | .done c h => some (.ended (c.ticket h) c.outcome)
  | _ => none

def marks (log : List (Nat × SessionEvent)) : List (Nat × Mark) := log.filterMap fun x => x.2.mark?.map (x.1,·)

def Sending.mark (x : Sending) : Nat × Mark := (x.time,.sent x.frame)

def Service.marks (v : Service) : List (Nat × Mark) :=
  v.sendings.map Sending.mark ++ [(v.time,.ended v.entry.ticket v.outcome)]

theorem marks_append (a b : List (Nat × SessionEvent)) : marks (a ++ b) = marks a ++ marks b := List.filterMap_append

theorem marks_quiet (now : Nat) (inbox : List (Nat × Except Fault Bytes)) {out : List SessionEvent}
    (quiet : endings out = []) :
    marks (out.map (now,·)) = (out.filterMap (Sending.ofEvent? now inbox)).map Sending.mark := by
  induction out with
  | nil => rfl
  | cons x out ih =>
    cases x with
    | done c h => cases quiet
    | connect ok => exact ih quiet
    | close sent => exact ih quiet
    | send frame => exact congrArg (_::·) (ih quiet)
    | sendFailed frame => exact congrArg (_::·) (ih quiet)

namespace Watch
variable {p : Post} {w : Watch} {e : Entry} {r : Session × List SessionEvent}

-- One request after the other, each with its end, then the one in service; once the service
-- has ended, what was still waiting ends with it.
def Told (w : Watch) : Prop :=
  ∃ rest, marks w.log = w.past.flatMap Service.marks ++ w.sendings.map Sending.mark ++ rest ∧
    (w.session.phase ≠ .stopped → rest = []) ∧ ∀ m ∈ rest, ∃ t, m.2 = .ended t .shutdown

theorem overheard_marks (w : Watch) (r : Session × List SessionEvent) : (w.overheard r).map Sending.mark =
    w.sendings.map Sending.mark ++ (r.2.filterMap (Sending.ofEvent? w.now r.1.inbox)).map Sending.mark := by
  unfold overheard
  rw [List.map_append]
  split
  · rw [List.map_map]
    rfl
  · rfl

theorem turns_live {device : Device} {format : Format} {timing : Timing} {now : Nat} {s : Session}
    (turns : Session.Turns device format timing now s r) : s.phase ≠ .stopped := by
  intro stopped
  cases turns with
  | ended ends =>
    have := ends.serving
    simp [Session.current?,stopped] at this
  | dialing phase => cases stopped.symm.trans phase
  | resumed phase => cases stopped.symm.trans phase
  | connected phase => cases stopped.symm.trans phase
  | sent phase => cases stopped.symm.trans phase
  | strayed phase => cases stopped.symm.trans phase
  | retried phase => cases stopped.symm.trans phase

theorem told_going (told : w.Told) (live : w.session.phase ≠ .stopped) (quiet : endings r.2 = []) :
    (w.step r).Told := by
  obtain ⟨rest,log,nothing,_⟩ := told
  rw [step_going quiet]
  refine ⟨[],?_,fun _ => rfl,by simp⟩
  dsimp only
  rw [marks_append,log,nothing live,marks_quiet w.now r.1.inbox quiet,overheard_marks]
  simp

theorem told_ending {outcome : Outcome} {seen : List SessionEvent} {t : Session} (told : w.Told)
    (ends : Session.Ends p.device p.format p.timing w.now w.session e outcome seen t) (answer : Option Response) :
    (w.step ({t with phase:=.idle},
      seen ++ [.done (e.complete outcome answer (Time.Instant.ofMicros w.now)) e.handler])).Told := by
  obtain ⟨rest,log,nothing,_⟩ := told
  have live : w.session.phase ≠ .stopped := fun stopped => by
    have := ends.serving
    simp [Session.current?,stopped] at this
  have heard := overheard_marks w
    ({t with phase:=.idle},seen ++ [.done (e.complete outcome answer (Time.Instant.ofMicros w.now)) e.handler])
  rw [List.filterMap_append,List.map_append] at heard
  rw [step_ending ends.serving (by rw [endings_append,ends.quiet]; rfl)]
  refine ⟨[],?_,fun _ => rfl,by simp⟩
  dsimp only
  rw [marks_append,log,nothing live,List.map_append,marks_append,marks_quiet w.now t.inbox ends.quiet,
    List.flatMap_append,
    List.flatMap_singleton,Service.marks,heard]
  simp only [List.append_assoc,List.append_nil,List.map_nil]
  rfl

theorem marks_halt (w : Watch) (live : w.session.phase ≠ .stopped) : marks ((w.session.halt w.now).2.map (w.now,·)) =
    w.session.held.map fun e => (w.now,.ended e.ticket .shutdown) := by
  rw [Session.halt_live live,List.map_append,marks_append]
  have lines : marks (w.session.closing.map (w.now,·)) = [] := by
    unfold Session.closing
    cases w.session.line <;> rfl
  rw [lines,List.append_nil]
  induction w.session.held with
  | nil => rfl
  | cons e es ih => exact congrArg (_::·) ih

theorem told_halt (told : w.Told) : (w.step (w.session.halt w.now)).Told := by
  obtain ⟨rest,log,nothing,shut⟩ := told
  by_cases stopped : w.session.phase = .stopped
  · rw [Session.halt_stopped stopped,step_going rfl]
    refine ⟨rest,?_,fun live => absurd stopped live,shut⟩
    simpa [overheard,closes,stopped] using log
  · cases serving : w.session.current? with
    | some e =>
      rw [step_halt serving]
      refine ⟨w.session.queue.entries.map fun e => (w.now,.ended e.ticket .shutdown),?_,
        fun live => absurd (Session.halt_phase w.now w.session) live,?_⟩
      · dsimp only
        rw [marks_append,log,nothing stopped,marks_halt w stopped,Session.held,serving]
        simp [Service.marks]
      · intro m member
        obtain ⟨e,_,rfl⟩ := List.mem_map.mp member
        exact ⟨_,rfl⟩
    | none =>
      rw [step_idle serving,overheard_halt]
      refine ⟨w.session.queue.entries.map fun e => (w.now,.ended e.ticket .shutdown),?_,
        fun live => absurd (Session.halt_phase w.now w.session) live,?_⟩
      · dsimp only
        rw [marks_append,log,nothing stopped,marks_halt w stopped,Session.held,serving]
        simp
      · intro m member
        obtain ⟨e,_,rfl⟩ := List.mem_map.mp member
        exact ⟨_,rfl⟩

theorem told_watched (watched : Watched p w) : w.Told := by
  induction watched with
  | born now => exact ⟨[],rfl,fun _ => rfl,by simp⟩
  | queued watched pushed ih => exact ih
  | passed watched later ih => exact ih
  | stepped watched steps ih =>
    have turns := Session.steps_turns steps
    have live := turns_live turns
    cases turns with
    | ended ends answer => exact told_ending ih ends answer
    | _ => exact told_going ih live rfl
  | halted watched ih => exact told_halt ih

end Watch

namespace Outcome

def answers : Outcome → Bool
  | .success => true
  | .exception _ => true
  | _ => false

def fails : Outcome → Bool
  | .timeout => true
  | .transport _ => true
  | _ => false

end Outcome

def outcomes (log : List (Nat × SessionEvent)) : List Outcome := log.filterMap fun x => x.2.ending?.map (·.1.outcome)

structure Metrics.Tallies (m : Metrics) (os : List Outcome) : Prop where
  succeeded : m.succeeded = os.countP Outcome.answers
  failed : m.failed = os.countP Outcome.fails
  total : m.total = m.succeeded+m.failed
  timeouts : m.timeouts = m.retries+os.count .timeout

namespace Metrics.Tallies
variable {m : Metrics} {os : List Outcome}

theorem success (tallies : m.Tallies os) (us : Nat) {o : Outcome} (answers : o.answers = true) :
    (m.success us).Tallies (os ++ [o]) := by
  have timely : o.fails = false ∧ o ≠ .timeout := by cases o <;> simp_all [Outcome.answers,Outcome.fails]
  have total := tallies.total
  refine ⟨?_,?_,?_,?_⟩
  · simpa [Metrics.success,List.countP_append,answers] using tallies.succeeded
  · simpa [Metrics.success,List.countP_append,timely.1] using tallies.failed
  · simp only [Metrics.success]
    omega
  · simpa [Metrics.success,List.count_append,timely.2] using tallies.timeouts

theorem failure (tallies : m.Tallies os) (us : Nat) (message : String) :
    (m.failure us).Tallies (os ++ [.transport message]) := by
  have total := tallies.total
  refine ⟨?_,?_,?_,?_⟩
  · simpa [Metrics.failure,List.countP_append,Outcome.answers] using tallies.succeeded
  · simpa [Metrics.failure,List.countP_append,Outcome.fails] using tallies.failed
  · simp only [Metrics.failure]
    omega
  · simpa [Metrics.failure,List.count_append] using tallies.timeouts

theorem timeout (tallies : m.Tallies os) (us : Nat) :
    (Metrics.failure {m with timeouts:=m.timeouts+1} us).Tallies (os ++ [.timeout]) := by
  have total := tallies.total
  have timeouts := tallies.timeouts
  refine ⟨?_,?_,?_,?_⟩
  · simpa [Metrics.failure,List.countP_append,Outcome.answers] using tallies.succeeded
  · simpa [Metrics.failure,List.countP_append,Outcome.fails] using tallies.failed
  · simp only [Metrics.failure]
    omega
  · simp only [Metrics.failure,List.count_append,List.count_singleton_self]
    omega

theorem retry (tallies : m.Tallies os) :
    ({m with timeouts:=m.timeouts+1,retries:=m.retries+1} : Metrics).Tallies os := by
  have timeouts := tallies.timeouts
  refine ⟨tallies.succeeded,tallies.failed,tallies.total,?_⟩
  dsimp only
  omega

theorem shutdown (tallies : m.Tallies os) (n : Nat) : m.Tallies (os ++ List.replicate n .shutdown) := by
  refine ⟨?_,?_,tallies.total,?_⟩
  · simpa [List.countP_append,List.countP_replicate,Outcome.answers] using tallies.succeeded
  · simpa [List.countP_append,List.countP_replicate,Outcome.fails] using tallies.failed
  · simpa [List.count_append,List.count_replicate] using tallies.timeouts

end Metrics.Tallies

namespace Watch
variable {p : Post} {w : Watch} {e : Entry} {r : Session × List SessionEvent}

theorem outcomes_append (a b : List (Nat × SessionEvent)) : outcomes (a ++ b) = outcomes a ++ outcomes b :=
  List.filterMap_append

theorem outcomes_endings (now : Nat) (out : List SessionEvent) :
    outcomes (out.map (now,·)) = (endings out).map (·.1.outcome) := by
  unfold outcomes endings
  rw [List.filterMap_map,List.map_filterMap]
  rfl

theorem outcomes_quiet (log : List (Nat × SessionEvent)) (now : Nat) {out : List SessionEvent}
    (quiet : endings out = []) :
    outcomes (log ++ out.map (now,·)) = outcomes log := by
  rw [outcomes_append,outcomes_endings,quiet,List.map_nil,List.append_nil]

theorem tallies_ends {outcome : Outcome} {seen : List SessionEvent} {t : Session} {os : List Outcome}
    (ends : Session.Ends p.device p.format p.timing w.now w.session e outcome seen t)
    (tallies : w.session.metrics.Tallies os) : t.metrics.Tallies (os ++ [outcome]) := by
  cases ends with
  | @answered x deadline l ready frame rest answer =>
    apply tallies.success
    unfold Response.outcome
    split <;> rfl
  | timedOut => exact tallies.timeout _
  | unreachable => exact tallies.failure _ _
  | refused => exact tallies.failure _ _
  | lost => exact tallies.failure _ _
  | broken => exact tallies.failure _ _

theorem tallies_halt (tallies : w.session.metrics.Tallies (outcomes w.log)) :
    (w.session.halt w.now).1.metrics.Tallies (outcomes (w.log ++ (w.session.halt w.now).2.map (w.now,·))) := by
  rw [outcomes_append,outcomes_endings]
  by_cases stopped : w.session.phase = .stopped
  · rw [Session.halt_stopped stopped]
    simpa [endings] using tallies
  · have cut : (endings (w.session.halt w.now).2).map (·.1.outcome) =
        List.replicate w.session.held.length .shutdown := by
      rw [halt_endings stopped,List.map_map,← List.map_const]
      rfl
    rw [cut,Session.halt_live stopped]
    exact tallies.shutdown _

theorem tallies_watched (watched : Watched p w) : w.session.metrics.Tallies (outcomes w.log) := by
  induction watched with
  | born now => exact ⟨rfl,rfl,rfl,rfl⟩
  | queued watched pushed ih => exact ih
  | passed watched later ih => exact ih
  | @stepped w r watched steps ih =>
    rw [step_session,step_log]
    cases Session.steps_turns steps with
    | @ended e outcome seen t ends answer =>
      have tallies : t.metrics.Tallies (outcomes w.log ++ [outcome]) := tallies_ends ends ih
      rw [outcomes_append,outcomes_endings,endings_append,ends.quiet]
      exact tallies
    | strayed =>
      rw [outcomes_quiet _ _ rfl]
      exact ⟨ih.succeeded,ih.failed,ih.total,ih.timeouts⟩
    | retried =>
      rw [outcomes_quiet _ _ rfl]
      exact ih.retry
    | _ =>
      rw [outcomes_quiet _ _ rfl]
      exact ih
  | halted watched ih =>
    rw [step_session,step_log]
    exact tallies_halt ih

structure Accounts (p : Post) (w : Watch) : Prop where
  told : w.Told
  fair : ∀ v ∈ w.past, v.Fair p
  -- the request in service has not been sent more often, nor otherwise
  frames : ∀ e ∈ w.session.current?, ∀ x ∈ w.sendings, x.frame = e.frame
  few : w.sendings.length ≤ p.timing.maxRetries+1
  tallies : w.session.metrics.Tallies (outcomes w.log)
  -- whatever the service ends on the spot
  spared : ∀ now, (w.session.halt now).1.metrics = w.session.metrics

theorem accounts_watched (watched : Watched p w) : Accounts p w := by
  have stage := stage_watched watched
  refine ⟨told_watched watched,fair_watched watched,fun e serving => (stage.going serving).1,?_,
    tallies_watched watched,?_⟩
  · cases serving : w.session.current? with
    | some e => exact (stage.going serving).2.1
    | none => simp [stage.idle serving]
  · intro now
    by_cases stopped : w.session.phase = .stopped
    · rw [Session.halt_stopped stopped]
    · rw [Session.halt_live stopped]

end Watch

namespace Registry

theorem requests_accounted : (∀ p w, Watched p w → w.Accounts p) ∧ ∀ around r key s, Reached around r →
    r.sessions.find? key = some s →
      ∃ w, Watched (around.post key) w ∧ w.now = r.now ∧ w.session = s ∧ w.log = r.events key :=
  ⟨fun _ _ => Watch.accounts_watched,fun _ _ _ _ => Reached.watched⟩

def mute : Surroundings := ⟨⟨1000,50,1⟩,.tcp,fun _ => ⟨0,0⟩,fun _ => ⟨fun _ => ⟨0,none⟩,fun _ _ => .answered []⟩⟩

def unanswered : Registry :=
  start mute.timing |>.enqueue mute (reading answering 1) |>.serve mute answering |>.tick 1000 |>.serve mute answering
    |>.tick 2000 |>.serve mute answering

theorem unanswered_reached : Reached mute unanswered :=
  have asked := Reached.start.asked (reading answering 1)
  have first := (asked.served answering).passed (show 0 ≤ 1000 by decide)
  have second := (first.served answering).passed (show 1000 ≤ 2000 by decide)
  second.served answering

theorem requests_accounted_unanswered : ∃ (s : Session) (w : Watch), unanswered.sessions.find? answering = some s ∧
    s.metrics.timeouts = 2 ∧ w.session = s ∧ w.log = unanswered.events answering ∧ outcomes w.log = [.timeout] ∧
    w.Accounts (mute.post answering) := by
  have counted : (unanswered.sessions.find? answering).map (·.metrics.timeouts) = some 2 := by cbv
  have ended : outcomes (unanswered.events answering) = [.timeout] := by cbv
  obtain ⟨s,found,twice⟩ := Option.map_eq_some_iff.mp counted
  obtain ⟨w,watched,_,same,log⟩ := requests_accounted.2 mute unanswered answering s unanswered_reached found
  exact ⟨s,w,found,twice,same,log,log.symm ▸ ended,requests_accounted.1 _ w watched⟩

end Registry
end ModbusMaster
