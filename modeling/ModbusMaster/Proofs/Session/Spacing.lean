import Mathlib.Data.List.Chain
import ModbusMaster.Proofs.Session.Accounts
namespace ModbusMaster

-- The times between the sendings of a session: of any two, and of two for one request.

def transmissions (ms : List (Nat × Mark)) : List Nat := ms.filterMap fun m => match m.2 with
  | .sent _ => some m.1
  | .ended _ _ => none

theorem transmissions_append (a b : List (Nat × Mark)) : transmissions (a ++ b) = transmissions a ++ transmissions b :=
  List.filterMap_append

theorem transmissions_sendings (xs : List Sending) : transmissions (xs.map Sending.mark) = xs.map (·.time) := by
  unfold transmissions
  rw [List.filterMap_map]
  exact congrFun List.filterMap_eq_map xs

def Apart (delay : Nat) (ts : List Nat) : Prop := ts.IsChain fun a b => a+delay ≤ b

theorem Apart.snoc {delay t : Nat} {ts : List Nat} (apart : Apart delay ts) (passed : ∀ a ∈ ts.getLast?, a+delay ≤ t) :
    Apart delay (ts ++ [t]) := by
  refine List.isChain_append.mpr ⟨apart,List.isChain_singleton t,fun a last b first => ?_⟩
  cases first
  exact passed a last

namespace Watch
variable {p : Post} {w : Watch} {e : Entry} {r : Session × List SessionEvent}

def times (w : Watch) : List Nat := w.past.flatMap (fun v => v.sendings.map (·.time)) ++ w.sendings.map (·.time)

theorem Told.transmissions (told : w.Told) : transmissions (marks w.log) = w.times := by
  obtain ⟨rest,log,_,shut⟩ := told
  have silent : ModbusMaster.transmissions rest = [] := by
    refine List.filterMap_eq_nil_iff.mpr fun m member => ?_
    obtain ⟨t,same⟩ := shut m member
    rw [same]
  have each (v : Service) : ModbusMaster.transmissions v.marks = v.sendings.map (·.time) := by
    rw [Service.marks,transmissions_append,transmissions_sendings]
    exact List.append_nil _
  have past : ModbusMaster.transmissions (w.past.flatMap Service.marks) =
      w.past.flatMap fun v => v.sendings.map (·.time) := by
    induction w.past with
    | nil => rfl
    | cons v vs ih => rw [List.flatMap_cons,List.flatMap_cons,transmissions_append,each,ih]
  rw [log,transmissions_append,transmissions_append,past,transmissions_sendings,silent,List.append_nil,times]

def fresh (now : Nat) (r : Session × List SessionEvent) : List Nat :=
  (r.2.filterMap (Sending.ofEvent? now r.1.inbox)).map (·.time)

theorem overheard_times (w : Watch) (r : Session × List SessionEvent) :
    (w.overheard r).map (·.time) = w.sendings.map (·.time) ++ fresh w.now r := by
  unfold overheard
  rw [List.map_append]
  split
  · rw [List.map_map]
    rfl
  · rfl

theorem step_times (w : Watch) (r : Session × List SessionEvent) : (w.step r).times = w.times ++ fresh w.now r := by
  unfold step times
  split
  · simp [overheard_times]
  · simp [overheard_times]

theorem turns_fresh {device : Device} {format : Format} {timing : Timing} {now : Nat} {s : Session}
    (turns : Session.Turns device format timing now s r) : (fresh now r = [] ∧ r.1.lastSent = s.lastSent) ∨
      (fresh now r = [now] ∧ r.1.lastSent = some now ∧ ∃ x ready, s.phase = .pausing x ready ∧ ready ≤ now) := by
  cases turns with
  | sent phase due => exact .inr ⟨rfl,rfl,_,_,phase,due⟩
  | ended ends =>
    cases ends with
    | refused phase due => exact .inr ⟨rfl,rfl,_,_,phase,due⟩
    | _ => exact .inl ⟨rfl,rfl⟩
  | _ => exact .inl ⟨rfl,rfl⟩

-- A frame that waits for its turn waits for the delay behind the last one.
def Turned (timing : Timing) (s : Session) : Prop :=
  ∀ x ready, s.phase = .pausing x ready → ∀ t ∈ s.lastSent, t+timing.delayUs ≤ ready

theorem turn_last {timing : Timing} {now : Nat} (s : Session) :
    ∀ t ∈ s.lastSent, t+timing.delayUs ≤ s.turn timing now := by
  intro t last
  unfold Session.turn
  rw [Option.mem_def.mp last]

theorem turns_turned {device : Device} {format : Format} {timing : Timing} {now : Nat} {s : Session}
    (turns : Session.Turns device format timing now s r) : Turned timing r.1 := by
  intro x ready pausing
  cases turns with
  | resumed =>
    cases pausing
    exact turn_last s
  | connected =>
    cases pausing
    exact turn_last s
  | retried =>
    cases pausing
    exact turn_last s
  | strayed phase => cases phase.symm.trans pausing
  | _ => cases pausing

structure Paced (p : Post) (w : Watch) : Prop where
  last : w.times.getLast? = w.session.lastSent
  turned : Turned p.timing w.session
  apart : Apart p.timing.delayUs w.times
  again : ∀ v ∈ w.past, Apart p.timing.responseUs (v.sendings.map (·.time))
  going : Apart p.timing.responseUs (w.sendings.map (·.time))

theorem Paced.step (paced : Paced p w) (turned : Turned p.timing r.1)
    (last : (w.times ++ fresh w.now r).getLast? = r.1.lastSent)
    (apart : Apart p.timing.delayUs (w.times ++ fresh w.now r))
    (again : Apart p.timing.responseUs (w.sendings.map (·.time) ++ fresh w.now r)) : Paced p (w.step r) := by
  rw [← step_times] at last apart
  rw [← overheard_times] at again
  refine ⟨(step_session r w).symm ▸ last,(step_session r w).symm ▸ turned,apart,?_,?_⟩
  · intro v member
    rcases step_books r w with ⟨same,_⟩ | ⟨e,outcome,more,_⟩
    · exact paced.again v (same ▸ member)
    · rcases List.mem_append.mp (more ▸ member) with old | new
      · exact paced.again v old
      · cases List.mem_singleton.mp new
        exact again
  · rcases step_books r w with ⟨_,heard⟩ | ⟨_,_,_,empty⟩
    · rw [heard]
      exact again
    · rw [empty]
      exact List.isChain_nil

theorem paced_turn (stage : Stage p w) (paced : Paced p w)
    (turns : Session.Turns p.device p.format p.timing w.now w.session r) : Paced p (w.step r) := by
  rcases turns_fresh turns with ⟨none,same⟩ | ⟨one,last,x,ready,phase,due⟩
  · refine paced.step (turns_turned turns) ?_ ?_ ?_ <;> rw [none,List.append_nil]
    · rw [same]
      exact paced.last
    · exact paced.apart
    · exact paced.going
  · refine paced.step (turns_turned turns) ?_ ?_ ?_ <;> rw [one]
    · rw [last]
      exact List.getLast?_concat
    · exact paced.apart.snoc fun t before => Nat.le_trans (paced.turned x ready phase t (paced.last ▸ before)) due
    · refine paced.going.snoc fun t before => ?_
      obtain ⟨y,member,rfl⟩ := List.mem_map.mp (List.mem_of_getLast? before)
      exact ((stage.paused phase).2.each y member).2.2

theorem paced_halt (paced : Paced p w) : Paced p (w.step (w.session.halt w.now)) := by
  have silent : fresh w.now (w.session.halt w.now) = [] := by
    have heard := overheard_times w (w.session.halt w.now)
    rw [overheard_halt] at heard
    exact List.append_right_eq_self.mp heard.symm
  have same : (w.session.halt w.now).1.lastSent = w.session.lastSent := by
    by_cases stopped : w.session.phase = .stopped
    · rw [Session.halt_stopped stopped]
    · rw [Session.halt_live stopped]
  refine paced.step ?_ ?_ ?_ ?_
  · intro x ready phase
    cases (Session.halt_phase w.now w.session).symm.trans phase
  all_goals rw [silent,List.append_nil]
  · rw [same]
    exact paced.last
  · exact paced.apart
  · exact paced.going

theorem paced_watched (watched : Watched p w) : Paced p w := by
  induction watched with
  | born now => exact ⟨rfl,fun _ _ phase => (by cases phase),List.isChain_nil,by simp,List.isChain_nil⟩
  | queued watched pushed ih => exact ⟨ih.last,ih.turned,ih.apart,ih.again,ih.going⟩
  | passed watched later ih => exact ⟨ih.last,ih.turned,ih.apart,ih.again,ih.going⟩
  | stepped watched steps ih => exact paced_turn (stage_watched watched) ih (Session.steps_turns steps)
  | halted watched ih => exact paced_halt ih

-- The frames that a session has sent, in the order of its requests: how far apart they are,
-- and the end of each request in front of the first frame of the next one.
structure Spaces (p : Post) (w : Watch) : Prop where
  told : w.Told
  apart : Apart p.timing.delayUs (transmissions (marks w.log))
  again : ∀ v ∈ w.past, Apart p.timing.responseUs (v.sendings.map (·.time))
  going : Apart p.timing.responseUs (w.sendings.map (·.time))
  -- what has been sent and has no end yet is of the request in service
  own : ∀ e ∈ w.session.current?, ∀ x ∈ w.sendings, x.frame = e.frame
  none : w.session.current? = .none → w.sendings = []

theorem spaces_watched (watched : Watched p w) : Spaces p w := by
  have told := told_watched watched
  have paced := paced_watched watched
  have stage := stage_watched watched
  exact ⟨told,told.transmissions.symm ▸ paced.apart,paced.again,paced.going,
    fun e serving => (stage.going serving).1,stage.idle⟩

end Watch

namespace Registry

theorem transmissions_spaced : (∀ p w, Watched p w → w.Spaces p) ∧ ∀ around r key s, Reached around r →
    r.sessions.find? key = some s →
      ∃ w, Watched (around.post key) w ∧ w.now = r.now ∧ w.session = s ∧ w.log = r.events key :=
  ⟨fun _ _ => Watch.spaces_watched,fun _ _ _ _ => Reached.watched⟩

def askedAgain : Registry := unanswered |>.enqueue mute (reading answering 2) |>.serve mute answering

theorem transmissions_spaced_asked_again : ∃ (s : Session) (w : Watch),
    askedAgain.sessions.find? answering = some s ∧ w.session = s ∧ w.log = askedAgain.events answering ∧
    transmissions (marks w.log) = [0,1000,2000] ∧ w.Spaces (mute.post answering) := by
  have reached : Reached mute askedAgain := (unanswered_reached.asked (reading answering 2)).served answering
  have there : (askedAgain.sessions.find? answering).isSome = true := by cbv
  have seen : transmissions (marks (askedAgain.events answering)) = [0,1000,2000] := by cbv
  obtain ⟨s,found⟩ := Option.isSome_iff_exists.mp there
  obtain ⟨w,watched,_,same,log⟩ := transmissions_spaced.2 mute askedAgain answering s reached found
  exact ⟨s,w,found,same,log,log.symm ▸ seen,transmissions_spaced.1 _ w watched⟩

end Registry
end ModbusMaster
